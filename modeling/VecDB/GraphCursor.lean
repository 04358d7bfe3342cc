import VecDB.GraphTermination
import Mathlib.Tactic

/-!
# The cursor of the graph parser

The parser once more, with the cursor as a pointer into memory: a read outside
the memory and a step over a NUL are access violations.  It does what the
parser on texts does, so it never leaves a text that ends in a NUL.
-/

namespace VecDB
namespace GraphText
namespace Cursor

/-! ## The parser on memory -/

def deref : List Char → Except Failure Char
  | [] => .error .accessViolation
  | c :: _ => .ok c

/-- `++p` -/
def next : List Char → Except Failure (List Char)
  | [] => .error .accessViolation
  | c :: m => if c = '\x00' then .error .accessViolation else .ok m

def skipWs : List Char → Except Failure (List Char)
  | [] => .error .accessViolation
  | c :: m => if isWs c then skipWs m else .ok (c :: m)

def expect (c : Char) (m : List Char) : Except Failure (List Char) := do
  let m ← skipWs m
  let d ← deref m
  if d = c then next m
  else .error (.runtimeError ("Snapshot JSON: expected '" ++
    (String.singleton c ++ ("' got '" ++ (String.singleton d ++ "'")))))

def readKey : List Char → Except Failure (List Char × List Char)
  | [] => .error .accessViolation
  | c :: m =>
      if isKeyChar c then do
        let (key, m) ← readKey m
        return (c :: key, m)
      else .ok ([], c :: m)

def parseKey (m : List Char) : Except Failure (String × List Char) := do
  let m ← skipWs m
  let m ← expect '"' m
  let (key, m) ← readKey m
  let m ← expect '"' m
  return (String.ofList key, m)

def readDigits (v : Int64) : List Char → Except Failure (Int64 × List Char)
  | [] => .error .accessViolation
  | c :: m =>
      if c.isDigit then
        readDigits (v * 10 + Int64.ofNat (c.toNat - '0'.toNat)) m
      else .ok (v, c :: m)

def parseInt (m : List Char) : Except Failure (Int64 × List Char) := do
  let m ← skipWs m
  let c ← deref m
  if c = '-' then do
    let m ← next m
    let (v, m) ← readDigits 0 m
    return (-v, m)
  else readDigits 0 m

def parseU32 (m : List Char) : Except Failure (UInt32 × List Char) := do
  let (v, m) ← parseInt m
  return (v.toUInt64.toUInt32, m)

def parseItems {α : Type} (item : List Char → Except Failure (α × List Char)) :
    ℕ → List Char → Except Failure (List α × List Char)
  | 0, _ => .error .nonTermination
  | fuel + 1, m => do
      let (x, m) ← item m
      let m ← skipWs m
      let c ← deref m
      if c = ']' then do
        let m ← next m
        return ([x], m)
      else do
        let m ← expect ',' m
        let (xs, m) ← parseItems item fuel m
        return (x :: xs, m)

def parseArray {α : Type} (item : List Char → Except Failure (α × List Char))
    (m : List Char) : Except Failure (List α × List Char) := do
  let m ← skipWs m
  let m ← expect '[' m
  let m ← skipWs m
  let c ← deref m
  if c = ']' then do
    let m ← next m
    return ([], m)
  else parseItems item (m.length + 1) m

def parseNodeAdj (m : List Char) :
    Except Failure (List (List UInt32) × List Char) := do
  let m ← skipWs m
  let m ← expect '\x7b' m
  let m ← skipWs m
  let (key, m) ← parseKey m
  if key ≠ "l" then
    throw (.runtimeError "Snapshot JSON: expected key 'l'")
  let m ← expect ':' m
  let (layers, m) ← parseArray (parseArray parseU32) m
  let m ← expect '\x7d' m
  return (layers, m)

def parseValue (g : JsonGraph) (key : String) (m : List Char) :
    Except Failure (JsonGraph × List Char) :=
  match scalarField key with
  | some assign => do
      let (v, m) ← parseInt m
      return (assign g v, m)
  | none =>
      if key = "adj" then do
        let (adj, m) ← parseArray parseNodeAdj m
        return ({ g with adj := g.adj ++ adj }, m)
      else .ok (g, m)

def parseMember (g : JsonGraph) (m : List Char) :
    Except Failure (JsonGraph × List Char) := do
  let (key, m) ← parseKey m
  let m ← expect ':' m
  let m ← skipWs m
  parseValue g key m

def parseMembers : ℕ → JsonGraph → List Char →
    Except Failure (JsonGraph × List Char)
  | 0, _, _ => .error .nonTermination
  | fuel + 1, g, m => do
      let m ← skipWs m
      let c ← deref m
      if c = '\x7d' then do
        let m ← next m
        return (g, m)
      else do
        let m ← (if c = ',' then do
          let m ← next m
          skipWs m
        else .ok m)
        let (g, m) ← parseMember g m
        parseMembers fuel g m

/-- `m` is the memory from the first character of the file on. -/
def parseText (m : List Char) : Except Failure (JsonGraph × List Char) := do
  let m ← expect '\x7b' m
  parseMembers (m.length + 1) {} m

/-! ## Both parsers do the same -/

/-- The memory from a rest of the text on. -/
def memory (junk r : List Char) : List Char := r ++ '\x00' :: junk

def Mirrors {α : Type} (checked parse : List Char →
    Except Failure (α × List Char)) : Prop :=
  ∀ junk p, checked (memory junk p) =
    (parse p).map fun result => (result.1, memory junk result.2)

theorem skipWs_memory (junk p : List Char) :
    skipWs (memory junk p) = .ok (memory junk (GraphText.skipWs p)) := by
  induction p with
  | nil => rfl
  | cons c p ih =>
      change (if isWs c then skipWs (memory junk p)
        else .ok (c :: memory junk p)) = _
      unfold GraphText.skipWs
      rw [List.dropWhile_cons]
      split_ifs
      · exact ih
      · rfl

theorem deref_memory (junk p : List Char) :
    deref (memory junk p) = .ok (peek p) := by
  cases p with
  | nil => rfl
  | cons c p => rfl

/-- A step over a character other than NUL stays in the text. -/
theorem next_memory (junk : List Char) {p : List Char}
    (hpeek : peek p ≠ '\x00') :
    next (memory junk p) = .ok (memory junk p.tail) := by
  cases p with
  | nil => exact absurd rfl hpeek
  | cons c p => exact if_neg hpeek

theorem expect_memory {c : Char} (hc : c ≠ '\x00') (junk p : List Char) :
    expect c (memory junk p) = (GraphText.expect c p).map (memory junk) := by
  unfold expect GraphText.expect
  rw [skipWs_memory, except_bind_ok, deref_memory, except_bind_ok]
  dsimp only
  split_ifs with hpeek
  · exact next_memory junk (hpeek ▸ hc)
  · rfl

theorem readKey_memory (junk p : List Char) :
    readKey (memory junk p) =
      .ok (p.takeWhile isKeyChar, memory junk (p.dropWhile isKeyChar)) := by
  induction p with
  | nil => rfl
  | cons c p ih =>
      change (if isKeyChar c then (do
          let (key, m) ← readKey (memory junk p)
          return (c :: key, m))
        else .ok ([], c :: memory junk p)) = _
      rw [List.takeWhile_cons, List.dropWhile_cons, ih]
      split_ifs
      · rfl
      · rfl

theorem parseKey_mirrors : Mirrors parseKey GraphText.parseKey := by
  intro junk p
  unfold parseKey GraphText.parseKey
  rw [skipWs_memory, except_bind_ok, expect_memory (by decide)]
  refine except_map_bind fun q _ => ?_
  rw [readKey_memory, except_bind_ok]
  dsimp only
  rw [expect_memory (by decide)]
  exact except_map_bind fun _ _ => rfl

theorem readDigits_memory (v : Int64) (junk p : List Char) :
    readDigits v (memory junk p) = .ok ((GraphText.readDigits v p).1,
      memory junk (GraphText.readDigits v p).2) := by
  induction p generalizing v with
  | nil => rfl
  | cons c p ih =>
      change (if c.isDigit then
          readDigits (v * 10 + Int64.ofNat (c.toNat - '0'.toNat))
            (memory junk p)
        else .ok (v, c :: memory junk p)) = _
      unfold GraphText.readDigits
      split_ifs
      · exact ih _
      · rfl

theorem parseInt_memory (junk p : List Char) :
    parseInt (memory junk p) = .ok ((GraphText.parseInt p).1,
      memory junk (GraphText.parseInt p).2) := by
  unfold parseInt GraphText.parseInt
  rw [skipWs_memory, except_bind_ok, deref_memory, except_bind_ok]
  dsimp only
  split_ifs with hminus
  · rw [next_memory junk (by rw [hminus]; decide), except_bind_ok,
      readDigits_memory]
    rfl
  · exact readDigits_memory 0 junk _

theorem parseU32_mirrors : Mirrors parseU32 GraphText.parseU32 := by
  intro junk p
  unfold parseU32 GraphText.parseU32
  rw [parseInt_memory]
  rfl

section Array

variable {α : Type} {checked parse : List Char →
  Except Failure (α × List Char)}

/-- Both loops have fuel to the end: each turn reads a comma. -/
theorem parseItems_memory (hmirrors : Mirrors checked parse)
    (hends : Ends parse) (junk : List Char) (fuel fuel' : ℕ) {p : List Char}
    (hfuel : p.length < fuel) (hfuel' : p.length < fuel') :
    parseItems checked fuel (memory junk p) =
      (GraphText.parseItems parse fuel' p).map fun result =>
        (result.1, memory junk result.2) := by
  induction fuel generalizing fuel' p with
  | zero => omega
  | succ fuel ih =>
      obtain _ | fuel' := fuel'
      · omega
      unfold parseItems GraphText.parseItems
      rw [hmirrors junk p]
      refine except_map_bind fun result hx => ?_
      obtain ⟨x, q⟩ := result
      dsimp only
      rw [skipWs_memory, except_bind_ok, deref_memory, except_bind_ok]
      split_ifs with hclose
      · rw [next_memory junk (by rw [hclose]; decide)]
        rfl
      · rw [expect_memory (by decide)]
        refine except_map_bind fun q' hq' => ?_
        have hlt := expect_length_lt (by decide) hq'
        have hle := hends.length_le p x q hx
        have hskip := skipWs_length_le q
        rw [ih fuel' (by omega) (by omega)]
        exact except_map_bind fun _ _ => rfl

theorem parseArray_mirrors (hmirrors : Mirrors checked parse)
    (hends : Ends parse) :
    Mirrors (parseArray checked) (GraphText.parseArray parse) := by
  intro junk p
  unfold parseArray GraphText.parseArray
  rw [skipWs_memory, except_bind_ok, expect_memory (by decide),
    expect_skipsBlanks '[' p]
  refine except_map_bind fun q _ => ?_
  rw [skipWs_memory, except_bind_ok, deref_memory, except_bind_ok]
  split_ifs with hclose
  · rw [next_memory junk (by rw [hclose]; decide)]
    rfl
  · have hskip := skipWs_length_le q
    refine parseItems_memory hmirrors hends junk _ _ ?_ ?_
    · simp only [memory, List.length_append, List.length_cons]
      omega
    · omega

end Array

theorem parseNodeAdj_mirrors : Mirrors parseNodeAdj GraphText.parseNodeAdj := by
  intro junk p
  unfold parseNodeAdj GraphText.parseNodeAdj
  rw [skipWs_memory, except_bind_ok, expect_memory (by decide),
    expect_skipsBlanks '\x7b' p]
  refine except_map_bind fun q₁ _ => ?_
  rw [skipWs_memory, except_bind_ok, parseKey_mirrors,
    parseKey_skipsBlanks q₁]
  refine except_map_bind fun result _ => ?_
  obtain ⟨key, q₂⟩ := result
  dsimp only
  split_ifs
  · rfl
  · rw [expect_memory (by decide)]
    refine except_map_bind fun q₃ _ => ?_
    rw [parseArray_mirrors (parseArray_mirrors parseU32_mirrors parseU32_ends)
      (parseArray_ends parseU32_ends)]
    refine except_map_bind fun result _ => ?_
    obtain ⟨layers, q₄⟩ := result
    dsimp only
    rw [expect_memory (by decide)]
    exact except_map_bind fun _ _ => rfl

theorem parseValue_mirrors (g : JsonGraph) (key : String) :
    Mirrors (parseValue g key) (GraphText.parseValue g key) := by
  intro junk p
  unfold parseValue GraphText.parseValue
  cases scalarField key with
  | some assign =>
      dsimp only
      rw [parseInt_memory]
      rfl
  | none =>
      dsimp only
      split_ifs
      · rw [parseArray_mirrors parseNodeAdj_mirrors parseNodeAdj_ends]
        exact except_map_bind fun _ _ => rfl
      · rfl

theorem parseMember_mirrors (g : JsonGraph) :
    Mirrors (parseMember g) (GraphText.parseMember g) := by
  intro junk p
  unfold parseMember GraphText.parseMember
  rw [parseKey_mirrors]
  refine except_map_bind fun result _ => ?_
  obtain ⟨key, q⟩ := result
  dsimp only
  rw [expect_memory (by decide)]
  refine except_map_bind fun q' _ => ?_
  rw [skipWs_memory, except_bind_ok]
  exact parseValue_mirrors g key junk _

theorem parseMembers_memory (junk : List Char) (fuel fuel' : ℕ)
    {g : JsonGraph} {p : List Char} (hfuel : p.length < fuel)
    (hfuel' : p.length < fuel') :
    parseMembers fuel g (memory junk p) =
      (GraphText.parseMembers fuel' g p).map fun result =>
        (result.1, memory junk result.2) := by
  induction fuel generalizing fuel' g p with
  | zero => omega
  | succ fuel ih =>
      obtain _ | fuel' := fuel'
      · omega
      have hskip := skipWs_length_le p
      unfold parseMembers GraphText.parseMembers
      rw [skipWs_memory, except_bind_ok, deref_memory, except_bind_ok]
      dsimp only
      split_ifs with hclose hcomma
      · rw [next_memory junk (by rw [hclose]; decide)]
        rfl
      · rw [next_memory junk (by rw [hcomma]; decide), except_bind_ok,
          skipWs_memory, except_bind_ok, parseMember_mirrors]
        refine except_map_bind fun result hmember => ?_
        obtain ⟨g', r⟩ := result
        have hlt := parseMember_length_lt hmember
        have hskip' := skipWs_length_le (GraphText.skipWs p).tail
        rw [List.length_tail] at hskip'
        exact ih fuel' (show r.length < fuel by omega)
          (show r.length < fuel' by omega)
      · rw [except_bind_ok, parseMember_mirrors]
        refine except_map_bind fun result hmember => ?_
        obtain ⟨g', r⟩ := result
        have hlt := parseMember_length_lt hmember
        exact ih fuel' (show r.length < fuel by omega)
          (show r.length < fuel' by omega)

theorem parseText_mirrors : Mirrors parseText GraphText.parseText := by
  intro junk p
  unfold parseText GraphText.parseText
  rw [expect_memory (by decide)]
  refine except_map_bind fun q _ => ?_
  refine parseMembers_memory junk _ _ ?_ (Nat.lt_succ_self _)
  simp only [memory, List.length_append]
  omega

/-- The parser ends on every text with a NUL behind it and stops in front of
this NUL, and a graph file that is cut off before its last brace is refused. -/
theorem parser_stays_in_text (junk : List Char) :
    (∀ text,
      (∃ g r, parseText (text ++ '\x00' :: junk) =
        .ok (g, r ++ '\x00' :: junk)) ∨
      ∃ e, parseText (text ++ '\x00' :: junk) = .error e ∧ e.Thrown) ∧
    ∀ (V : Type) (index : HNSWIndex V) (count : ℕ),
      count + 1 < (writeJsonGraph index).length →
      ∃ e, parseText ((writeJsonGraph index).take count ++ '\x00' :: junk) =
        .error e ∧ e.Thrown := by
  have hmirrors (text : List Char) := parseText_mirrors junk text
  unfold memory at hmirrors
  constructor
  · intro text
    rw [hmirrors]
    cases hparse : GraphText.parseText text with
    | ok result => exact Or.inl ⟨result.1, result.2, rfl⟩
    | error e => exact Or.inr ⟨e, rfl, parseText_thrown hparse⟩
  · intro V index count hcount
    rw [hmirrors]
    cases hparse : GraphText.parseText ((writeJsonGraph index).take count) with
    | ok result =>
        have hle := (parseText_take_iff index count).mp ⟨_, _, hparse⟩
        omega
    | error e => exact ⟨e, rfl, parseText_thrown hparse⟩

end Cursor
end GraphText
end VecDB
