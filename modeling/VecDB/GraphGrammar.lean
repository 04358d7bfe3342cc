import VecDB.GraphReading
import Mathlib.Tactic

/-!
# The texts of graph files

A grammar of JSON objects with the members of a graph: a relation between a
text, the values written at its front and the rest of the text.  It says
nothing of the parser, whose readings are compared with it.
-/

namespace VecDB
namespace GraphText

/-! ## Tokens -/

/-- `q` is behind blanks. -/
def Ws (p q : List Char) : Prop := ∃ lead, Blank lead ∧ p = lead ++ q

def Tok (c : Char) (p q : List Char) : Prop := Ws p (c :: q)

def Quoted (key : String) (p q : List Char) : Prop :=
  Ws p ('"' :: (key.toList ++ '"' :: q))

/-- Digits without a leading zero. -/
def isNatNumeral (ds : List Char) : Bool :=
  !ds.isEmpty && ds.all Char.isDigit && (ds.head? != some '0' || ds.length == 1)

/-- The integers of JSON. -/
def isNumeral : List Char → Bool
  | '-' :: ds => isNatNumeral ds
  | ds => isNatNumeral ds

def numeralValue : List Char → ℤ
  | '-' :: ds => -(Nat.ofDigitChars 10 ds 0 : ℤ)
  | ds => (Nat.ofDigitChars 10 ds 0 : ℤ)

def Numeral (p : List Char) (i : ℤ) (q : List Char) : Prop :=
  ∃ text, isNumeral text = true ∧ numeralValue text = i ∧ Ws p (text ++ q)

/-! ## Lists, nodes and members -/

section Lists

variable {α : Type}

/-- Items with commas between them, and what closes the list. -/
inductive Items (close : Char) (item : List Char → α → List Char → Prop) :
    List Char → List α → List Char → Prop
  | last {p q r : List Char} {x : α} : item p x q → Tok close q r →
      Items close item p [x] r
  | next {p q q' r : List Char} {x : α} {xs : List α} : item p x q →
      Tok ',' q q' → Items close item q' xs r →
      Items close item p (x :: xs) r

def Listed (close : Char) (item : List Char → α → List Char → Prop)
    (p : List Char) (xs : List α) (r : List Char) : Prop :=
  xs = [] ∧ Tok close p r ∨ Items close item p xs r

def ArrayOf (item : List Char → α → List Char → Prop) (p : List Char)
    (xs : List α) (r : List Char) : Prop :=
  ∃ q, Tok '[' p q ∧ Listed ']' item q xs r

end Lists

def U32 (p : List Char) (i : ℤ) (q : List Char) : Prop :=
  Numeral p i q ∧ 0 ≤ i ∧ i < 2 ^ 32

/-- `{"l": [[n, ...], ...]}` -/
def Node (p : List Char) (layers : List (List ℤ)) (r : List Char) : Prop :=
  ∃ q₁ q₂ q₃ q₄, Tok '\x7b' p q₁ ∧ Quoted "l" q₁ q₂ ∧ Tok ':' q₂ q₃ ∧
    ArrayOf (ArrayOf U32) q₃ layers q₄ ∧ Tok '\x7d' q₄ r

/-- The value of a member. -/
inductive Written where
  | int (i : ℤ)
  | nodes (adj : List (List (List ℤ)))
  deriving DecidableEq

def intRange : ℤ × ℤ := (-2 ^ 31, 2 ^ 31 - 1)
def u32Range : ℤ × ℤ := (0, 2 ^ 32 - 1)

/-- What fits the field of a scalar member. -/
def fieldRange : String → Option (ℤ × ℤ)
  | "version" => some intRange
  | "dim" => some intRange
  | "vec_count" => some u32Range
  | "M" => some intRange
  | "M_max0" => some intRange
  | "ef_construction" => some intRange
  | "ef_search" => some intRange
  | "max_layers" => some intRange
  | "entry_point" => some u32Range
  | "max_layer" => some intRange
  | _ => none

def Value (key : String) (p : List Char) : Written → List Char → Prop
  | .int i, r => ∃ range, fieldRange key = some range ∧ Numeral p i r ∧
      range.1 ≤ i ∧ i ≤ range.2
  | .nodes adj, r => key = "adj" ∧ ArrayOf Node p adj r

def Member (p : List Char) (member : String × Written) (r : List Char) :
    Prop :=
  ∃ q₁ q₂, Quoted member.1 p q₁ ∧ Tok ':' q₁ q₂ ∧ Value member.1 q₂ member.2 r

def Object (p : List Char) (members : List (String × Written))
    (r : List Char) : Prop :=
  ∃ q, Tok '\x7b' p q ∧ Listed '\x7d' Member q members r

/-! ## The graph that a text represents -/

def u32Int (u : UInt32) : ℤ := u.toNat

/-- A field of the graph, under its key. -/
def JsonGraph.written (g : JsonGraph) : String → Option Written
  | "version" => some (.int g.version.toInt)
  | "dim" => some (.int g.dim.toInt)
  | "vec_count" => some (.int (u32Int g.vecCount))
  | "M" => some (.int g.M.toInt)
  | "M_max0" => some (.int g.Mmax0.toInt)
  | "ef_construction" => some (.int g.efConstruction.toInt)
  | "ef_search" => some (.int g.efSearch.toInt)
  | "max_layers" => some (.int g.maxLayers.toInt)
  | "entry_point" => some (.int (u32Int g.entryPoint))
  | "max_layer" => some (.int g.maxLayer.toInt)
  | "adj" => some (.nodes (g.adj.map fun node =>
      node.map fun layer => layer.map u32Int))
  | _ => none

/-- The graph has the values of the members, and zeros elsewhere. -/
def Agrees (g : JsonGraph) (members : List (String × Written)) : Prop :=
  (∀ member ∈ members, g.written member.1 = some member.2) ∧
    ∀ key, (∀ member ∈ members, member.1 ≠ key) →
      g.written key = ({} : JsonGraph).written key

/-- An object, up to the rest `r` of the text, has the values of the graph. -/
def Represents (p : List Char) (g : JsonGraph) (r : List Char) : Prop :=
  ∃ members, Object p members r ∧ Agrees g members

/-! ## Tokens and the parser's steps -/

theorem ws_skipWs (p : List Char) : Ws p (skipWs p) :=
  ⟨p.takeWhile isWs, List.all_eq_true.mp List.all_takeWhile,
    List.takeWhile_append_dropWhile.symm⟩

theorem Ws.trans {p q r : List Char} (h : Ws p q) (h' : Ws q r) : Ws p r := by
  obtain ⟨lead, hlead, rfl⟩ := h
  obtain ⟨lead', hlead', rfl⟩ := h'
  refine ⟨lead ++ lead', ?_, List.append_assoc _ _ _ |>.symm⟩
  intro c hc
  rcases List.mem_append.mp hc with hc | hc
  · exact hlead c hc
  · exact hlead' c hc

theorem Ws.skipWs_eq {p q : List Char} (h : Ws p q) : skipWs p = skipWs q := by
  obtain ⟨lead, hlead, rfl⟩ := h
  exact skipWs_append hlead q

theorem tok_iff {c : Char} (hc : isWs c = false) {p q : List Char} :
    Tok c p q ↔ skipWs p = c :: q := by
  constructor
  · intro h
    rw [h.skipWs_eq, skipWs_cons hc]
  · intro h
    have hws := ws_skipWs p
    rwa [h] at hws

theorem expect_iff_tok {c : Char} (hc : isWs c = false) (hnul : c ≠ '\x00')
    {p q : List Char} : expect c p = .ok q ↔ Tok c p q := by
  rw [expect_eq_ok hnul, tok_iff hc]

theorem Tok.delimited {c : Char} (hc : c.isDigit = false) {p q : List Char}
    (h : Tok c p q) : Delimited p := by
  obtain ⟨lead, hlead, rfl⟩ := h
  exact delimited_append hlead hc q

theorem Tok.length_lt {c : Char} {p q : List Char} (h : Tok c p q) :
    q.length < p.length := by
  obtain ⟨lead, _, rfl⟩ := h
  rw [List.length_append, List.length_cons]
  omega

/-- Behind the characters of a key no blank is left. -/
theorem dropWhile_isKeyChar {q r : List Char}
    (h : skipWs (q.dropWhile isKeyChar) = '"' :: r) :
    q.dropWhile isKeyChar = '"' :: r := by
  cases hrest : q.dropWhile isKeyChar with
  | nil =>
      rw [hrest] at h
      cases h
  | cons c rest =>
      have hc : isKeyChar c = false := by
        have hhead := List.head?_dropWhile_not isKeyChar q
        rw [hrest] at hhead
        simpa using hhead
      have hws : isWs c = false := by
        unfold isKeyChar at hc
        simp only [decide_eq_false_iff_not, not_and_or, not_not] at hc
        rcases hc with rfl | rfl <;> decide
      rw [hrest, skipWs_cons hws] at h
      exact h

theorem parseKey_ok {p r : List Char} {key : String}
    (h : parseKey p = .ok (key, r)) : Quoted key p r := by
  obtain ⟨q, hopen, h⟩ := except_bind_eq_ok.mp h
  obtain ⟨q', hclose, h⟩ := except_bind_eq_ok.mp h
  cases h
  rw [expect_skipsBlanks '"' p, expect_eq_ok (by decide)] at hopen
  rw [expect_eq_ok (by decide)] at hclose
  have hrest := dropWhile_isKeyChar hclose
  have hws := ws_skipWs p
  rw [hopen] at hws
  unfold Quoted
  rw [String.toList_ofList, ← hrest, List.takeWhile_append_dropWhile]
  exact hws

theorem parseKey_quoted {p r : List Char} {key : String}
    (hkey : ∀ c ∈ key.toList, isKeyChar c = true) (h : Quoted key p r) :
    parseKey p = .ok (key, r) := by
  obtain ⟨lead, hlead, rfl⟩ := h
  rw [parseKey_skipsBlanks.append hlead]
  exact parseKey_cons hkey r

theorem Quoted.peek_skipWs {p q : List Char} {key : String}
    (h : Quoted key p q) : peek (skipWs p) = '"' := by
  rw [h.skipWs_eq, skipWs_cons (by decide), peek_cons]

/-! ## Numerals -/

theorem readNumeral_ws (p : List Char) :
    Ws p ((readNumeral p).1 ++ (readNumeral p).2) := by
  have hsplit (q : List Char) :
      q.takeWhile Char.isDigit ++ q.dropWhile Char.isDigit = q :=
    List.takeWhile_append_dropWhile
  have hws := ws_skipWs p
  unfold readNumeral
  dsimp only
  split_ifs with hminus
  · rw [List.cons_append, hsplit]
    cases hp : skipWs p with
    | nil => rw [hp] at hminus; simp [peek] at hminus
    | cons c q =>
        rw [hp] at hminus hws
        obtain rfl : c = '-' := hminus
        exact hws
  · rwa [hsplit]

theorem isNatNumeral_digits {ds : List Char} (h : isNatNumeral ds = true) :
    ∃ d rest, ds = d :: rest ∧ Digits ds := by
  unfold isNatNumeral at h
  simp only [Bool.and_eq_true, Bool.not_eq_true', List.isEmpty_eq_false_iff]
    at h
  obtain ⟨d, rest, rfl⟩ := List.exists_cons_of_ne_nil h.1.1
  exact ⟨d, rest, rfl, List.all_eq_true.mp h.1.2⟩

theorem takeWhile_digits {ds q : List Char} (hds : Digits ds)
    (hq : Delimited q) :
    (ds ++ q).takeWhile Char.isDigit = ds ∧
      (ds ++ q).dropWhile Char.isDigit = q := by
  have hstop : q.takeWhile Char.isDigit = [] ∧
      q.dropWhile Char.isDigit = q := by
    cases q with
    | nil => exact ⟨rfl, rfl⟩
    | cons c q =>
        have hc : c.isDigit = false := hq
        simp [hc]
  rw [List.takeWhile_append_of_pos hds, List.dropWhile_append_of_pos hds,
    hstop.1, hstop.2, List.append_nil]
  exact ⟨rfl, rfl⟩

/-- A numeral is a minus and digits, or digits. -/
theorem isNumeral_cases {text : List Char} (h : isNumeral text = true) :
    ∃ d ds, Digits (d :: ds) ∧
      (text = '-' :: d :: ds ∧
          numeralValue text = -(Nat.ofDigitChars 10 (d :: ds) 0 : ℤ) ∨
        text = d :: ds ∧
          numeralValue text = (Nat.ofDigitChars 10 (d :: ds) 0 : ℤ)) := by
  unfold isNumeral at h
  split at h
  · rename_i ds
    obtain ⟨d, rest, rfl, hds⟩ := isNatNumeral_digits h
    exact ⟨d, rest, hds, Or.inl ⟨rfl, rfl⟩⟩
  · rename_i hne
    obtain ⟨d, rest, rfl, hds⟩ := isNatNumeral_digits h
    refine ⟨d, rest, hds, Or.inr ⟨rfl, ?_⟩⟩
    unfold numeralValue
    split
    · rename_i ds heq
      exact absurd heq (hne ds)
    · rfl

theorem ne_minus_of_isDigit {d : Char} (hd : d.isDigit = true) : d ≠ '-' := by
  rintro rfl
  simp at hd

theorem readNumeral_numeral {text p q : List Char}
    (htext : isNumeral text = true) (hws : Ws p (text ++ q))
    (hq : Delimited q) : readNumeral p = (text, q) := by
  obtain ⟨d, ds, hds, ⟨rfl, _⟩ | ⟨rfl, _⟩⟩ := isNumeral_cases htext
  · obtain ⟨htake, hdrop⟩ := takeWhile_digits hds hq
    unfold readNumeral
    rw [hws.skipWs_eq, List.cons_append, skipWs_cons (by decide)]
    dsimp only
    rw [peek_cons, if_pos rfl, List.tail_cons, htake, hdrop]
  · obtain ⟨htake, hdrop⟩ := takeWhile_digits hds hq
    have hd : d.isDigit = true := hds d (by simp)
    unfold readNumeral
    rw [hws.skipWs_eq, List.cons_append, skipWs_cons (isWs_of_isDigit hd)]
    dsimp only
    rw [peek_cons, if_neg (ne_minus_of_isDigit hd), ← List.cons_append, htake,
      hdrop]

/-- The parser's value of a numeral is its value as an `int64_t`. -/
theorem parseInt_numeral {text : List Char} (htext : isNumeral text = true) :
    (parseInt text).1 = Int64.ofInt (numeralValue text) := by
  have hnil : Delimited [] := rfl
  have hzero : Int64.ofNat 0 = 0 := rfl
  obtain ⟨d, ds, hds, ⟨rfl, hvalue⟩ | ⟨rfl, hvalue⟩⟩ := isNumeral_cases htext
  · have hdigits := readDigits_append hds hnil 0
    rw [List.append_nil, hzero] at hdigits
    rw [parseInt_minus, hdigits, hvalue, ← Int64.neg_ofInt,
      Int64.ofInt_eq_ofNat]
  · have hdigits := readDigits_append hds hnil 0
    rw [List.append_nil, hzero] at hdigits
    rw [parseInt_digits hds, hdigits, hvalue, Int64.ofInt_eq_ofNat]

theorem Numeral.peek_skipWs {p q : List Char} {i : ℤ} (h : Numeral p i q) :
    peek (skipWs p) ≠ ']' := by
  obtain ⟨text, htext, _, hws⟩ := h
  obtain ⟨d, ds, hds, ⟨rfl, _⟩ | ⟨rfl, _⟩⟩ := isNumeral_cases htext
  · rw [hws.skipWs_eq, List.cons_append, skipWs_cons (by decide), peek_cons]
    decide
  · have hd : d.isDigit = true := hds d (by simp)
    rw [hws.skipWs_eq, List.cons_append, skipWs_cons (isWs_of_isDigit hd),
      peek_cons]
    rintro rfl
    simp at hd

end GraphText
end VecDB
