import VecDB.GraphTermination
import Mathlib.Tactic

/-!
# What the graph parser reads

The characters that the parser takes for numerals, keys and commas, before it
makes values of them.  The graph it returns is the value of this reading.
-/

namespace VecDB
namespace GraphText

/-! ## Readings -/

/-- Layers of lists of numerals. -/
abbrev NodeReading := List (List (List Char))

inductive ValueReading where
  | numeral (text : List Char)
  | nodes (adj : List NodeReading)
  | skipped

/-- A member, and whether a comma stood in front of it. -/
structure MemberReading where
  comma : Bool
  key : String
  value : ValueReading

/-- A sign, if there is one, and the digits behind it. -/
def readNumeral (p : List Char) : List Char × List Char :=
  let p := skipWs p
  if peek p = '-' then
    ('-' :: p.tail.takeWhile Char.isDigit, p.tail.dropWhile Char.isDigit)
  else (p.takeWhile Char.isDigit, p.dropWhile Char.isDigit)

def readNumerals :
    List Char → Except Failure (List (List Char) × List Char) :=
  parseArray fun p => .ok (readNumeral p)

def readNode (p : List Char) : Except Failure (NodeReading × List Char) := do
  let p ← expect '\x7b' p
  let (key, p) ← parseKey p
  if key ≠ "l" then
    throw (.runtimeError "Snapshot JSON: expected key 'l'")
  let p ← expect ':' p
  let (layers, p) ← parseArray readNumerals p
  let p ← expect '\x7d' p
  return (layers, p)

def readValue (key : String) (p : List Char) :
    Except Failure (ValueReading × List Char) :=
  match scalarField key with
  | some _ => .ok (.numeral (readNumeral p).1, (readNumeral p).2)
  | none =>
      if key = "adj" then do
        let (adj, p) ← parseArray readNode p
        return (.nodes adj, p)
      else .ok (.skipped, p)

def readMember (comma : Bool) (p : List Char) :
    Except Failure (MemberReading × List Char) := do
  let (key, p) ← parseKey p
  let p ← expect ':' p
  let (value, p) ← readValue key (skipWs p)
  return (⟨comma, key, value⟩, p)

def readMembers : ℕ → List Char →
    Except Failure (List MemberReading × List Char)
  | 0, _ => .error .nonTermination
  | fuel + 1, p => do
      let p := skipWs p
      if peek p = '\x7d' then return ([], p.tail)
      let comma := peek p = ','
      let (member, p) ← readMember comma (if comma then skipWs p.tail else p)
      let (members, p) ← readMembers fuel p
      return (member :: members, p)

def readText (p : List Char) :
    Except Failure (List MemberReading × List Char) := do
  let p ← expect '\x7b' p
  readMembers (p.length + 1) p

/-! ## Their values -/

def u32Value (text : List Char) : UInt32 :=
  (parseInt text).1.toUInt64.toUInt32

def nodeValue (node : NodeReading) : List (List UInt32) :=
  node.map fun layer => layer.map u32Value

def evalMember (g : JsonGraph) (member : MemberReading) : JsonGraph :=
  match member.value with
  | .numeral text =>
      match scalarField member.key with
      | some assign => assign g (parseInt text).1
      | none => g
  | .nodes adj => { g with adj := g.adj ++ adj.map nodeValue }
  | .skipped => g

def evalMembers (g : JsonGraph) (members : List MemberReading) : JsonGraph :=
  members.foldl evalMember g

/-! ## The parser evaluates what it reads -/

/-- The value of a reading, at the same place. -/
def Evaluates {α β : Type} (value : α → β)
    (read : List Char → Except Failure (α × List Char))
    (parse : List Char → Except Failure (β × List Char)) : Prop :=
  ∀ p, parse p = (read p).map fun result => (value result.1, result.2)

theorem readDigits_eq (v : Int64) (p : List Char) :
    readDigits v p = ((readDigits v (p.takeWhile Char.isDigit)).1,
      p.dropWhile Char.isDigit) := by
  induction p generalizing v with
  | nil => rfl
  | cons c p ih =>
      rw [List.takeWhile_cons, List.dropWhile_cons]
      by_cases hc : c.isDigit = true
      · rw [if_pos hc, if_pos hc, readDigits, if_pos hc, ih]
        conv_rhs => rw [readDigits, if_pos hc]
      · have hstop : readDigits v (c :: p) = (v, c :: p) := if_neg hc
        rw [if_neg hc, if_neg hc, hstop]
        rfl

theorem parseInt_minus (ds : List Char) :
    parseInt ('-' :: ds) = (-(readDigits 0 ds).1, (readDigits 0 ds).2) := by
  unfold parseInt
  rw [skipWs_cons (by decide)]
  rfl

/-- Digits and nothing else. -/
def Digits (ds : List Char) : Prop := ∀ c ∈ ds, c.isDigit = true

theorem digits_takeWhile (p : List Char) :
    Digits (p.takeWhile Char.isDigit) :=
  List.all_eq_true.mp List.all_takeWhile

theorem parseInt_digits {ds : List Char} (hds : Digits ds) :
    parseInt ds = readDigits 0 ds := by
  unfold parseInt
  cases ds with
  | nil => rfl
  | cons d ds =>
      have hd : d.isDigit = true := hds d (by simp)
      rw [skipWs_cons (isWs_of_isDigit hd)]
      dsimp only
      rw [peek_cons, if_neg]
      rintro rfl
      simp at hd

theorem parseInt_eq (p : List Char) :
    parseInt p = ((parseInt (readNumeral p).1).1, (readNumeral p).2) := by
  unfold readNumeral
  dsimp only
  split_ifs with hminus
  · rw [parseInt_minus]
    unfold parseInt
    dsimp only
    rw [if_pos hminus, readDigits_eq]
  · rw [parseInt_digits (digits_takeWhile _)]
    unfold parseInt
    dsimp only
    rw [if_neg hminus, readDigits_eq]

theorem parseU32_evaluates :
    Evaluates u32Value (fun p => .ok (readNumeral p)) parseU32 := by
  intro p
  unfold parseU32
  rw [parseInt_eq]
  rfl

section Array

variable {α β : Type} {value : α → β}
  {read : List Char → Except Failure (α × List Char)}
  {parse : List Char → Except Failure (β × List Char)}

theorem parseItems_evaluates (h : Evaluates value read parse) (fuel : ℕ) :
    Evaluates (List.map value) (parseItems read fuel)
      (parseItems parse fuel) := by
  induction fuel with
  | zero => exact fun p => rfl
  | succ fuel ih =>
      intro p
      unfold parseItems
      rw [h p]
      refine except_map_bind fun result _ => ?_
      obtain ⟨x, q⟩ := result
      dsimp only
      split_ifs
      · rfl
      · cases expect ',' (skipWs q) with
        | error e => rfl
        | ok q' =>
            rw [except_bind_ok, except_bind_ok, ih q']
            exact except_map_bind fun _ _ => rfl

theorem parseArray_evaluates (h : Evaluates value read parse) :
    Evaluates (List.map value) (parseArray read) (parseArray parse) := by
  intro p
  unfold parseArray
  cases expect '[' p with
  | error e => rfl
  | ok q =>
      rw [except_bind_ok, except_bind_ok]
      split_ifs
      · rfl
      · exact parseItems_evaluates h _ _

end Array

theorem parseNodeAdj_evaluates :
    Evaluates nodeValue readNode parseNodeAdj := by
  intro p
  have harray := parseArray_evaluates (parseArray_evaluates parseU32_evaluates)
  unfold parseNodeAdj readNode
  cases expect '\x7b' p with
  | error e => rfl
  | ok q₁ =>
      rw [except_bind_ok, except_bind_ok]
      cases parseKey q₁ with
      | error e => rfl
      | ok key =>
          rw [except_bind_ok, except_bind_ok]
          dsimp only
          split_ifs
          · rfl
          · cases expect ':' key.2 with
            | error e => rfl
            | ok q₃ =>
                rw [except_bind_ok, except_bind_ok]
                unfold parseU32Array
                rw [harray q₃]
                refine except_map_bind fun result _ => ?_
                obtain ⟨layers, q₄⟩ := result
                dsimp only
                cases expect '\x7d' q₄ with
                | error e => rfl
                | ok r => rfl

theorem parseValue_evaluates (g : JsonGraph) (comma : Bool) (key : String) :
    Evaluates (fun value => evalMember g ⟨comma, key, value⟩) (readValue key)
      (parseValue g key) := by
  intro p
  unfold parseValue readValue
  cases hfield : scalarField key with
  | some assign =>
      dsimp only
      rw [parseInt_eq]
      simp only [evalMember, hfield, Except.map]
  | none =>
      dsimp only
      split_ifs
      · rw [parseArray_evaluates parseNodeAdj_evaluates p]
        exact except_map_bind fun _ _ => rfl
      · rfl

theorem parseMember_evaluates (g : JsonGraph) (comma : Bool) :
    Evaluates (evalMember g) (readMember comma) (parseMember g) := by
  intro p
  unfold parseMember readMember
  cases parseKey p with
  | error e => rfl
  | ok key =>
      rw [except_bind_ok, except_bind_ok]
      dsimp only
      cases expect ':' key.2 with
      | error e => rfl
      | ok q =>
          rw [except_bind_ok, except_bind_ok,
            parseValue_evaluates g comma key.1]
          cases readValue key.1 (skipWs q) with
          | error e => rfl
          | ok value => rfl

theorem parseMembers_evaluates (fuel : ℕ) (g : JsonGraph) :
    Evaluates (evalMembers g) (readMembers fuel) (parseMembers fuel g) := by
  induction fuel generalizing g with
  | zero => exact fun p => rfl
  | succ fuel ih =>
      intro p
      unfold parseMembers readMembers
      dsimp only
      split_ifs with hclose hcomma
      · rfl
      · rw [parseMember_evaluates g (peek (skipWs p) = ',')]
        simp only [hcomma, decide_true]
        refine except_map_bind fun result _ => ?_
        obtain ⟨member, q⟩ := result
        dsimp only
        rw [ih]
        cases readMembers fuel q with
        | error e => rfl
        | ok rest => rfl
      · rw [parseMember_evaluates g (peek (skipWs p) = ',')]
        simp only [hcomma, decide_false]
        refine except_map_bind fun result _ => ?_
        obtain ⟨member, q⟩ := result
        dsimp only
        rw [ih]
        cases readMembers fuel q with
        | error e => rfl
        | ok rest => rfl

/-- The graph is the value of the reading. -/
theorem parseText_evaluates :
    Evaluates (evalMembers {}) readText parseText := by
  intro p
  unfold parseText readText
  cases expect '\x7b' p with
  | error e => rfl
  | ok q =>
      rw [except_bind_ok, except_bind_ok]
      exact parseMembers_evaluates _ _ q

end GraphText
end VecDB
