import VecDB.HttpApi
import Mathlib.Tactic

/-!
# Vectors in request bodies

What a request body binds a key to, read as JSON: the scan keeps count of
brackets and strings, and only a member of the outermost object binds its key.
`parse_float_array` does not scan.  It finds the array of the key's first
occurrence, whatever that is, and leaves out what it cannot convert, so what is
read need not be what the request says.
-/

namespace VecDB
namespace HttpApi

open FloatNumeral

/-! ## The value bound to a key -/

inductive StringPart where
  | outside
  | inside
  | escaped
  deriving DecidableEq, Repr

/-- Where a scan stands; `atKey` says that the last thing it read was the
opening of an object or a comma. -/
structure Scan where
  brackets : List Char
  string : StringPart
  atKey : Bool
  deriving DecidableEq, Repr

namespace Scan

def start : Scan where
  brackets := []
  string := .outside
  atKey := false

def step (scan : Scan) (c : Char) : Scan :=
  match scan.string with
  | .escaped => { scan with string := .inside }
  | .inside =>
      if c = '"' then { scan with string := .outside }
      else if c = '\\' then { scan with string := .escaped }
      else scan
  | .outside =>
      if isBlank c = true then scan
      else if c = '"' then { scan with string := .inside, atKey := false }
      else if c = '\x7b' ∨ c = '[' then
        { scan with brackets := c :: scan.brackets, atKey := c = '\x7b' }
      else if c = '\x7d' ∨ c = ']' then
        { scan with brackets := scan.brackets.tail, atKey := false }
      else { scan with atKey := c = ',' }

/-- The next string is a key of the outermost object. -/
def ExpectsKey (scan : Scan) : Prop :=
  scan.brackets = ['\x7b'] ∧ scan.string = .outside ∧ scan.atKey = true

instance (scan : Scan) : Decidable scan.ExpectsKey :=
  inferInstanceAs (Decidable (_ ∧ _ ∧ _))

end Scan

/-- What follows the key and its colon, at the front of a text. -/
def valueAfter (key : String) (p : List Char) : Option (List Char) :=
  if (quoted key).isPrefixOf p = true then
    match (p.drop (quoted key).length).dropWhile isBlank with
    | ':' :: value => some (value.dropWhile isBlank)
    | _ => none
  else none

/-- The text from the value of the first member with this key on. -/
def boundValue (key : String) : Scan → List Char → Option (List Char)
  | _, [] => none
  | scan, c :: p =>
      if scan.ExpectsKey ∧ (valueAfter key (c :: p)).isSome = true then
        valueAfter key (c :: p)
      else boundValue key (scan.step c) p

/-- The text between the brackets of the array that the key is bound to, if
no array is nested in it. -/
def boundArray (body : List Char) (key : String) : Option (List Char) := do
  match ← boundValue key .start body with
  | '[' :: p => if ']' ∈ p then some (p.takeWhile (· ≠ ']')) else none
  | _ => none

/-- The key is bound to an array of numerals, and they are `vec`. -/
def Binds (convert : List Char → Option UInt32) {dim : UInt32}
    (body : List Char) (key : String) (vec : Vec dim) : Prop :=
  ∃ arr, boundArray body key = some arr ∧
    (arr.splitOn ',').map (exactFloat convert) = vec.words.map some

/-! ## What is read -/

section Reading

variable {convert : List Char → Option UInt32} {dim : UInt32}
  {body arr : List Char} {key : String}

/-- The floats that the tokens of a text begin with. -/
def leadingFloats (convert : List Char → Option UInt32) (arr : List Char) :
    List UInt32 :=
  (arr.splitOn ',').filterMap (stof convert)

/-- The check of the number of floats passes: both are `int`s there. -/
def Admitted (dim : UInt32) (count : ℕ) : Prop :=
  count ≠ 0 ∧ Int32.ofNat count = dim.toInt32

theorem filterMap_getlines :
    (getlines arr).filterMap (stof convert) = leadingFloats convert arr := by
  unfold getlines leadingFloats
  dsimp only
  split_ifs with hlast
  · have hsplit := List.dropLast_append_getLast? _ hlast
    conv_rhs => rw [← hsplit, List.filterMap_append]
    rw [List.filterMap_cons_none rfl, List.filterMap_nil, List.append_nil]
  · rfl

theorem parseFloatArray_eq (convert : List Char → Option UInt32)
    (body : List Char) (key : String) : parseFloatArray convert body key =
      ((arrayText body key).map (leadingFloats convert)).getD [] := by
  unfold parseFloatArray
  cases arrayText body key with
  | none => rfl
  | some arr => exact filterMap_getlines

theorem readVector_eq_ok {vec : Vec dim} :
    readVector convert dim key body = .ok vec ↔
      ∃ arr, arrayText body key = some arr ∧
        Admitted dim (leadingFloats convert arr).length ∧
        vec.words = (leadingFloats convert arr).take dim.toNat := by
  unfold readVector
  rw [parseFloatArray_eq]
  cases harr : arrayText body key with
  | none => simp
  | some arr =>
      simp only [Option.map_some, Option.getD_some, Option.some.injEq,
        exists_eq_left', Admitted, ← List.eq_nil_iff_length_eq_zero, Ne]
      split_ifs with hnone hdim
      · simp [hnone]
      · simp [hnone, hdim, Vec.ext_iff, eq_comm]
      · simp [hdim]

/-- Where every token is a numeral, what is read are these. -/
theorem leadingFloats_of_exact
    (hexact : ∀ token ∈ arr.splitOn ',',
      (exactFloat convert token).isSome = true) :
    (arr.splitOn ',').map (exactFloat convert) =
      (leadingFloats convert arr).map some := by
  unfold leadingFloats
  generalize arr.splitOn ',' = tokens at hexact
  induction tokens with
  | nil => rfl
  | cons token tokens ih =>
      rw [List.forall_mem_cons] at hexact
      obtain ⟨w, hw⟩ := Option.isSome_iff_exists.mp hexact.1
      rw [List.filterMap_cons_some (stof_of_exactFloat hw), List.map_cons,
        List.map_cons, hw, ih hexact.2]

end Reading

/-! ## Bodies of the documented form

Where the key first occurs as a key, and an array is its value, that array is
the one that is found. -/

section FirstKey

variable {body pre p q : List Char} {key : String}

theorem dropWhile_dropWhile_of_imp {α : Type} {f g : α → Bool}
    (himp : ∀ a, f a = true → g a = true) (l : List α) :
    (l.dropWhile f).dropWhile g = l.dropWhile g := by
  induction l with
  | nil => rfl
  | cons a l ih =>
      cases hf : f a with
      | false => rw [List.dropWhile_cons_of_neg (by simp [hf])]
      | true =>
          rw [List.dropWhile_cons_of_pos hf, ih,
            List.dropWhile_cons_of_pos (himp a hf)]

theorem boundValue_of_findText {scan : Scan} {value : List Char}
    (hfirst : findText (quoted key) (pre ++ p) = some p)
    (hscan : (pre.foldl Scan.step scan).ExpectsKey)
    (hvalue : valueAfter key p = some value) :
    boundValue key scan (pre ++ p) = some value := by
  induction pre generalizing scan with
  | nil =>
      cases p with
      | nil => cases hvalue
      | cons c p =>
          rw [List.nil_append, boundValue,
            if_pos ⟨hscan, by rw [hvalue]; rfl⟩, hvalue]
  | cons c pre ih =>
      rw [List.cons_append, findText] at hfirst
      split_ifs at hfirst with hstarts
      · have hlength := congrArg List.length (Option.some.inj hfirst)
        simp at hlength
        omega
      · have hnone : valueAfter key (c :: (pre ++ p)) = none := by
          unfold valueAfter
          rw [if_neg hstarts]
        rw [List.cons_append, boundValue, if_neg (by simp [hnone])]
        exact ih hfirst hscan

theorem findChar_of_valueAfter (hkey : '[' ∉ quoted key)
    (hvalue : valueAfter key p = some ('[' :: q)) :
    findChar '[' p = some q := by
  unfold valueAfter at hvalue
  split_ifs at hvalue with hstarts
  obtain ⟨rest, rfl⟩ := List.isPrefixOf_iff_prefix.mp hstarts
  have hblank : ∀ c, isBlank c = true → decide (c ≠ '[') = true := by
    intro c hc
    apply decide_eq_true
    rintro rfl
    cases hc
  rw [List.drop_left] at hvalue
  have hdrop : rest.dropWhile (· ≠ '[') = '[' :: q := by
    rw [← dropWhile_dropWhile_of_imp hblank]
    split at hvalue
    · next value hcolon =>
        rw [hcolon, List.dropWhile_cons_of_pos (by decide),
          ← dropWhile_dropWhile_of_imp hblank, Option.some.inj hvalue]
        rfl
    · cases hvalue
  unfold findChar
  rw [List.dropWhile_append_of_pos, hdrop]
  intro c hc
  apply decide_eq_true
  rintro rfl
  exact hkey hc

theorem boundArray_eq_arrayText (hkey : '[' ∉ quoted key)
    (hfirst : findText (quoted key) (pre ++ p) = some p)
    (hscan : (pre.foldl Scan.step .start).ExpectsKey)
    (hvalue : valueAfter key p = some ('[' :: q)) :
    boundArray (pre ++ p) key = arrayText (pre ++ p) key := by
  have hbound := boundValue_of_findText hfirst hscan hvalue
  have hfound := findChar_of_valueAfter hkey hvalue
  simp only [boundArray, arrayText, hfirst, hbound, hfound,
    Option.bind_eq_bind, Option.bind_some]

end FirstKey

/-! ## When what is read is what the request says -/

section Law

variable (convert : List Char → Option UInt32) (dim : UInt32)

/-- A vector that is read for the key is what the body binds it to. -/
def PassesOn (body : List Char) (key : String) : Prop :=
  ∀ vec, readVector convert dim key body = .ok vec → Binds convert body key vec

/-- The found array has not `dim` floats to read, or it is the one that the
key is bound to, and has `dim` numerals and nothing else in it. -/
def ExactOrRefused (body : List Char) (key : String) : Prop :=
  ∀ arr, arrayText body key = some arr →
    Admitted dim (leadingFloats convert arr).length →
      boundArray body key = some arr ∧
        (arr.splitOn ',').length = dim.toNat ∧
          ∀ token ∈ arr.splitOn ',', (exactFloat convert token).isSome = true

/-- The found array is another than the one that the key is bound to, and
happens to read like it. -/
def ReadsAlike (body : List Char) (key : String) : Prop :=
  ∃ arr bound, arrayText body key = some arr ∧
    boundArray body key = some bound ∧ bound ≠ arr ∧
      (bound.splitOn ',').map (exactFloat convert) =
        ((leadingFloats convert arr).take dim.toNat).map some

variable {convert dim} {body : List Char} {key : String}

theorem ExactOrRefused.passesOn (h : ExactOrRefused convert dim body key) :
    PassesOn convert dim body key := by
  intro vec hread
  obtain ⟨arr, hfound, hadmitted, hwords⟩ := readVector_eq_ok.mp hread
  obtain ⟨hbound, hlength, hexact⟩ := h arr hfound hadmitted
  have htokens := leadingFloats_of_exact hexact
  have hcount := congrArg List.length htokens
  rw [List.length_map, List.length_map, hlength] at hcount
  unfold Binds
  rw [hwords, hcount, List.take_length]
  exact ⟨arr, hbound, htokens⟩

theorem PassesOn.exactOrRefused (h : PassesOn convert dim body key) :
    ExactOrRefused convert dim body key ∨ ReadsAlike convert dim body key := by
  by_cases halike : ReadsAlike convert dim body key
  · exact Or.inr halike
  left
  intro arr hfound hadmitted
  have hlength := length_take_of_cast hadmitted.2
  obtain ⟨bound, hbound, htokens⟩ :=
    h ⟨_, hlength⟩ (readVector_eq_ok.mpr ⟨arr, hfound, hadmitted, rfl⟩)
  have hsame : bound = arr := by
    by_contra hother
    exact halike ⟨arr, bound, hfound, hbound, hother, htokens⟩
  subst hsame
  refine ⟨hbound, ?_, fun token htoken => ?_⟩
  · have hcount := congrArg List.length htokens
    rwa [List.length_map, List.length_map, hlength] at hcount
  · have hmem := List.mem_map_of_mem (f := exactFloat convert) htoken
    rw [htokens] at hmem
    obtain ⟨w, _, hw⟩ := List.mem_map.mp hmem
    rw [← hw]
    rfl

end Law

/-- The floats of `0` and `1`. -/
def digitFloat (n : List Char) : Option UInt32 :=
  if n = ['0'] then some 0
  else if n = ['1'] then some 0x3F800000
  else none

end HttpApi
end VecDB
