import Mathlib.Data.List.DropRight
import Mathlib.Data.List.TakeWhile
import Mathlib.Tactic

/-!
# Reading floats from text

`std::stof` skips blanks, takes the longest prefix of the rest that is a
numeral of the C locale, and converts it.  The conversion itself, which rounds
and may be out of range, is a parameter.
-/

namespace FloatNumeral

/-! ## Numerals -/

/-- `isspace` in the C locale. -/
def isBlank (c : Char) : Bool :=
  c ∈ [' ', '\t', '\n', '\x0b', '\x0c', '\r']

def dropSign : List Char → List Char
  | '+' :: t => t
  | '-' :: t => t
  | t => t

def isHexDigit (c : Char) : Bool := c.isDigit || c.toLower ∈ "abcdef".toList

def isExponent (mark : Char) : List Char → Bool
  | [] => true
  | c :: t => c.toLower = mark && !(dropSign t).isEmpty &&
      (dropSign t).all Char.isDigit

/-- Digits with at most one point between them, and an exponent. -/
def isMagnitude (digit : Char → Bool) (mark : Char) (t : List Char) : Bool :=
  let mantissa := t.takeWhile fun c => digit c || c = '.'
  mantissa.any digit && mantissa.count '.' ≤ 1 &&
    isExponent mark (t.dropWhile fun c => digit c || c = '.')

def isHex : List Char → Bool
  | '0' :: x :: t => x.toLower = 'x' && isMagnitude isHexDigit 'p' t
  | _ => false

def isWord (word : String) (t : List Char) : Bool :=
  t.map Char.toLower = word.toList

def isNanTail (t : List Char) : Bool :=
  t = [] || t.head? = some '(' && t.getLast? = some ')' &&
    t.tail.dropLast.all fun c => c.isAlphanum || c = '_'

def isNan (t : List Char) : Bool :=
  isWord "nan" (t.take 3) && isNanTail (t.drop 3)

def isNumeral (t : List Char) : Bool :=
  isMagnitude Char.isDigit 'e' (dropSign t) || isHex (dropSign t) ||
    isWord "inf" (dropSign t) || isWord "infinity" (dropSign t) ||
    isNan (dropSign t)

/-! ## No numeral contains a blank -/

def BlankFree (t : List Char) : Prop := ∀ c ∈ t, isBlank c = false

instance (t : List Char) : Decidable (BlankFree t) :=
  List.decidableBAll (fun c => isBlank c = false) t

theorem blankFree_of_all {p : Char → Bool} {t : List Char}
    (hp : ∀ c, p c = true → isBlank c = false) (ht : t.all p = true) :
    BlankFree t :=
  fun c hc => hp c (List.all_eq_true.mp ht c hc)

theorem not_isBlank_of_mem {c : Char}
    (hblank : c ∈ [' ', '\t', '\n', '\x0b', '\x0c', '\r'] → False) :
    isBlank c = false := by
  unfold isBlank
  exact decide_eq_false hblank

theorem not_isBlank_of_toLower {c d : Char} (hlower : c.toLower = d)
    (hd : isBlank d = false) : isBlank c = false := by
  apply not_isBlank_of_mem
  intro hc
  have hsame : c.toLower = c := by
    simp only [List.mem_cons, List.not_mem_nil, or_false] at hc
    rcases hc with rfl | rfl | rfl | rfl | rfl | rfl <;> rfl
  rw [← hlower, hsame] at hd
  exact of_decide_eq_false hd hc

theorem not_isBlank_of_isAlphanum {c : Char} (halnum : c.isAlphanum = true) :
    isBlank c = false := by
  apply not_isBlank_of_mem
  intro hc
  simp only [List.mem_cons, List.not_mem_nil, or_false] at hc
  rcases hc with rfl | rfl | rfl | rfl | rfl | rfl <;> cases halnum

theorem not_isBlank_of_isDigit {c : Char} (hdigit : c.isDigit = true) :
    isBlank c = false :=
  not_isBlank_of_isAlphanum (by simp [Char.isAlphanum, hdigit])

theorem not_isBlank_of_isHexDigit {c : Char} (hdigit : isHexDigit c = true) :
    isBlank c = false := by
  rcases Bool.or_eq_true_iff.mp hdigit with hdecimal | hletter
  · exact not_isBlank_of_isDigit hdecimal
  · have hmem := of_decide_eq_true hletter
    have hblank : BlankFree "abcdef".toList := by decide
    exact not_isBlank_of_toLower rfl (hblank c.toLower hmem)

theorem BlankFree.of_dropSign {t : List Char} (ht : BlankFree (dropSign t)) :
    BlankFree t := by
  unfold dropSign at ht
  split at ht
  · exact List.forall_mem_cons.mpr ⟨rfl, ht⟩
  · exact List.forall_mem_cons.mpr ⟨rfl, ht⟩
  · exact ht

theorem blankFree_isExponent {mark : Char} {t : List Char}
    (hmark : isBlank mark = false) (ht : isExponent mark t = true) :
    BlankFree t := by
  cases t with
  | nil => exact List.forall_mem_nil _
  | cons c t =>
      simp only [isExponent, Bool.and_eq_true, decide_eq_true_eq] at ht
      obtain ⟨⟨hc, _⟩, hdigits⟩ := ht
      have hrest : BlankFree (dropSign t) :=
        blankFree_of_all (fun _ => not_isBlank_of_isDigit) hdigits
      exact List.forall_mem_cons.mpr
        ⟨not_isBlank_of_toLower hc hmark, hrest.of_dropSign⟩

theorem blankFree_isMagnitude {digit : Char → Bool} {mark : Char}
    {t : List Char} (hdigit : ∀ c, digit c = true → isBlank c = false)
    (hmark : isBlank mark = false) (ht : isMagnitude digit mark t = true) :
    BlankFree t := by
  simp only [isMagnitude, Bool.and_eq_true] at ht
  obtain ⟨_, hexponent⟩ := ht
  have hmantissa : BlankFree (t.takeWhile fun c => digit c || c = '.') := by
    intro c hc
    have hkind := List.mem_takeWhile_imp hc
    rcases Bool.or_eq_true_iff.mp hkind with hd | hpoint
    · exact hdigit c hd
    · cases of_decide_eq_true hpoint
      rfl
  intro c hc
  rw [← List.takeWhile_append_dropWhile
    (p := fun c => digit c || c = '.') (l := t), List.mem_append] at hc
  exact hc.elim (hmantissa c) (blankFree_isExponent hmark hexponent c)

theorem blankFree_isHex {t : List Char} (ht : isHex t = true) :
    BlankFree t := by
  unfold isHex at ht
  split at ht
  · rename_i x t
    rw [Bool.and_eq_true, decide_eq_true_eq] at ht
    refine List.forall_mem_cons.mpr ⟨rfl, List.forall_mem_cons.mpr ⟨?_, ?_⟩⟩
    · exact not_isBlank_of_toLower ht.1 rfl
    · exact blankFree_isMagnitude (fun _ => not_isBlank_of_isHexDigit) rfl ht.2
  · cases ht

theorem blankFree_isWord {word : String} {t : List Char}
    (hword : BlankFree word.toList) (ht : isWord word t = true) :
    BlankFree t := by
  have hmap : t.map Char.toLower = word.toList := of_decide_eq_true ht
  intro c hc
  refine not_isBlank_of_toLower rfl (hword c.toLower ?_)
  rw [← hmap]
  exact List.mem_map_of_mem hc

theorem blankFree_isNanTail {t : List Char} (ht : isNanTail t = true) :
    BlankFree t := by
  simp only [isNanTail, Bool.or_eq_true, decide_eq_true_eq,
    Bool.and_eq_true] at ht
  rcases ht with rfl | ⟨⟨hopen, hclose⟩, hinner⟩
  · exact List.forall_mem_nil _
  · obtain ⟨t, rfl⟩ := List.head?_eq_some_iff.mp hopen
    refine List.forall_mem_cons.mpr ⟨rfl, fun c hc => ?_⟩
    have hlast : t.dropLast ++ [')'] = t := by
      have ht : t ≠ [] := List.ne_nil_of_mem hc
      rw [List.getLast?_cons_of_ne_nil ht] at hclose
      exact List.dropLast_append_getLast? _ hclose
    rw [← hlast, List.mem_append, List.mem_singleton] at hc
    rcases hc with hc | rfl
    · rcases Bool.or_eq_true_iff.mp (List.all_eq_true.mp hinner c hc)
        with halnum | hbar
      · exact not_isBlank_of_isAlphanum halnum
      · cases of_decide_eq_true hbar
        rfl
    · rfl

theorem blankFree_isNan {t : List Char} (ht : isNan t = true) :
    BlankFree t := by
  obtain ⟨hword, htail⟩ := Bool.and_eq_true_iff.mp ht
  intro c hc
  rw [← List.take_append_drop 3 t, List.mem_append] at hc
  exact hc.elim (blankFree_isWord (by decide) hword c)
    (blankFree_isNanTail htail c)

theorem blankFree_isNumeral {t : List Char} (ht : isNumeral t = true) :
    BlankFree t := by
  simp only [isNumeral, Bool.or_eq_true] at ht
  apply BlankFree.of_dropSign
  rcases ht with (((hdecimal | hhex) | hinf) | hinfinity) | hnan
  · exact blankFree_isMagnitude (fun _ => not_isBlank_of_isDigit) rfl hdecimal
  · exact blankFree_isHex hhex
  · exact blankFree_isWord (by decide) hinf
  · exact blankFree_isWord (by decide) hinfinity
  · exact blankFree_isNan hnan

/-! ## The longest numeral -/

/-- The longest prefix of at most `k` characters that is a numeral. -/
def numeralUpTo (t : List Char) : ℕ → Option (List Char)
  | 0 => none
  | k + 1 =>
      if isNumeral (t.take (k + 1)) = true then some (t.take (k + 1))
      else numeralUpTo t k

def longestNumeral (t : List Char) : Option (List Char) :=
  numeralUpTo t t.length

theorem numeralUpTo_eq_some {t n : List Char} {k : ℕ}
    (hn : numeralUpTo t k = some n) :
    n <+: t ∧ isNumeral n = true ∧
      ∀ i ≤ k, isNumeral (t.take i) = true → i ≤ n.length ∨ t.length < i := by
  induction k with
  | zero => cases hn
  | succ k ih =>
      rw [numeralUpTo] at hn
      split_ifs at hn with hnumeral
      · cases hn
        refine ⟨List.take_prefix _ _, hnumeral, fun i hi _ => ?_⟩
        rw [List.length_take]
        omega
      · obtain ⟨hstarts, hn, hlongest⟩ := ih hn
        refine ⟨hstarts, hn, fun i hi hi' => ?_⟩
        rcases hi.lt_or_eq with hlt | rfl
        · exact hlongest i (by omega) hi'
        · exact absurd hi' hnumeral

theorem longestNumeral_eq_some {t n : List Char}
    (hn : longestNumeral t = some n) :
    n <+: t ∧ isNumeral n = true ∧
      ∀ m, m <+: t → isNumeral m = true → m.length ≤ n.length := by
  obtain ⟨hstarts, hnumeral, hlongest⟩ := numeralUpTo_eq_some hn
  refine ⟨hstarts, hnumeral, fun m hm hm' => ?_⟩
  have hle := hm.length_le
  rw [List.prefix_iff_eq_take.mp hm] at hm'
  have := hlongest m.length hle hm'
  omega

theorem numeralUpTo_ne_none {t : List Char} {k i : ℕ} (hi : i ≤ k)
    (hpos : 0 < i) (hn : isNumeral (t.take i) = true) :
    numeralUpTo t k ≠ none := by
  induction k with
  | zero => omega
  | succ k ih =>
      rw [numeralUpTo]
      split_ifs with hnumeral
      · exact Option.some_ne_none _
      · rcases hi.lt_or_eq with hlt | rfl
        · exact ih (by omega)
        · exact absurd hn hnumeral

/-- Blanks behind a numeral do not change it. -/
theorem longestNumeral_append {n b : List Char} (hn : isNumeral n = true)
    (hb : ∀ c ∈ b, isBlank c = true) : longestNumeral (n ++ b) = some n := by
  have hpos : 0 < n.length := by
    apply List.length_pos_iff.mpr
    rintro rfl
    cases hn
  cases hlongest : longestNumeral (n ++ b) with
  | none =>
      have hle := (List.prefix_append n b).length_le
      have htake : isNumeral ((n ++ b).take n.length) = true := by
        rwa [List.take_left]
      exact absurd hlongest (numeralUpTo_ne_none hle hpos htake)
  | some m =>
      obtain ⟨hstarts, hnumeral, hmax⟩ := longestNumeral_eq_some hlongest
      have hle := hmax n (List.prefix_append n b) hn
      obtain ⟨r, rfl⟩ :=
        List.prefix_of_prefix_length_le (List.prefix_append n b) hstarts hle
      have hr : r <+: b := (List.prefix_append_right_inj n).mp hstarts
      cases r with
      | nil => rw [List.append_nil]
      | cons c r =>
          -- A longer numeral would contain the first of the blanks.
          have hblank := hb c (hr.subset (List.mem_cons_self ..))
          have hfree := blankFree_isNumeral hnumeral c
            (List.mem_append_right n (List.mem_cons_self ..))
          rw [hblank] at hfree
          cases hfree

/-! ## The conversion -/

section Stof

variable {W : Type} (convert : List Char → Option W)

/-- `std::stof`; `convert` gives the float of a numeral, and none to one that
is out of range. -/
def stof (t : List Char) : Option W :=
  (longestNumeral (t.dropWhile isBlank)).bind convert

def trim (t : List Char) : List Char :=
  (t.dropWhile isBlank).rdropWhile isBlank

/-- The float of a text that is a numeral but for the blanks around it. -/
def exactFloat (t : List Char) : Option W :=
  if isNumeral (trim t) = true then convert (trim t) else none

variable {convert}

theorem stof_of_exactFloat {t : List Char} {w : W}
    (hexact : exactFloat convert t = some w) : stof convert t = some w := by
  unfold exactFloat at hexact
  split_ifs at hexact with hnumeral
  have hblank : ∀ c ∈ (t.dropWhile isBlank).rtakeWhile isBlank,
      isBlank c = true := fun c hc => List.mem_rtakeWhile_imp hc
  have hlongest := longestNumeral_append hnumeral hblank
  rw [trim, List.rdropWhile_append_rtakeWhile] at hlongest
  unfold stof
  rw [hlongest]
  exact hexact

end Stof

end FloatNumeral
