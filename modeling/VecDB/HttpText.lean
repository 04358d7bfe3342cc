import VecDB.HttpApi
import Mathlib.Tactic

/-!
# Searching a request

What the searches for a text and for a character find, behind a text that they
cannot find it in, and what `std::stoll` converts.
-/

namespace VecDB
namespace HttpApi

open FloatNumeral

variable {needle pre p q t : List Char} {c d : Char} {key other : String}

/-! ## Texts -/

theorem findText_of_starts (h : needle <+: p) : findText needle p = some p := by
  cases p with
  | nil =>
      rw [findText, if_pos (List.prefix_nil.mp h)]
  | cons c p =>
      rw [findText, if_pos (List.isPrefixOf_iff_prefix.mpr h)]

theorem findText_cons (h : ¬ needle <+: c :: p) :
    findText needle (c :: p) = findText needle p := by
  rw [findText, if_neg (by rwa [List.isPrefixOf_iff_prefix])]

theorem findText_skip
    (h : ∀ s u, pre = s ++ u → u ≠ [] → ¬ needle <+: u ++ p) :
    findText needle (pre ++ p) = findText needle p := by
  induction pre with
  | nil => rfl
  | cons c pre ih =>
      have hfirst : ¬ needle <+: c :: (pre ++ p) :=
        h [] (c :: pre) rfl (List.cons_ne_nil c pre)
      rw [List.cons_append, findText_cons hfirst]
      apply ih
      rintro s u rfl
      exact h (c :: s) u rfl

theorem findText_eq_some (h : findText needle t = some p) :
    ∃ pre, t = pre ++ p ∧ needle <+: p := by
  induction t with
  | nil =>
      rw [findText] at h
      split_ifs at h with hneedle
      cases h
      exact ⟨[], rfl, by rw [hneedle]⟩
  | cons c t ih =>
      rw [findText] at h
      split_ifs at h with hstarts
      · cases h
        exact ⟨[], rfl, List.isPrefixOf_iff_prefix.mp hstarts⟩
      · obtain ⟨pre, rfl, hp⟩ := ih h
        exact ⟨c :: pre, rfl, hp⟩

theorem takeWhile_until (hp : c ∉ p) (q : List Char) :
    (p ++ c :: q).takeWhile (· ≠ c) = p := by
  rw [List.takeWhile_append_of_pos fun d hd => by
    simpa using fun h : d = c => hp (h ▸ hd)]
  simp

/-! ## Quoted keys -/

theorem quoted_append (key : String) (p : List Char) :
    quoted key ++ p = '"' :: (key.toList ++ '"' :: p) := by
  simp [quoted]

theorem findText_skip_unquoted (hpre : '"' ∉ pre) :
    findText (quoted key) (pre ++ p) = findText (quoted key) p := by
  apply findText_skip
  rintro s u rfl hu ⟨r, hr⟩
  obtain ⟨c, u, rfl⟩ := List.exists_cons_of_ne_nil hu
  rw [quoted_append, List.cons_append] at hr
  obtain ⟨rfl, -⟩ := List.cons.inj hr
  exact hpre (List.mem_append_right s List.mem_cons_self)

/-- Where a quoted text begins, another key does not. -/
theorem not_starts_quoted (hkey : '"' ∉ key.toList)
    (hother : '"' ∉ other.toList) (hne : key ≠ other) :
    ¬ quoted key <+: quoted other ++ p := by
  rintro ⟨r, hr⟩
  rw [quoted_append, quoted_append, List.cons.injEq] at hr
  have htake := congrArg (List.takeWhile (· ≠ '"')) hr.2
  rw [takeWhile_until hkey, takeWhile_until hother] at htake
  exact hne (String.toList_injective htake)

/-- The quotation mark that ends a text does not begin a key. -/
theorem not_starts_quote (hp : ∀ c ∈ p.head?, c ∉ quoted key) :
    ¬ quoted key <+: '"' :: p := by
  rintro ⟨r, hr⟩
  rw [quoted_append, List.cons.injEq] at hr
  obtain ⟨-, rfl⟩ := hr
  unfold quoted at hp
  cases hkey : key.toList with
  | nil => simp [hkey] at hp
  | cons c word => simp [hkey] at hp

theorem findText_skip_quoted (hkey : '"' ∉ key.toList)
    (hother : '"' ∉ other.toList) (hne : key ≠ other)
    (hp : ∀ c ∈ p.head?, c ∉ quoted key) :
    findText (quoted key) (quoted other ++ p) = findText (quoted key) p := by
  have hfirst := not_starts_quoted (p := p) hkey hother hne
  rw [quoted_append] at hfirst ⊢
  rw [findText_cons hfirst, findText_skip_unquoted hother,
    findText_cons (not_starts_quote hp)]

/-! ## Characters -/

theorem findChar_skip (hpre : c ∉ pre) : findChar c (pre ++ c :: p) = some p := by
  unfold findChar
  rw [List.dropWhile_append_of_pos fun d hd => by
    simpa using fun h : d = c => hpre (h ▸ hd),
    List.dropWhile_cons_of_neg (by simp)]

theorem arrayText_of_find
    (hfind : findText (quoted key) t = some (pre ++ '[' :: (p ++ ']' :: q)))
    (hpre : '[' ∉ pre) (hp : ']' ∉ p) : arrayText t key = some p := by
  have hclose : ']' ∈ p ++ ']' :: q := by simp
  simp only [arrayText, hfind, findChar_skip hpre, Option.bind_eq_bind,
    Option.bind_some, if_pos hclose, takeWhile_until hp]

/-! ## Numerals -/

/-- A decimal numeral. -/
structure Numeral (digits : List Char) (n : ℕ) : Prop where
  ne_nil : digits ≠ []
  isDigit : ∀ c ∈ digits, c.isDigit = true
  value : Nat.ofDigitChars 10 digits 0 = n

theorem numeral_of_all {digits : List Char} {n : ℕ} (hne : digits ≠ [])
    (hdigits : digits.all Char.isDigit = true)
    (hvalue : Nat.ofDigitChars 10 digits 0 = n) : Numeral digits n :=
  ⟨hne, List.all_eq_true.mp hdigits, hvalue⟩

/-- No digit follows. -/
def Ends (p : List Char) : Prop := ∀ c ∈ p.head?, c.isDigit = false

theorem takeWhile_digits {digits : List Char}
    (hdigits : ∀ c ∈ digits, c.isDigit = true) (hp : Ends p) :
    (digits ++ p).takeWhile Char.isDigit = digits := by
  rw [List.takeWhile_append_of_pos hdigits]
  cases p with
  | nil => simp
  | cons c p =>
      rw [List.takeWhile_cons_of_neg (by simpa using hp c rfl),
        List.append_nil]

theorem Numeral.stollDigits {digits : List Char} {n : ℕ}
    (h : Numeral digits n) (hp : Ends p) :
    stollDigits (digits ++ p) = some n := by
  have hfold : digits.foldl
      (fun n c => n * 10 + (c.toNat - '0'.toNat)) 0 = n := by
    rw [← h.value, Nat.ofDigitChars_eq_foldl]
    congr 1
    funext n c
    rw [Nat.mul_comm]
  unfold HttpApi.stollDigits
  rw [takeWhile_digits h.isDigit hp]
  dsimp only
  rw [if_neg h.ne_nil, hfold]

theorem Numeral.dropSign {digits : List Char} {n : ℕ}
    (h : Numeral digits n) : dropSign (digits ++ p) = digits ++ p := by
  obtain ⟨c, digits, rfl⟩ := List.exists_cons_of_ne_nil h.ne_nil
  have hc := h.isDigit c List.mem_cons_self
  unfold FloatNumeral.dropSign
  split
  · next heq =>
      cases heq
      cases hc
  · next heq =>
      cases heq
      cases hc
  · rfl

theorem Numeral.dropWhile_isBlank {digits : List Char} {n : ℕ}
    (h : Numeral digits n) :
    (digits ++ p).dropWhile isBlank = digits ++ p := by
  obtain ⟨c, digits, rfl⟩ := List.exists_cons_of_ne_nil h.ne_nil
  rw [List.cons_append, List.dropWhile_cons_of_neg]
  simpa using not_isBlank_of_isDigit (h.isDigit c List.mem_cons_self)

theorem Numeral.unsigned {digits : List Char} {n : ℕ} (h : Numeral digits n) :
    (digits ++ p).head? ≠ some '-' := by
  obtain ⟨c, digits, rfl⟩ := List.exists_cons_of_ne_nil h.ne_nil
  rw [List.cons_append, List.head?_cons]
  rintro heq
  cases heq
  cases h.isDigit '-' List.mem_cons_self

theorem Numeral.stoll {blanks digits : List Char} {n : ℕ}
    (h : Numeral digits n) (hblanks : ∀ c ∈ blanks, isBlank c = true)
    (hp : Ends p) : stoll (blanks ++ (digits ++ p)) =
      if n < 2 ^ 63 then some (Int64.ofNat n) else none := by
  have hdrop : (blanks ++ (digits ++ p)).dropWhile isBlank = digits ++ p := by
    rw [List.dropWhile_append_of_pos hblanks, h.dropWhile_isBlank]
  unfold HttpApi.stoll
  dsimp only
  rw [hdrop, h.dropSign, h.stollDigits hp, Option.bind_eq_bind,
    Option.bind_some, if_neg h.unsigned]
  split_ifs with hrange hlt hlt
  · rfl
  · omega
  · omega
  · rfl

end HttpApi
end VecDB
