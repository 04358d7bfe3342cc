import VecDB.Checksum
import Mathlib.Data.LawfulXor.Basic
import Mathlib.Tactic

/-!
# What a checksum detects

A step of the checksum moves the register down by a byte and mixes in a table
entry that is known by its top byte.  Read backwards, a register therefore
tells which entries the last four steps looked up, and so a change that fits
four bytes always changes the checksum.
-/

namespace VecDB

/-- A round of `build_crc32_table`, undone. -/
def crc32Unround (c : UInt32) : UInt32 :=
  if c >>> 31 = 1 then ((c ^^^ 0xEDB88320) <<< 1) ||| 1 else c <<< 1

theorem crc32Unround_table : ∀ i < 256,
    crc32Unround^[8] ((crc32Table (UInt32.ofNat i) >>> 24) <<< 24) &&& 0xFF =
      UInt32.ofNat i := by
  decide +kernel

/-- The table entry that a step looks up. -/
def crc32Index (crc : UInt32) (p : UInt8) : UInt32 :=
  (crc ^^^ p.toUInt32) &&& 0xFF

theorem crc32Index_toNat (crc : UInt32) (p : UInt8) :
    (crc32Index crc p).toNat = crc.toNat % 2 ^ 8 ^^^ p.toNat := by
  have hmask : (0xFF : UInt32).toNat = 2 ^ 8 - 1 := rfl
  unfold crc32Index
  rw [UInt32.toNat_and, hmask, Nat.and_two_pow_sub_one_eq_mod,
    UInt32.toNat_xor, UInt8.toNat_toUInt32, Nat.xor_mod_two_pow,
    Nat.mod_eq_of_lt p.toNat_lt]

theorem crc32Index_lt (crc : UInt32) (p : UInt8) :
    (crc32Index crc p).toNat < 256 := by
  rw [crc32Index_toNat]
  exact Nat.xor_lt_two_pow (n := 8) (Nat.mod_lt _ (by norm_num)) p.toNat_lt

theorem crc32Table_top_injective {i j : UInt32} (hi : i.toNat < 256)
    (hj : j.toNat < 256)
    (htop : crc32Table i >>> 24 = crc32Table j >>> 24) : i = j := by
  have hundo := crc32Unround_table i.toNat hi
  rw [UInt32.ofNat_toNat, htop] at hundo
  have hundo' := crc32Unround_table j.toNat hj
  rw [UInt32.ofNat_toNat] at hundo'
  exact hundo.symm.trans hundo'

theorem crc32Step_toNat (crc : UInt32) (p : UInt8) :
    (crc32Step crc p).toNat =
      (crc32Table (crc32Index crc p)).toNat ^^^ crc.toNat >>> 8 := by
  unfold crc32Step crc32Index
  rw [UInt32.toNat_xor, UInt32.toNat_shiftRight]
  rfl

/-- The upper bytes of a register tell the table entry of the last step and
the upper bytes of the register before it. -/
theorem crc32Step_back {crc other : UInt32} {p q : UInt8} {shift : ℕ}
    (hshift : shift ≤ 24)
    (htop : (crc32Step crc p).toNat >>> shift =
      (crc32Step other q).toNat >>> shift) :
    crc32Index crc p = crc32Index other q ∧
      crc.toNat >>> (8 + shift) = other.toNat >>> (8 + shift) := by
  have hzero : ∀ c : UInt32, c.toNat >>> 8 >>> 24 = 0 := by
    intro c
    rw [← Nat.shiftRight_add, Nat.shiftRight_eq_div_pow]
    exact Nat.div_eq_of_lt c.toNat_lt
  rw [crc32Step_toNat, crc32Step_toNat] at htop
  have hindex : crc32Index crc p = crc32Index other q := by
    apply crc32Table_top_injective (crc32Index_lt crc p)
      (crc32Index_lt other q)
    apply UInt32.toNat_inj.mp
    have hbyte := congrArg (· >>> (24 - shift)) htop
    simp only [← Nat.shiftRight_add, Nat.add_sub_cancel' hshift] at hbyte
    rw [Nat.shiftRight_xor_distrib, Nat.shiftRight_xor_distrib, hzero, hzero,
      Nat.xor_zero, Nat.xor_zero] at hbyte
    rw [UInt32.toNat_shiftRight, UInt32.toNat_shiftRight]
    exact hbyte
  refine ⟨hindex, ?_⟩
  rw [hindex, Nat.shiftRight_xor_distrib, Nat.shiftRight_xor_distrib] at htop
  rw [Nat.shiftRight_add, Nat.shiftRight_add]
  exact (xor_right_involutive _).injective htop

theorem crc32Step_injective (p : UInt8) :
    Function.Injective fun crc => crc32Step crc p := by
  intro crc other heq
  obtain ⟨hindex, hhigh⟩ := crc32Step_back (Nat.zero_le 24)
    (congrArg (fun c => c.toNat >>> 0) heq)
  have hlow := congrArg UInt32.toNat hindex
  rw [crc32Index_toNat, crc32Index_toNat] at hlow
  have hmod := (xor_left_involutive p.toNat).injective hlow
  rw [Nat.add_zero, Nat.shiftRight_eq_div_pow, Nat.shiftRight_eq_div_pow]
    at hhigh
  apply UInt32.toNat_inj.mp
  omega

theorem foldl_crc32Step_injective (bytes : List UInt8) :
    Function.Injective fun crc => bytes.foldl crc32Step crc := by
  induction bytes with
  | nil => exact Function.injective_id
  | cons p bytes ih =>
      intro crc other heq
      exact crc32Step_injective p (ih heq)

/-- As many upper bytes of a register as there were steps from a common
register tell what these steps read. -/
theorem foldl_crc32Step_burst {first second : List UInt8} (crc : UInt32)
    (hlength : first.length = second.length) (hburst : first.length ≤ 4)
    (htop : (first.foldl crc32Step crc).toNat >>> (32 - 8 * first.length) =
      (second.foldl crc32Step crc).toNat >>> (32 - 8 * first.length)) :
    first = second := by
  induction first using List.reverseRecOn generalizing second with
  | nil => exact (List.eq_nil_of_length_eq_zero hlength.symm).symm
  | append_singleton first p ih =>
      rw [List.length_append, List.length_singleton] at hlength hburst htop
      obtain ⟨second', q, rfl⟩ : ∃ second' q, second = second' ++ [q] := by
        rcases List.eq_nil_or_concat second with rfl | ⟨second', q, rfl⟩
        · simp at hlength
        · exact ⟨second', q, List.concat_eq_append⟩
      rw [List.length_append, List.length_singleton] at hlength
      rw [List.foldl_append, List.foldl_append] at htop
      obtain ⟨hindex, hback⟩ := crc32Step_back (by omega) htop
      rw [show 8 + (32 - 8 * (first.length + 1)) = 32 - 8 * first.length by
        omega] at hback
      obtain rfl := ih (by omega) (by omega) hback
      have hlow := congrArg UInt32.toNat hindex
      rw [crc32Index_toNat, crc32Index_toNat] at hlow
      rw [UInt8.toNat_inj.mp ((xor_right_involutive _).injective hlow)]

/-- A change that fits four bytes changes the checksum. -/
theorem crc32_ne_of_burst (front : List UInt8) {first second : List UInt8}
    (back : List UInt8) (hlength : first.length = second.length)
    (hburst : first.length ≤ 4) (hne : first ≠ second) :
    crc32 (front ++ first ++ back) ≠ crc32 (front ++ second ++ back) := by
  intro heq
  unfold crc32 at heq
  have hregister := (xor_left_involutive _).injective heq
  rw [List.foldl_append, List.foldl_append, List.foldl_append,
    List.foldl_append] at hregister
  have hsame := foldl_crc32Step_injective back hregister
  exact hne (foldl_crc32Step_burst _ hlength hburst
    (congrArg (fun c => c.toNat >>> _) hsame))

/-- Two byte strings that differ inside a window of four bytes only. -/
theorem crc32_ne_of_window {bytes other : List UInt8} (start : ℕ)
    (hlength : bytes.length = other.length)
    (hout : ∀ i, i < start ∨ start + 4 ≤ i → bytes[i]? = other[i]?)
    (hne : bytes ≠ other) : crc32 bytes ≠ crc32 other := by
  have hfront : other.take start = bytes.take start := by
    apply List.ext_getElem?
    intro i
    rw [List.getElem?_take, List.getElem?_take]
    split_ifs with hi
    · exact (hout i (Or.inl hi)).symm
    · rfl
  have hback : other.drop (start + 4) = bytes.drop (start + 4) := by
    apply List.ext_getElem?
    intro i
    rw [List.getElem?_drop, List.getElem?_drop]
    exact (hout _ (Or.inr (by omega))).symm
  have hsplit : ∀ list : List UInt8, list = list.take start ++
      (list.drop start).take 4 ++ list.drop (start + 4) := by
    intro list
    rw [← List.drop_drop, List.append_assoc, List.take_append_drop,
      List.take_append_drop]
  have hwindow : (bytes.drop start).take 4 ≠ (other.drop start).take 4 := by
    intro heq
    apply hne
    rw [hsplit bytes, hsplit other, hfront, hback, heq]
  rw [hsplit bytes, hsplit other, hfront, hback]
  apply crc32_ne_of_burst
  · simp [hlength]
  · exact List.length_take_le 4 _
  · exact hwindow

end VecDB
