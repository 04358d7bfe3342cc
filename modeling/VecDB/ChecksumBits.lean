import VecDB.ChecksumBursts
import Mathlib.Tactic

/-!
# The checksum bit by bit

The reflected CRC-32 takes a message one bit at a time, the lowest bit of a
byte first.  A round of the register is linear, so eight rounds are those of
its low byte, which the table holds, and the rest of it moved down.
-/

namespace VecDB

/-! ## The reflected CRC-32 -/

/-- A bit enters the register: the bit that leaves it, with the new one, says
whether the polynomial is added. -/
def crcBit (crc : UInt32) (bit : Bool) : UInt32 :=
  if (crc &&& 1 = 1) ≠ (bit = true) then (0xEDB88320 : UInt32) ^^^ (crc >>> 1)
  else crc >>> 1

/-- The bits of a byte in the order they enter. -/
def byteBits (p : UInt8) : List Bool :=
  (List.range 8).map p.toNat.testBit

/-- CRC-32 with polynomial `0xEDB88320`, initial value and final exclusive or
`0xFFFFFFFF`. -/
def bitwiseCrc32 (data : List UInt8) : UInt32 :=
  (data.flatMap byteBits).foldl crcBit 0xFFFFFFFF ^^^ 0xFFFFFFFF

/-! ## Rounds are linear -/

theorem low_bit_cases (c : UInt32) : c &&& 1 = 0 ∨ c &&& 1 = 1 := by
  have hlow : (c &&& 1).toNat = c.toNat % 2 := by
    rw [UInt32.toNat_and]
    exact Nat.and_one_is_mod c.toNat
  rcases Nat.mod_two_eq_zero_or_one c.toNat with hmod | hmod
  · exact Or.inl (UInt32.toNat_inj.mp (hlow.trans hmod))
  · exact Or.inr (UInt32.toNat_inj.mp (hlow.trans hmod))

theorem crc32Round_eq (c : UInt32) :
    crc32Round c =
      (if c &&& 1 = 1 then (0xEDB88320 : UInt32) else 0) ^^^ (c >>> 1) := by
  unfold crc32Round
  split_ifs
  · rfl
  · rw [UInt32.zero_xor]

theorem crc32Round_xor (c d : UInt32) :
    crc32Round (c ^^^ d) = crc32Round c ^^^ crc32Round d := by
  have hlow : (c ^^^ d) &&& 1 = (c &&& 1) ^^^ (d &&& 1) := by
    apply UInt32.toBitVec_inj.mp
    apply BitVec.eq_of_getElem_eq
    simp [Bool.and_xor_distrib_right]
  have hmask : (if (c ^^^ d) &&& 1 = 1 then (0xEDB88320 : UInt32) else 0) =
      (if c &&& 1 = 1 then (0xEDB88320 : UInt32) else 0) ^^^
        (if d &&& 1 = 1 then (0xEDB88320 : UInt32) else 0) := by
    rw [hlow]
    rcases low_bit_cases c with hc | hc <;>
      rcases low_bit_cases d with hd | hd <;> rw [hc, hd] <;> decide
  rw [crc32Round_eq, crc32Round_eq, crc32Round_eq, hmask,
    UInt32.shiftRight_xor]
  ac_rfl

theorem crc32Round_iterate_xor (n : ℕ) (c d : UInt32) :
    crc32Round^[n] (c ^^^ d) = crc32Round^[n] c ^^^ crc32Round^[n] d := by
  induction n generalizing c d with
  | zero => rfl
  | succ n ih =>
      rw [Function.iterate_succ_apply, crc32Round_xor, ih]
      rfl

/-- A register whose low bits are clear only moves down. -/
theorem crc32Round_iterate_high {n : ℕ} {c : UInt32}
    (hc : 2 ^ n ∣ c.toNat) :
    (crc32Round^[n] c).toNat = c.toNat / 2 ^ n := by
  induction n generalizing c with
  | zero => rw [Nat.pow_zero, Nat.div_one]; rfl
  | succ n ih =>
      have hround : (crc32Round c).toNat = c.toNat / 2 := by
        have heven : c.toNat % 2 = 0 := by
          rw [Nat.pow_succ] at hc
          exact Nat.mod_eq_zero_of_dvd (dvd_of_mul_left_dvd hc)
        have hlow : c &&& 1 = 0 := by
          apply UInt32.toNat_inj.mp
          rw [UInt32.toNat_and]
          exact (Nat.and_one_is_mod c.toNat).trans heven
        unfold crc32Round
        rw [hlow, if_neg (by decide), UInt32.toNat_shiftRight]
        exact Nat.shiftRight_eq_div_pow c.toNat 1
      rw [Function.iterate_succ_apply, ih, hround, Nat.div_div_eq_div_mul,
        ← Nat.pow_succ']
      rw [hround]
      exact (Nat.dvd_div_iff_mul_dvd (dvd_of_mul_left_dvd hc)).mpr
        (by rwa [← Nat.pow_succ'])

/-- Eight rounds of a register: those of its low byte, and the rest of it moved
down. -/
theorem crc32Round_iterate_eight (c : UInt32) :
    crc32Round^[8] c = crc32Table (c &&& 0xFF) ^^^ (c >>> 8) := by
  have hlow : (c &&& 0xFF : UInt32).toNat = c.toNat % 2 ^ 8 := by
    rw [UInt32.toNat_and]
    exact Nat.and_two_pow_sub_one_eq_mod c.toNat 8
  have hhigh : ((c >>> 8) <<< 8 : UInt32).toNat = c.toNat / 2 ^ 8 * 2 ^ 8 := by
    rw [UInt32.toNat_shiftLeft, UInt32.toNat_shiftRight]
    have hlt := c.toNat_lt
    change (c.toNat >>> 8) <<< 8 % 2 ^ 32 = _
    rw [Nat.shiftRight_eq_div_pow, Nat.shiftLeft_eq]
    omega
  have hsplit : c = (c &&& 0xFF : UInt32) ^^^ ((c >>> 8) <<< 8) := by
    apply UInt32.toNat_inj.mp
    rw [UInt32.toNat_xor, hlow, hhigh, ← Nat.div_add_mod (_ ^^^ _) (2 ^ 8),
      Nat.xor_div_two_pow, Nat.xor_mod_two_pow, Nat.mul_mod_left, Nat.mod_mod,
      Nat.xor_zero, Nat.mul_div_cancel _ (by norm_num),
      Nat.div_eq_of_lt (Nat.mod_lt _ (by norm_num)), Nat.zero_xor]
    exact (Nat.div_add_mod c.toNat (2 ^ 8)).symm
  have hmoved : crc32Round^[8] ((c >>> 8) <<< 8) = c >>> 8 := by
    apply UInt32.toNat_inj.mp
    rw [crc32Round_iterate_high (hhigh ▸ Nat.dvd_mul_left _ _), hhigh,
      Nat.mul_div_cancel _ (by norm_num), UInt32.toNat_shiftRight]
    exact (Nat.shiftRight_eq_div_pow c.toNat 8).symm
  conv_lhs => rw [hsplit]
  rw [crc32Round_iterate_xor, hmoved]
  rfl

/-! ## A byte -/

theorem crcBit_eq (c : UInt32) (bit : Bool) :
    crcBit c bit = crc32Round (c ^^^ if bit = true then 1 else 0) := by
  have hone : (c ^^^ 1) >>> 1 = c >>> 1 := by
    rw [UInt32.shiftRight_xor]
    exact UInt32.xor_zero
  have hlow : (c ^^^ 1) &&& 1 = (c &&& 1) ^^^ 1 := by
    apply UInt32.toBitVec_inj.mp
    apply BitVec.eq_of_getElem_eq
    simp [Bool.and_xor_distrib_right]
  unfold crcBit crc32Round
  cases bit with
  | false =>
      rw [if_neg Bool.false_ne_true, UInt32.xor_zero]
      simp only [Bool.false_eq_true, ne_eq, eq_iff_iff, iff_false, not_not]
  | true =>
      rw [if_pos rfl, hone, hlow]
      rcases low_bit_cases c with hc | hc
      · rw [hc]
        rfl
      · rw [hc]
        rfl

/-- The register before the bits enters by itself. -/
theorem foldl_crcBit_xor (bits : List Bool) (c d : UInt32) :
    bits.foldl crcBit (c ^^^ d) =
      bits.foldl crcBit c ^^^ crc32Round^[bits.length] d := by
  induction bits generalizing c d with
  | nil => rfl
  | cons bit bits ih =>
      have hbit : crcBit (c ^^^ d) bit = crcBit c bit ^^^ crc32Round d := by
        rw [crcBit_eq, crcBit_eq, ← crc32Round_xor]
        congr 1
        ac_rfl
      rw [List.foldl_cons, List.foldl_cons, hbit, ih]
      rfl

theorem foldl_byteBits_zero : ∀ i < 256,
    (byteBits (UInt8.ofNat i)).foldl crcBit 0 =
      crc32Table (UInt8.ofNat i).toUInt32 := by
  decide +kernel

/-- The eight bits of a byte are one step of `crc32`. -/
theorem foldl_byteBits (c : UInt32) (p : UInt8) :
    (byteBits p).foldl crcBit c = crc32Step c p := by
  have hzero : (byteBits p).foldl crcBit 0 = crc32Table p.toUInt32 := by
    have htable := foldl_byteBits_zero p.toNat p.toNat_lt
    rwa [UInt8.ofNat_toNat] at htable
  have hindex : (c ^^^ p.toUInt32) &&& 0xFF = (c &&& 0xFF) ^^^ p.toUInt32 := by
    apply UInt32.toNat_inj.mp
    have hlow : (c &&& 0xFF : UInt32).toNat = c.toNat % 2 ^ 8 := by
      rw [UInt32.toNat_and]
      exact Nat.and_two_pow_sub_one_eq_mod c.toNat 8
    rw [UInt32.toNat_xor, hlow, UInt8.toNat_toUInt32]
    exact crc32Index_toNat c p
  calc (byteBits p).foldl crcBit c
      = (byteBits p).foldl crcBit (0 ^^^ c) := by rw [UInt32.zero_xor]
    _ = crc32Table p.toUInt32 ^^^ crc32Round^[8] c := by
        rw [foldl_crcBit_xor, hzero]
        rfl
    _ = crc32Table p.toUInt32 ^^^
          (crc32Table (c &&& 0xFF) ^^^ (c >>> 8)) := by
        rw [crc32Round_iterate_eight]
    _ = crc32Table ((c &&& 0xFF) ^^^ p.toUInt32) ^^^ (c >>> 8) := by
        unfold crc32Table
        rw [crc32Round_iterate_xor]
        ac_rfl
    _ = crc32Step c p := by
        rw [← hindex]
        rfl

theorem crc32_eq_bitwiseCrc32 (data : List UInt8) :
    crc32 data = bitwiseCrc32 data := by
  have hregister : ∀ c, data.foldl crc32Step c =
      (data.flatMap byteBits).foldl crcBit c := by
    intro c
    induction data generalizing c with
    | nil => rfl
    | cons p data ih =>
        rw [List.foldl_cons, List.flatMap_cons, List.foldl_append,
          foldl_byteBits, ih]
  unfold crc32 bitwiseCrc32
  rw [hregister]

/-- Both checksums are the reflected CRC-32, and a change within four
consecutive bytes changes them. -/
theorem crc32_reflected_detects :
    (∀ data, crc32 data = bitwiseCrc32 data ∧
      crc32Buf data = bitwiseCrc32 data) ∧
    ∀ (bytes other : List UInt8) (start : ℕ), bytes.length = other.length →
      (∀ i, i < start ∨ start + 4 ≤ i → bytes[i]? = other[i]?) →
      bytes ≠ other →
        crc32 bytes ≠ crc32 other ∧ crc32Buf bytes ≠ crc32Buf other := by
  constructor
  · intro data
    exact ⟨crc32_eq_bitwiseCrc32 data, crc32_eq_bitwiseCrc32 data⟩
  · intro bytes other start hlength hout hne
    have hcrc := crc32_ne_of_window start hlength hout hne
    exact ⟨hcrc, hcrc⟩

end VecDB
