import Mathlib.Algebra.Order.Floor.Ring
import Mathlib.Data.Int.Log
import Mathlib.Order.WithBot
import Mathlib.Tactic

/-!
# Single precision floats

The values of the binary32 format and their arithmetic, each operation rounded
once to the nearest value, ties to even.  The sign of a zero and the payload
of a NaN are left out, as no comparison sees them.  A sum of squares of numbers
is a number: infinity can come up in it, and a NaN cannot.
-/

inductive Binary32 where
  | nan
  | infinite (negative : Bool)
  | finite (q : ℚ)
  deriving DecidableEq

namespace Binary32

/-! ## Words -/

def exponentBits (w : UInt32) : ℕ := w.toNat / 2 ^ 23 % 2 ^ 8

def fractionBits (w : UInt32) : ℕ := w.toNat % 2 ^ 23

def signBit (w : UInt32) : Bool := 2 ^ 31 ≤ w.toNat

/-- The absolute value of a finite word. -/
def magnitude (w : UInt32) : ℚ :=
  if exponentBits w = 0 then fractionBits w * 2 ^ (-149 : ℤ)
  else (2 ^ 23 + fractionBits w) * 2 ^ ((exponentBits w : ℤ) - 150)

def decode (w : UInt32) : Binary32 :=
  if exponentBits w = 255 then
    if fractionBits w = 0 then infinite (signBit w) else nan
  else finite (if signBit w = true then -magnitude w else magnitude w)

/-- Neither an infinity nor a NaN. -/
def IsFinite (w : UInt32) : Prop := exponentBits w ≠ 255

instance (w : UInt32) : Decidable (IsFinite w) :=
  inferInstanceAs (Decidable (_ ≠ _))

theorem decode_of_isFinite {w : UInt32} (hw : IsFinite w) :
    ∃ q, decode w = finite q :=
  ⟨_, if_neg hw⟩

/-! ## Rounding -/

/-- The nearest integer, and the even one of two. -/
def roundEven (x : ℚ) : ℤ :=
  if Int.fract x < 1 / 2 ∨ Int.fract x = 1 / 2 ∧ ⌊x⌋ % 2 = 0 then ⌊x⌋
  else ⌊x⌋ + 1

/-- The exponent of the last place of the values around `q`. -/
def lastPlace (q : ℚ) : ℤ := max (Int.log 2 |q| - 23) (-149)

def rounded (q : ℚ) : Binary32 :=
  let r : ℚ := roundEven (q / 2 ^ lastPlace q) * 2 ^ lastPlace q
  if 2 ^ 128 ≤ |r| then infinite (q < 0) else finite r

theorem roundEven_nonneg {x : ℚ} (hx : 0 ≤ x) : 0 ≤ roundEven x := by
  have hfloor := Int.floor_nonneg.mpr hx
  unfold roundEven
  split_ifs
  · exact hfloor
  · omega

theorem rounded_ne_nan (q : ℚ) : rounded q ≠ nan := by
  unfold rounded
  dsimp only
  split_ifs
  · exact Binary32.noConfusion
  · exact Binary32.noConfusion

/-! ## Arithmetic -/

def sub : Binary32 → Binary32 → Binary32
  | finite p, finite q => rounded (p - q)
  | finite _, infinite b => infinite !b
  | infinite a, finite _ => infinite a
  | infinite a, infinite b => if a = b then nan else infinite a
  | _, _ => nan

def add : Binary32 → Binary32 → Binary32
  | finite p, finite q => rounded (p + q)
  | finite _, infinite b => infinite b
  | infinite a, finite _ => infinite a
  | infinite a, infinite b => if a = b then infinite a else nan
  | _, _ => nan

def mul : Binary32 → Binary32 → Binary32
  | finite p, finite q => rounded (p * q)
  | finite p, infinite b => if p = 0 then nan else infinite (b ^^ decide (p < 0))
  | infinite a, finite q => if q = 0 then nan else infinite (a ^^ decide (q < 0))
  | infinite a, infinite b => infinite (a ^^ b)
  | _, _ => nan

/-- `x * y + z`, rounded once. -/
def fma : Binary32 → Binary32 → Binary32 → Binary32
  | finite p, finite q, finite r => rounded (p * q + r)
  | finite _, finite _, z => z
  | x, y, z => add (mul x y) z

/-- A number that is not below zero. -/
def Nonneg : Binary32 → Prop
  | finite q => 0 ≤ q
  | infinite negative => negative = false
  | nan => False

theorem Nonneg.ne_nan {x : Binary32} (hx : Nonneg x) : x ≠ nan := by
  rintro rfl
  exact hx

theorem nonneg_rounded {q : ℚ} (hq : 0 ≤ q) : Nonneg (rounded q) := by
  have hplace : (0 : ℚ) < 2 ^ lastPlace q := by positivity
  have hround := roundEven_nonneg (div_nonneg hq hplace.le)
  unfold rounded
  dsimp only
  split_ifs
  · exact decide_eq_false (not_lt.mpr hq)
  · exact mul_nonneg (by exact_mod_cast hround) hplace.le

theorem sub_ne_nan {v w : UInt32} (hv : IsFinite v) (hw : IsFinite w) :
    sub (decode v) (decode w) ≠ nan := by
  obtain ⟨p, hp⟩ := decode_of_isFinite hv
  obtain ⟨q, hq⟩ := decode_of_isFinite hw
  rw [hp, hq]
  exact rounded_ne_nan (p - q)

theorem Nonneg.add {x y : Binary32} (hx : Nonneg x) (hy : Nonneg y) :
    Nonneg (add x y) := by
  cases x with
  | nan => exact hx.elim
  | finite p =>
      cases y with
      | nan => exact hy.elim
      | finite q => exact nonneg_rounded (add_nonneg hx hy)
      | infinite b => exact hy
  | infinite a =>
      cases y with
      | nan => exact hy.elim
      | finite q => exact hx
      | infinite b =>
          obtain rfl : a = false := hx
          obtain rfl : b = false := hy
          rfl

theorem nonneg_mul_self {x : Binary32} (hx : x ≠ nan) : Nonneg (mul x x) := by
  cases x with
  | nan => exact absurd rfl hx
  | finite q => exact nonneg_rounded (mul_self_nonneg q)
  | infinite a => exact Bool.xor_self a

theorem Nonneg.fma_self {x z : Binary32} (hz : Nonneg z) (hx : x ≠ nan) :
    Nonneg (fma x x z) := by
  cases x with
  | nan => exact absurd rfl hx
  | finite q =>
      cases z with
      | nan => exact hz.elim
      | finite r => exact nonneg_rounded (add_nonneg (mul_self_nonneg q) hz)
      | infinite b => exact hz
  | infinite a => exact (nonneg_mul_self hx).add hz

/-! ## Comparison -/

/-- `operator<`. -/
def Less : Binary32 → Binary32 → Prop
  | finite p, finite q => p < q
  | finite _, infinite b => b = false
  | infinite a, finite _ => a = true
  | infinite a, infinite b => a = true ∧ b = false
  | _, _ => False

instance : DecidableRel Less
  | finite p, finite q => inferInstanceAs (Decidable (p < q))
  | finite _, infinite b => inferInstanceAs (Decidable (b = false))
  | infinite a, finite _ => inferInstanceAs (Decidable (a = true))
  | infinite a, infinite b => inferInstanceAs (Decidable (a = true ∧ b = false))
  | nan, _ => isFalse id
  | finite _, nan => isFalse id
  | infinite _, nan => isFalse id

/-- The place of a number between the infinities. -/
def place : Binary32 → WithBot (WithTop ℚ)
  | finite q => ((q : WithTop ℚ) : WithBot (WithTop ℚ))
  | infinite negative => if negative = true then ⊥ else ⊤
  | nan => ⊥

theorem less_iff {x y : Binary32} (hx : x ≠ nan) (hy : y ≠ nan) :
    Less x y ↔ place x < place y := by
  cases x with
  | nan => exact absurd rfl hx
  | finite p =>
      cases y with
      | nan => exact absurd rfl hy
      | finite q => simp [Less, place]
      | infinite b =>
          cases b with
          | true => simp [Less, place]
          | false =>
              have htop : ((p : WithTop ℚ) : WithBot (WithTop ℚ)) < ⊤ :=
                WithBot.coe_lt_coe.mpr (WithTop.coe_lt_top p)
              simpa [Less, place] using htop
  | infinite a =>
      cases y with
      | nan => exact absurd rfl hy
      | finite q => cases a <;> simp [Less, place]
      | infinite b => cases a <;> cases b <;> simp [Less, place]

theorem Less.ne_nan {x y : Binary32} (hless : Less x y) :
    x ≠ nan ∧ y ≠ nan := by
  constructor
  · rintro rfl
    exact hless
  · rintro rfl
    cases x <;> exact hless

theorem Less.trans {x y z : Binary32} (hxy : Less x y) (hyz : Less y z) :
    Less x z := by
  obtain ⟨hx, hy⟩ := hxy.ne_nan
  have hz := hyz.ne_nan.2
  rw [less_iff hx hy] at hxy
  rw [less_iff hy hz] at hyz
  exact (less_iff hx hz).mpr (hxy.trans hyz)

theorem not_less_self (x : Binary32) : ¬ Less x x := by
  intro hless
  rw [less_iff hless.ne_nan.1 hless.ne_nan.1] at hless
  exact lt_irrefl _ hless

/-- `operator<` is an order also where there are NaNs, as these compare with
nothing; that neither of two values is less does not carry over there. -/
instance : Preorder Binary32 where
  le x y := x = y ∨ Less x y
  lt := Less
  le_refl x := Or.inl rfl
  le_trans := by
    rintro x y z (rfl | hxy) (rfl | hyz)
    · exact Or.inl rfl
    · exact Or.inr hyz
    · exact Or.inr hxy
    · exact Or.inr (hxy.trans hyz)
  lt_iff_le_not_ge := by
    intro x y
    constructor
    · intro hxy
      refine ⟨Or.inr hxy, ?_⟩
      rintro (rfl | hyx)
      · exact not_less_self _ hxy
      · exact not_less_self _ (hxy.trans hyx)
    · rintro ⟨rfl | hxy, hyx⟩
      · exact absurd (Or.inl rfl) hyx
      · exact hxy

instance : DecidableLT Binary32 := inferInstanceAs (DecidableRel Less)

theorem lt_iff {x y : Binary32} (hx : x ≠ nan) (hy : y ≠ nan) :
    x < y ↔ place x < place y :=
  less_iff hx hy

end Binary32
