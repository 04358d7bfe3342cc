import Mathlib.Data.List.Sort
import Mathlib.Tactic

/-!
# Nearest-rank percentiles

The value at a rank of a sorted list, and which values lie below it: a set
that is closed downwards holds the value at a rank exactly if it holds that
many of the values.
-/

namespace NearestRank

variable {α : Type} [LE α] {p q n k : ℕ} {xs : List α} {v : α}

/-! ## Ranks -/

/-- The nearest rank of a percentile of `n` values, from one on. -/
def rank (p n : ℕ) : ℕ := (p * n + 99) / 100

theorem rank_le_iff : rank p n ≤ k ↔ p * n ≤ 100 * k := by
  unfold rank
  omega

theorem rank_le (hp : p ≤ 100) : rank p n ≤ n :=
  rank_le_iff.mpr (Nat.mul_le_mul_right n hp)

theorem rank_pos (hp : 0 < p) (hn : 0 < n) : 0 < rank p n := by
  have := Nat.mul_pos hp hn
  unfold rank
  omega

theorem rank_mono (hpq : p ≤ q) : rank p n ≤ rank q n := by
  have := Nat.mul_le_mul_right n hpq
  unfold rank
  omega

/-! ## Sorted lists -/

theorem getElem_lower_iff {P : α → Prop} [DecidablePred P]
    (hlower : ∀ a b, a ≤ b → P b → P a) (hsorted : xs.Pairwise (· ≤ ·))
    (hk : k < xs.length) : P xs[k] ↔ k < xs.countP (P ·) := by
  induction xs generalizing k with
  | nil => cases hk
  | cons x xs ih =>
      obtain ⟨hle, hsorted⟩ := List.pairwise_cons.mp hsorted
      by_cases hx : P x
      · rw [List.countP_cons_of_pos (by simpa using hx)]
        cases k with
        | zero => simp [hx]
        | succ k =>
            rw [List.getElem_cons_succ, ih hsorted (by simpa using hk)]
            omega
      · have hnone : (x :: xs).countP (P ·) = 0 := by
          rw [List.countP_eq_zero]
          intro y hy
          rcases List.mem_cons.mp hy with rfl | hy
          · simpa using hx
          · simpa using fun hPy => hx (hlower x y (hle y hy) hPy)
        rw [hnone]
        constructor
        · intro hP
          rw [List.countP_eq_zero] at hnone
          exact absurd hP (by simpa using hnone _ (List.getElem_mem hk))
        · intro hlt
          omega

/-! ## Percentiles -/

variable [DecidableLE α]

def percentile (p : ℕ) (xs : List α) : Option α :=
  (xs.insertionSort (· ≤ ·))[rank p xs.length - 1]?

theorem exists_percentile (hp : 0 < p) (hp' : p ≤ 100) (hxs : xs ≠ []) :
    ∃ v, percentile p xs = some v := by
  have hpos := rank_pos hp (List.length_pos_iff.mpr hxs)
  have hle := rank_le (n := xs.length) hp'
  refine ⟨_, List.getElem?_eq_getElem ?_⟩
  rw [List.length_insertionSort]
  omega

variable [Std.IsLinearOrder α]

theorem percentile_lower_iff {P : α → Prop} [DecidablePred P]
    (hlower : ∀ a b, a ≤ b → P b → P a) (hp : 0 < p)
    (hv : percentile p xs = some v) :
    P v ↔ rank p xs.length ≤ xs.countP (P ·) := by
  obtain ⟨hlt, rfl⟩ := List.getElem?_eq_some_iff.mp hv
  have hlength := List.length_insertionSort (· ≤ ·) xs
  have hpos := rank_pos (n := xs.length) hp (by omega)
  rw [getElem_lower_iff hlower (List.pairwise_insertionSort (· ≤ ·) xs) hlt,
    (List.perm_insertionSort (· ≤ ·) xs).countP_eq]
  omega

theorem percentile_mono {w : α} (hpq : p ≤ q)
    (hv : percentile p xs = some v) (hw : percentile q xs = some w) :
    v ≤ w := by
  obtain ⟨hlt, rfl⟩ := List.getElem?_eq_some_iff.mp hv
  obtain ⟨hlt', rfl⟩ := List.getElem?_eq_some_iff.mp hw
  have hle := rank_mono (n := xs.length) hpq
  have hsorted := List.pairwise_insertionSort (· ≤ ·) xs
  rcases Nat.eq_or_lt_of_le (Nat.sub_le_sub_right hle 1) with heq | hlt
  · simp only [heq]
    exact Std.le_refl _
  · exact List.pairwise_iff_getElem.mp hsorted _ _ _ _ hlt

end NearestRank
