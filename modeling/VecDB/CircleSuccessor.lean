import Mathlib.Data.Set.Function
import Mathlib.Tactic

/-!
# Successors on a circle

Points have positions in a linear order that is closed to a circle.  The
successor of a position is the first point at or behind it and, behind the last
point, the first point of all.
-/

namespace Circle

variable {α P : Type} [LinearOrder P] (pos : α → P)

def IsSuccessor (points : Set α) (h : P) (x : α) : Prop :=
  x ∈ points ∧
    ((h ≤ pos x ∧ ∀ y ∈ points, h ≤ pos y → pos x ≤ pos y) ∨
      ((∀ y ∈ points, pos y < h) ∧ ∀ y ∈ points, pos x ≤ pos y))

variable {pos} {points more : Set α} {h : P} {x y : α}

theorem IsSuccessor.le (hx : IsSuccessor pos points h x)
    (hy : IsSuccessor pos points h y) : pos x ≤ pos y := by
  obtain ⟨_, ⟨hat, hfirst⟩ | ⟨hbehind, hfirst⟩⟩ := hx
  · obtain ⟨hmem, ⟨hat', _⟩ | ⟨hbehind', _⟩⟩ := hy
    · exact hfirst y hmem hat'
    · exact absurd (hbehind' x ‹_›) (not_lt.mpr hat)
  · exact hfirst y hy.1

theorem IsSuccessor.unique (hinj : Set.InjOn pos points)
    (hx : IsSuccessor pos points h x) (hy : IsSuccessor pos points h y) :
    x = y :=
  hinj hx.1 hy.1 (le_antisymm (hx.le hy) (hy.le hx))

/-- Points that are added take positions over and hand none to another. -/
theorem IsSuccessor.of_subset (hsub : points ⊆ more)
    (hx : IsSuccessor pos more h x) (hmem : x ∈ points) :
    IsSuccessor pos points h x := by
  refine ⟨hmem, ?_⟩
  obtain ⟨_, ⟨hat, hfirst⟩ | ⟨hbehind, hfirst⟩⟩ := hx
  · exact Or.inl ⟨hat, fun y hy => hfirst y (hsub hy)⟩
  · exact Or.inr ⟨fun y hy => hbehind y (hsub hy),
      fun y hy => hfirst y (hsub hy)⟩

theorem isSuccessor_self (hmem : x ∈ points) :
    IsSuccessor pos points (pos x) x :=
  ⟨hmem, Or.inl ⟨le_rfl, fun _ _ hle => hle⟩⟩

/-- Between a position and the added point that takes it over no point lies. -/
theorem IsSuccessor.of_added (hsub : points ⊆ more)
    (hx : IsSuccessor pos points h x) (hy : IsSuccessor pos more h y) :
    IsSuccessor pos points (pos y) x := by
  refine ⟨hx.1, ?_⟩
  obtain ⟨_, ⟨hat, hfirst⟩ | ⟨hbehind, hfirst⟩⟩ := hy
  · obtain ⟨hmem, ⟨hat', hfirst'⟩ | ⟨hbehind', hfirst'⟩⟩ := hx
    · refine Or.inl ⟨hfirst x (hsub hmem) hat', ?_⟩
      intro z hz hle
      exact hfirst' z hz (hat.trans hle)
    · exact Or.inr ⟨fun z hz => (hbehind' z hz).trans_le hat, hfirst'⟩
  · obtain ⟨hmem, ⟨hat', _⟩ | ⟨_, hfirst'⟩⟩ := hx
    · exact absurd (hbehind x (hsub hmem)) (not_lt.mpr hat')
    · exact Or.inl ⟨hfirst x (hsub hmem), fun z hz _ => hfirst' z hz⟩

/-- On a circle of `size` positions the successor is the nearest clockwise. -/
theorem IsSuccessor.distance_le {pos : α → ℕ} {h size : ℕ}
    (hbound : ∀ y ∈ points, pos y < size) (hh : h < size)
    (hx : IsSuccessor pos points h x) (hy : y ∈ points) :
    (size - h + pos x) % size ≤ (size - h + pos y) % size := by
  have hwrap (z : α) (hle : h ≤ pos z) (hz : pos z < size) :
      (size - h + pos z) % size = pos z - h := by
    have hsum : size - h + pos z = pos z - h + size := by omega
    rw [hsum, Nat.add_mod_right, Nat.mod_eq_of_lt (by omega)]
  have hbefore (z : α) (hlt : pos z < h) :
      (size - h + pos z) % size = size - h + pos z :=
    Nat.mod_eq_of_lt (by omega)
  have hxbound := hbound x hx.1
  have hybound := hbound y hy
  obtain ⟨_, ⟨hat, hfirst⟩ | ⟨hbehind, hfirst⟩⟩ := hx
  · rw [hwrap x hat hxbound]
    by_cases hle : h ≤ pos y
    · rw [hwrap y hle hybound]
      have := hfirst y hy hle
      omega
    · rw [hbefore y (by omega)]
      omega
  · have := hfirst y hy
    rw [hbefore x (hbehind x ‹_›), hbefore y (hbehind y hy)]
    omega

/-! ## Sorted lists of points -/

variable (pos) in
/-- The first point at or behind `h`, else the first point. -/
def successor (l : List α) (h : P) : Option α :=
  (l.find? fun x => !decide (pos x < h)).or l.head?

variable (pos) in
theorem successor_isSome {l : List α} (hne : l ≠ []) (h : P) :
    ∃ x, successor pos l h = some x := by
  obtain ⟨first, rest, rfl⟩ := List.exists_cons_of_ne_nil hne
  unfold successor
  cases (first :: rest).find? fun x => !decide (pos x < h) with
  | none => exact ⟨first, rfl⟩
  | some x => exact ⟨x, rfl⟩

theorem isSuccessor_of_sorted {l : List α}
    (hsorted : l.Pairwise fun a b => pos a ≤ pos b)
    (hx : successor pos l h = some x) :
    IsSuccessor pos {y | y ∈ l} h x := by
  unfold successor at hx
  cases hfind : l.find? fun x => !decide (pos x < h) with
  | some found =>
      rw [hfind] at hx
      cases hx
      obtain ⟨hat, before, after, rfl, hbefore⟩ :=
        List.find?_eq_some_iff_append.mp hfind
      simp only [Bool.not_eq_true', decide_eq_false_iff_not, not_lt] at hat
      refine ⟨by simp, Or.inl ⟨hat, ?_⟩⟩
      intro y hy hle
      obtain hy | hy := List.mem_append.mp hy
      · have hlt := hbefore y hy
        simp only [Bool.not_not, decide_eq_true_eq] at hlt
        exact absurd hlt (not_lt.mpr hle)
      · have htail := (List.pairwise_append.mp hsorted).2.1
        obtain rfl | hy := List.mem_cons.mp hy
        · exact le_rfl
        · exact (List.pairwise_cons.mp htail).1 y hy
  | none =>
      rw [hfind, Option.none_or] at hx
      obtain ⟨rest, rfl⟩ := List.head?_eq_some_iff.mp hx
      refine ⟨by simp, Or.inr ⟨?_, ?_⟩⟩
      · intro y hy
        simpa using List.find?_eq_none.mp hfind y hy
      · intro y hy
        obtain rfl | hy := List.mem_cons.mp hy
        · exact le_rfl
        · exact (List.pairwise_cons.mp hsorted).1 y hy

end Circle
