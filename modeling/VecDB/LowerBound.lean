import Mathlib.Data.List.Basic
import Mathlib.Tactic

/-!
# Binary search

`std::lower_bound`: the range is halved until it is empty.  On a list whose
elements before the sought place come first, the result is the first place
whose element is not before it.
-/

namespace BinarySearch

variable {α : Type} {before : α → Bool} {l : List α}

/-- The search in the `len` places from `first` on. -/
def lowerBound (before : α → Bool) (l : List α) (first len : ℕ) : ℕ :=
  if len = 0 then first
  else
    let half := len / 2
    match l[first + half]? with
    | some x =>
        if before x then lowerBound before l (first + half + 1) (len - half - 1)
        else lowerBound before l first half
    | none => first
termination_by len
decreasing_by all_goals omega

/-- What is before the sought place stands in front of what is not. -/
def Partitioned (before : α → Bool) (l : List α) : Prop :=
  l.Pairwise fun a b => before b = true → before a = true

theorem Partitioned.before_of_le (hpart : Partitioned before l)
    {i j : ℕ} (hij : i ≤ j) {x y : α} (hx : l[i]? = some x)
    (hy : l[j]? = some y) (hbefore : before y = true) :
    before x = true := by
  obtain rfl | hlt := Nat.eq_or_lt_of_le hij
  · rw [hx] at hy
    cases hy
    exact hbefore
  · obtain ⟨hi, rfl⟩ := List.getElem?_eq_some_iff.mp hx
    obtain ⟨hj, rfl⟩ := List.getElem?_eq_some_iff.mp hy
    exact List.pairwise_iff_getElem.mp hpart i j hi hj hlt hbefore

/-- The places the search has left behind are decided. -/
theorem lowerBound_spec (hpart : Partitioned before l) (first len : ℕ)
    (hrange : first + len ≤ l.length)
    (hleft : ∀ i x, i < first → l[i]? = some x → before x = true)
    (hright : ∀ i x, first + len ≤ i → l[i]? = some x → before x = false) :
    (∀ i x, i < lowerBound before l first len → l[i]? = some x →
        before x = true) ∧
      ∀ i x, lowerBound before l first len ≤ i → l[i]? = some x →
        before x = false := by
  fun_induction lowerBound before l first len with
  | case1 first => exact ⟨hleft, hright⟩
  | case2 first len hlen half x hx hbefore ih =>
      refine ih (by omega) ?_ ?_
      · intro i y hi hy
        exact hpart.before_of_le (show i ≤ first + half by omega) hy hx hbefore
      · intro i y hi hy
        exact hright i y (by omega) hy
  | case3 first len hlen half x hx hbefore ih =>
      refine ih (by omega) hleft ?_
      intro i y hi hy
      by_contra hy'
      exact hbefore (hpart.before_of_le hi hx hy (by simpa using hy'))
  | case4 first len hlen half hx =>
      have hlt : first + half < l.length := by omega
      rw [List.getElem?_eq_getElem hlt] at hx
      cases hx

theorem lowerBound_le (before : α → Bool) (l : List α) (first len : ℕ) :
    lowerBound before l first len ≤ first + len := by
  fun_induction lowerBound before l first len with
  | case1 first => omega
  | case2 first len hlen half x hx hbefore ih => omega
  | case3 first len hlen half x hx hbefore ih => omega
  | case4 first len hlen half hx => omega

theorem getElem?_lowerBound (hpart : Partitioned before l) :
    l[lowerBound before l 0 l.length]? = l.find? fun x => !before x := by
  obtain ⟨hleft, hright⟩ := lowerBound_spec hpart 0 l.length (by omega)
    (fun i x hi _ => absurd hi (Nat.not_lt_zero i))
    (fun i x hi hx => by
      obtain ⟨hlt, _⟩ := List.getElem?_eq_some_iff.mp hx
      omega)
  generalize lowerBound before l 0 l.length = place at hleft hright ⊢
  cases hplace : l[place]? with
  | none =>
      symm
      rw [List.find?_eq_none]
      intro x hx
      obtain ⟨i, hi, rfl⟩ := List.mem_iff_getElem.mp hx
      have hlen := List.getElem?_eq_none_iff.mp hplace
      simp [hleft i l[i] (by omega) (List.getElem?_eq_getElem hi)]
  | some x =>
      symm
      rw [List.find?_eq_some_iff_getElem]
      obtain ⟨hlt, hx⟩ := List.getElem?_eq_some_iff.mp hplace
      refine ⟨by simp [hright place x le_rfl hplace], place, hlt, hx, ?_⟩
      intro i hi
      simp [hleft i l[i] hi (List.getElem?_eq_getElem (by omega))]

end BinarySearch
