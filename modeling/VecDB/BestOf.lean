import Mathlib.Data.List.Perm.Subperm
import Mathlib.Tactic

/-!
# The least elements of a growing set

A bounded collection keeps the `k` elements of least key among all it has been
offered.  An offer that cannot be among them is skipped; one that can joins,
and a greatest element leaves a collection that was full.
-/

variable {α β : Type} [LinearOrder β] {key : α → β} {k : ℕ}

/-- The collection is full, and none of its elements lies above `d`. -/
def Beats (k : ℕ) (key : α → β) (kept : List α) (d : β) : Prop :=
  k ≤ kept.length ∧ ∀ a ∈ kept, key a ≤ d

structure BestOf (k : ℕ) (key : α → β) (seen : α → Prop) (kept : List α) :
    Prop where
  nodup : kept.Nodup
  subset : ∀ a ∈ kept, seen a
  length_le : kept.length ≤ k
  rest : ∀ a, seen a → a ∈ kept ∨ Beats k key kept (key a)

/-- `kept'` has `a` in the place of a greatest element, and `a` was not the
greatest. -/
structure Replaced (key : α → β) (a : α) (kept kept' : List α) : Prop where
  closer : ∃ b ∈ kept, key a < key b
  evicted : ∃ last, (last :: kept').Perm (a :: kept) ∧
    ∀ b ∈ a :: kept, key b ≤ key last

theorem Beats.mono {kept : List α} {d d' : β} (h : Beats k key kept d)
    (hle : d ≤ d') : Beats k key kept d' :=
  ⟨h.1, fun a ha => (h.2 a ha).trans hle⟩

theorem Beats.of_room {kept : List α} {d : β} (hroom : kept.length < k) :
    ¬ Beats k key kept d :=
  fun h => absurd h.1 (by omega)

section Replaced

variable {a : α} {kept kept' : List α}

theorem Replaced.length_eq (h : Replaced key a kept kept') :
    kept'.length = kept.length := by
  obtain ⟨last, hperm, _⟩ := h.evicted
  simpa using hperm.length_eq

theorem Replaced.mem (h : Replaced key a kept kept') {b : α}
    (hb : b ∈ kept') : b = a ∨ b ∈ kept := by
  obtain ⟨last, hperm, _⟩ := h.evicted
  exact List.mem_cons.mp (hperm.mem_iff.mp (List.mem_cons_of_mem last hb))

theorem Replaced.beats (h : Replaced key a kept kept') {d : β}
    (hbeats : Beats k key kept d) : Beats k key kept' d := by
  refine ⟨by rw [h.length_eq]; exact hbeats.1, fun b hb => ?_⟩
  rcases h.mem hb with rfl | hb
  · obtain ⟨worst, hworst, hlt⟩ := h.closer
    exact hlt.le.trans (hbeats.2 worst hworst)
  · exact hbeats.2 b hb

/-- What is not kept is beaten by what is. -/
theorem Replaced.rest (h : Replaced key a kept kept')
    (hfull : k ≤ kept.length) {b : α} (hb : b ∈ a :: kept) :
    b ∈ kept' ∨ Beats k key kept' (key b) := by
  have hlength := h.length_eq
  obtain ⟨last, hperm, hmax⟩ := h.evicted
  rcases List.mem_cons.mp (hperm.mem_iff.mpr hb) with rfl | hkept
  · refine Or.inr ⟨by omega, fun c hc => hmax c ?_⟩
    exact hperm.mem_iff.mp (List.mem_cons_of_mem b hc)
  · exact Or.inl hkept

end Replaced

namespace BestOf

variable {seen : α → Prop} {kept kept' : List α} {a : α}

theorem singleton (hk : 0 < k) (a : α) :
    BestOf k key (fun b => b = a) [a] where
  nodup := List.nodup_singleton a
  subset := fun _ hb => List.mem_singleton.mp hb
  length_le := hk
  rest := fun _ hb => Or.inl (List.mem_singleton.mpr hb)

theorem add (h : BestOf k key seen kept) (hroom : kept.length < k)
    (hnew : ¬ seen a) (hperm : kept'.Perm (a :: kept)) :
    BestOf k key (fun b => b = a ∨ seen b) kept' where
  nodup := hperm.nodup_iff.mpr
    (List.nodup_cons.mpr ⟨fun ha => hnew (h.subset a ha), h.nodup⟩)
  subset := fun b hb =>
    (List.mem_cons.mp (hperm.mem_iff.mp hb)).imp_right (h.subset b)
  length_le := by
    rw [hperm.length_eq]
    exact hroom
  rest := by
    rintro b (rfl | hb)
    · exact Or.inl (hperm.mem_iff.mpr List.mem_cons_self)
    · rcases h.rest b hb with hmem | hbeats
      · exact Or.inl (hperm.mem_iff.mpr (List.mem_cons_of_mem a hmem))
      · exact absurd hbeats (Beats.of_room hroom)

theorem skip (h : BestOf k key seen kept)
    (hbeats : Beats k key kept (key a)) :
    BestOf k key (fun b => b = a ∨ seen b) kept :=
  { h with
    subset := fun b hb => Or.inr (h.subset b hb)
    rest := by
      rintro b (rfl | hb)
      · exact Or.inr hbeats
      · exact h.rest b hb }

theorem replace (h : BestOf k key seen kept) (hfull : k ≤ kept.length)
    (hnew : ¬ seen a) (hreplaced : Replaced key a kept kept') :
    BestOf k key (fun b => b = a ∨ seen b) kept' where
  nodup := by
    have hnodup : (a :: kept).Nodup :=
      List.nodup_cons.mpr ⟨fun ha => hnew (h.subset a ha), h.nodup⟩
    obtain ⟨last, hperm, _⟩ := hreplaced.evicted
    exact (List.nodup_cons.mp (hperm.nodup_iff.mpr hnodup)).2
  subset := fun b hb => (hreplaced.mem hb).imp_right (h.subset b)
  length_le := by
    rw [hreplaced.length_eq]
    exact h.length_le
  rest := by
    rintro b (rfl | hb)
    · exact hreplaced.rest hfull List.mem_cons_self
    · rcases h.rest b hb with hmem | hbeats
      · exact hreplaced.rest hfull (List.mem_cons_of_mem a hmem)
      · exact Or.inr (hreplaced.beats hbeats)

theorem congr {seen' : α → Prop} (h : BestOf k key seen kept)
    (hiff : ∀ a, seen' a ↔ seen a) : BestOf k key seen' kept :=
  { h with
    subset := fun a ha => (hiff a).mpr (h.subset a ha)
    rest := fun a ha => h.rest a ((hiff a).mp ha) }

theorem perm (h : BestOf k key seen kept) (hperm : kept'.Perm kept) :
    BestOf k key seen kept' where
  nodup := hperm.nodup_iff.mpr h.nodup
  subset := fun b hb => h.subset b (hperm.mem_iff.mp hb)
  length_le := by
    rw [hperm.length_eq]
    exact h.length_le
  rest := by
    intro b hb
    rcases h.rest b hb with hmem | ⟨hfull, hle⟩
    · exact Or.inl (hperm.mem_iff.mpr hmem)
    · refine Or.inr ⟨by rw [hperm.length_eq]; exact hfull, fun c hc => ?_⟩
      exact hle c (hperm.mem_iff.mp hc)

/-- A collection with room left has kept everything. -/
theorem mem_of_room (h : BestOf k key seen kept) (hroom : kept.length < k)
    (ha : seen a) : a ∈ kept :=
  (h.rest a ha).resolve_right (Beats.of_room hroom)

/-- Nothing that was seen lies below all that is kept. -/
theorem exists_le (h : BestOf k key seen kept) (hk : 0 < k) (ha : seen a) :
    ∃ b ∈ kept, key b ≤ key a := by
  rcases h.rest a ha with hmem | ⟨hfull, hle⟩
  · exact ⟨a, hmem, le_rfl⟩
  · obtain ⟨b, hb⟩ := List.exists_mem_of_length_pos (hk.trans_le hfull)
    exact ⟨b, hb, hle b hb⟩

/-- Elements that are at most `d` are kept, as long as nothing beats `d`. -/
theorem subset_or_beats (h : BestOf k key seen kept) {l : List α} {d : β}
    (hseen : ∀ b ∈ l, seen b) (hle : ∀ b ∈ l, key b ≤ d) :
    l ⊆ kept ∨ Beats k key kept d := by
  by_cases hsub : l ⊆ kept
  · exact Or.inl hsub
  · obtain ⟨b, hb, hnot⟩ : ∃ b ∈ l, b ∉ kept := by
      simpa [List.subset_def] using hsub
    have hbeats := (h.rest b (hseen b hb)).resolve_left hnot
    exact Or.inr (hbeats.mono (hle b hb))

/-- `k` elements that were seen beat whatever they lie below. -/
theorem beats_of_many (h : BestOf k key seen kept) {l : List α} {d : β}
    (hnodup : l.Nodup) (hseen : ∀ b ∈ l, seen b) (hle : ∀ b ∈ l, key b ≤ d)
    (hmany : k ≤ l.length) : Beats k key kept d := by
  rcases h.subset_or_beats hseen hle with hsub | hbeats
  · have hperm : l.Perm kept :=
      (List.subperm_of_subset hnodup hsub).perm_of_length_le
        (h.length_le.trans hmany)
    refine ⟨by rw [← hperm.length_eq]; exact hmany, fun b hb => ?_⟩
    exact hle b (hperm.mem_iff.mpr hb)
  · exact hbeats

/-- What a larger collection beats, a smaller one of no fewer elements beats
too. -/
theorem beats_of_beats {k₂ : ℕ} {seen₂ : α → Prop} {kept₂ : List α} {d : β}
    (h : BestOf k key seen kept) (h₂ : BestOf k₂ key seen₂ kept₂)
    (hk : k ≤ k₂) (hsub : ∀ a, seen₂ a → seen a)
    (hbeats : Beats k₂ key kept₂ d) : Beats k key kept d :=
  h.beats_of_many h₂.nodup (fun b hb => hsub b (h₂.subset b hb)) hbeats.2
    (hk.trans hbeats.1)

end BestOf

/-! ## In order -/

section Sorted

variable {out : List α} {d : β}

/-- A list in order that holds `i + 1` elements up to `d` has one at `i`. -/
theorem le_of_many_le (hsorted : out.Pairwise fun a b => key a ≤ key b)
    {l : List α} (hnodup : l.Nodup) (hsub : l ⊆ out)
    (hle : ∀ a ∈ l, key a ≤ d) {i : ℕ} (hmany : i < l.length) :
    ∃ a, out[i]? = some a ∧ key a ≤ d := by
  have hlength := (List.subperm_of_subset hnodup hsub).length_le
  have hi : i < out.length := by omega
  refine ⟨out[i], List.getElem?_eq_getElem hi, ?_⟩
  by_contra hgt
  have hfront : l ⊆ out.take i := by
    intro a ha
    obtain ⟨j, hj, rfl⟩ := List.mem_iff_getElem.mp (hsub ha)
    rw [List.mem_take_iff_getElem]
    by_cases hji : j < i
    · exact ⟨j, by omega, rfl⟩
    · have hbelow : key out[i] ≤ key out[j] := by
        rcases Nat.eq_or_lt_of_le (Nat.le_of_not_lt hji) with rfl | hlt
        · exact le_rfl
        · exact List.pairwise_iff_getElem.mp hsorted i j hi hj hlt
      exact absurd (hbelow.trans (hle _ ha)) hgt
  have hshort := (List.subperm_of_subset hnodup hfront).length_le
  rw [List.length_take] at hshort
  omega

/-- A larger collection of more elements is at least as long and, in order, at
most as great at every position. -/
theorem BestOf.getElem_le {k₂ : ℕ} {seen seen₂ : α → Prop}
    {kept kept₂ out₂ : List α} (h : BestOf k key seen kept)
    (h₂ : BestOf k₂ key seen₂ kept₂) (hk : k ≤ k₂)
    (hsub : ∀ a, seen a → seen₂ a) (hout : out.Perm kept)
    (hout₂ : out₂.Perm kept₂)
    (hsorted : out.Pairwise fun a b => key a ≤ key b)
    (hsorted₂ : out₂.Pairwise fun a b => key a ≤ key b) {i : ℕ} {a : α}
    (ha : out[i]? = some a) : ∃ b, out₂[i]? = some b ∧ key b ≤ key a := by
  obtain ⟨hi, rfl⟩ := List.getElem?_eq_some_iff.mp ha
  have hfront : ∀ b ∈ out.take (i + 1), seen₂ b ∧ key b ≤ key out[i] := by
    intro b hb
    have hmem := hout.mem_iff.mp (List.mem_of_mem_take hb)
    obtain ⟨j, hj, rfl⟩ := List.mem_take_iff_getElem.mp hb
    refine ⟨hsub _ (h.subset _ hmem), ?_⟩
    rcases Nat.eq_or_lt_of_le (show j ≤ i by omega) with rfl | hlt
    · exact le_rfl
    · exact List.pairwise_iff_getElem.mp hsorted j i (by omega) hi hlt
  have hlength : (out.take (i + 1)).length = i + 1 := by
    rw [List.length_take]
    omega
  have hle := h.length_le
  rw [← hout.length_eq] at hle
  rcases h₂.subset_or_beats (fun b hb => (hfront b hb).1)
      (fun b hb => (hfront b hb).2) with hkept | ⟨hfull, hbelow⟩
  · exact le_of_many_le hsorted₂
      ((hout.nodup_iff.mpr h.nodup).sublist (List.take_sublist _ _))
      (List.Subset.trans hkept hout₂.symm.subset) (fun b hb => (hfront b hb).2) (by omega)
  · exact le_of_many_le hsorted₂ (hout₂.nodup_iff.mpr h₂.nodup)
      (List.Subset.refl _) (fun b hb => hbelow b (hout₂.mem_iff.mp hb))
      (by rw [hout₂.length_eq]; omega)

end Sorted
