import VecDB.HnswBeam
import Mathlib.Tactic

/-!
# Greedy descent ends at a local minimum

`greedy_search_layer` improves its node while it walks the list of the node it
started the pass from.  A pass that improves nothing has found no closer node
in the list of the node it returns.
-/

namespace VecDB
namespace HNSWIndex

open Relation

variable {V D : Type} [LinearOrder D] {rt : Runtime V D}
  {index : HNSWIndex V} {query : V}

/-- A pass ends at a node that is no farther than the one it began with and
than all of the list; without an improvement it is the one it began with. -/
theorem greedyPass_eq_ok {nbrs : List ℕ} {current current' : ℕ} {d d' : D}
    {improved improved' : Bool} (hcurrent : DistOf rt index query current d)
    (h : greedyPass rt index query nbrs (current, d, improved) =
      .ok (current', d', improved')) :
    DistOf rt index query current' d' ∧ d' ≤ d ∧
      (∀ j ∈ nbrs, ∀ dj, DistOf rt index query j dj → d' ≤ dj) ∧
      (improved' = false →
        improved = false ∧ current' = current ∧ d' = d) := by
  induction nbrs generalizing current d improved with
  | nil =>
      cases h
      exact ⟨hcurrent, le_rfl, by simp, fun hnone => ⟨hnone, rfl, rfl⟩⟩
  | cons nbr nbrs ih =>
      rw [greedyPass, except_bind_eq_ok] at h
      obtain ⟨vec, hget, h⟩ := h
      have hnbr : DistOf rt index query nbr (rt.l2sq vec query) :=
        ⟨vec, getVector_eq_ok.mp hget, rfl⟩
      dsimp only at h
      split_ifs at h with hlt
      · obtain ⟨hdist, hle, hrest, hkept⟩ := ih hnbr h
        refine ⟨hdist, hle.trans hlt.le, ?_, fun hnone => ?_⟩
        · intro j hj dj hdj
          rcases List.mem_cons.mp hj with rfl | hj
          · rw [hdj.unique hnbr]
            exact hle
          · exact hrest j hj dj hdj
        · cases (hkept hnone).1
      · obtain ⟨hdist, hle, hrest, hkept⟩ := ih hcurrent h
        refine ⟨hdist, hle, ?_, hkept⟩
        intro j hj dj hdj
        rcases List.mem_cons.mp hj with rfl | hj
        · rw [hdj.unique hnbr]
          exact hle.trans (not_lt.mp hlt)
        · exact hrest j hj dj hdj

/-- What the loop returns, if it returns. -/
theorem greedyLoop_eq_ok {layer fuel current i : ℕ} {d : D}
    (hdist : DistOf rt index query current d)
    (h : greedyLoop rt index query layer fuel current d = .ok i) :
    ∃ di, DistOf rt index query i di ∧ di ≤ d ∧
      ∀ j ∈ index.neighbours.getNeighbours i layer, ∀ dj,
        DistOf rt index query j dj → di ≤ dj := by
  induction fuel generalizing current d with
  | zero => cases h
  | succ fuel ih =>
      rw [greedyLoop, except_bind_eq_ok] at h
      obtain ⟨⟨c, dc, improved⟩, hpass, h⟩ := h
      obtain ⟨hc, hle, hnbrs, hkept⟩ := greedyPass_eq_ok hdist hpass
      cases improved with
      | true =>
          obtain ⟨di, hi, hdi, hlocal⟩ := ih hc h
          exact ⟨di, hi, hdi.trans hle, hlocal⟩
      | false =>
          obtain ⟨_, rfl, rfl⟩ := hkept rfl
          cases h
          exact ⟨dc, hdist, le_rfl, hnbrs⟩

/-! ## The search of a layer -/

/-- The list that `get_neighbours` finds: there is none at a negative layer. -/
def getNeighboursAt (index : HNSWIndex V) (i : ℕ) (layer : ℤ) : List ℕ :=
  if layer < 0 then []
  else index.neighbours.getNeighbours i layer.toNat

/-- `greedy_search_layer` at any layer. -/
def greedySearchAt (rt : Runtime V D) (index : HNSWIndex V) (ep : ℕ)
    (query : V) (layer : ℤ) : Except Failure ℕ :=
  if layer < 0 then do
    -- the first pass walks an empty list
    let _ ← index.getVector ep
    return ep
  else greedySearchLayer rt index ep query layer.toNat

/-- `i` is reached from `ep`, is no farther, and has no closer neighbour. -/
structure LocalMinimum (rt : Runtime V D) (index : HNSWIndex V) (query : V)
    (layer : ℤ) (ep i : ℕ) : Prop where
  reached : ReflTransGen (fun i j => j ∈ index.getNeighboursAt i layer) ep i
  closest : ∃ dep di, DistOf rt index query ep dep ∧
    DistOf rt index query i di ∧ di ≤ dep ∧
      ∀ j ∈ index.getNeighboursAt i layer, ∀ dj,
        DistOf rt index query j dj → ¬ dj < di

theorem greedySearchLayer_local_minimum (rt : Runtime V D) (query : V)
    {layer ep : ℕ} (hep : ep < index.vectors.length)
    (hrange : ∀ i, ∀ j ∈ index.neighbours.getNeighbours i layer,
      j < index.vectors.length) :
    ∃ i, greedySearchLayer rt index ep query layer = .ok i ∧
      LocalMinimum rt index query layer ep i := by
  have hlists : ∀ i, index.getNeighboursAt i layer =
      index.neighbours.getNeighbours i layer := by
    intro i
    unfold getNeighboursAt
    rw [if_neg (by omega), Int.toNat_natCast]
  have hclosed : Closed index layer fun i => i < index.vectors.length ∧
      ReflTransGen (fun i j => j ∈ index.getNeighboursAt i layer) ep i := {
    stored := fun i hi => hi.1
    links := by
      intro i hi j hj
      rw [← hlists] at hj
      exact ⟨hrange i j (by rwa [← hlists]), hi.2.tail hj⟩ }
  obtain ⟨i, hrun, _, hreach⟩ :=
    greedySearchLayer_ok rt query hclosed ⟨hep, .refl⟩
  refine ⟨i, hrun, hreach, ?_⟩
  rw [greedySearchLayer, except_bind_eq_ok] at hrun
  obtain ⟨vec, hget, hloop⟩ := hrun
  have hstart : DistOf rt index query ep (rt.l2sq vec query) :=
    ⟨vec, getVector_eq_ok.mp hget, rfl⟩
  obtain ⟨di, hi, hle, hlocal⟩ := greedyLoop_eq_ok hstart hloop
  refine ⟨_, di, hstart, hi, hle, fun j hj dj hdj => ?_⟩
  rw [hlists] at hj
  exact not_lt.mpr (hlocal j hj dj hdj)

/-- The descent ends, at a node that is reached over the layer, no farther than
the start and with no closer neighbour. -/
theorem greedySearchAt_local_minimum (rt : Runtime V D) (query : V)
    (layer : ℤ) {ep : ℕ} (hep : ep < index.vectors.length)
    (hrange : ∀ i, ∀ j ∈ index.getNeighboursAt i layer,
      j < index.vectors.length) :
    ∃ i, greedySearchAt rt index ep query layer = .ok i ∧
      LocalMinimum rt index query layer ep i := by
  by_cases hlayer : layer < 0
  · have hget : index.getVector ep = .ok index.vectors[ep] :=
      getVector_eq_ok.mpr (List.getElem?_eq_getElem hep)
    have hstart : DistOf rt index query ep (rt.l2sq index.vectors[ep] query) :=
      ⟨_, List.getElem?_eq_getElem hep, rfl⟩
    refine ⟨ep, ?_, .refl, _, _, hstart, hstart, le_rfl, ?_⟩
    · unfold greedySearchAt
      rw [if_pos hlayer, hget]
      rfl
    · intro j hj
      unfold getNeighboursAt at hj
      rw [if_pos hlayer] at hj
      cases hj
  · obtain ⟨n, rfl⟩ := Int.eq_ofNat_of_zero_le (not_lt.mp hlayer)
    unfold greedySearchAt
    rw [if_neg hlayer, Int.toNat_natCast]
    apply greedySearchLayer_local_minimum rt query hep
    intro i j hj
    apply hrange i j
    unfold getNeighboursAt
    rwa [if_neg hlayer, Int.toNat_natCast]

/-- Three nodes on a line, linked both ways. -/
def lineGraph : HNSWIndex ℕ where
  cfg := smallConfig
  vectors := [0, 1, 2]
  neighbours := [[[1]], [[0, 2]], [[1]]]
  entryPoint := 0
  maxLayer := 0
  nextId := 3
  rng := fun _ => 0

theorem greedySearchAt_local_minimum_lineGraph :
    ∃ i, greedySearchAt numberLine lineGraph 0 2 0 = .ok i ∧
      LocalMinimum numberLine lineGraph 2 0 0 i := by
  apply greedySearchAt_local_minimum numberLine 2 0 (by decide)
  intro i j hj
  rcases i with _ | _ | _ | i
  · exact (show ∀ j ∈ [1], j < 3 by decide) j hj
  · exact (show ∀ j ∈ [0, 2], j < 3 by decide) j hj
  · exact (show ∀ j ∈ [1], j < 3 by decide) j hj
  · cases hj

end HNSWIndex
end VecDB
