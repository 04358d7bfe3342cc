import VecDB.HnswRuns
import Mathlib.Tactic

/-!
# What an index holds

An insertion that returned found an id left and room for a list at layer 0,
and it put its vector behind the others.
-/

namespace VecDB
namespace HNSWIndex

variable {V D : Type} [Preorder D] [DecidableLT D]

theorem pruneConnections_eq (rt : Runtime V D) {index index' : HNSWIndex V}
    {nodeId layer : ℕ} {Mmax : Int32}
    (hok : pruneConnections rt index nodeId layer Mmax = .ok index') :
    index' = { index with neighbours := index'.neighbours } := by
  unfold pruneConnections at hok
  by_cases hshort : ((index.neighbours.getNeighbours nodeId layer).length : ℤ) ≤
      Mmax.toInt
  · rw [if_pos hshort] at hok
    cases hok
    rfl
  · rw [if_neg hshort, except_bind_eq_ok] at hok
    obtain ⟨v, _, hok⟩ := hok
    rw [except_bind_eq_ok] at hok
    obtain ⟨distNbrs, _, hok⟩ := hok
    by_cases hneg : Mmax.toInt < 0
    · rw [if_pos hneg] at hok
      cases hok
    · rw [if_neg hneg, except_bind_eq_ok] at hok
      obtain ⟨adj, _, hok⟩ := hok
      cases hok
      rfl

theorem pruneConnections_cfg (rt : Runtime V D) {index index' : HNSWIndex V}
    {nodeId layer : ℕ} {Mmax : Int32}
    (hok : pruneConnections rt index nodeId layer Mmax = .ok index') :
    index'.cfg = index.cfg := by
  rw [pruneConnections_eq rt hok]

theorem linkBack_cfg (rt : Runtime V D) {id layer : ℕ} {Mmax : Int32}
    {nbrs : List ℕ} {index index' : HNSWIndex V}
    (hok : linkBack rt id layer Mmax nbrs index = .ok index') :
    index'.cfg = index.cfg := by
  induction nbrs generalizing index with
  | nil =>
      cases hok
      rfl
  | cons nbr nbrs ih =>
      rw [linkBack, except_bind_eq_ok] at hok
      obtain ⟨adj, _, hok⟩ := hok
      rw [except_bind_eq_ok] at hok
      obtain ⟨next, hprune, hok⟩ := hok
      have hcfg := pruneConnections_cfg rt hprune
      exact (ih hok).trans hcfg

theorem linkLayer_eq_ok (rt : Runtime V D) {index index' : HNSWIndex V}
    {vec : V} {id ep ep' layer : ℕ}
    (hok : linkLayer rt index vec id ep layer = .ok (index', ep')) :
    index'.cfg = index.cfg ∧ 0 ≤ (layerM index.cfg layer).toInt := by
  rw [linkLayer, except_bind_eq_ok] at hok
  obtain ⟨candidates, _, hok⟩ := hok
  rw [except_bind_eq_ok] at hok
  obtain ⟨selected, hselect, hok⟩ := hok
  rw [except_bind_eq_ok] at hok
  obtain ⟨adj, _, hok⟩ := hok
  rw [except_bind_eq_ok] at hok
  obtain ⟨linked, hlink, hok⟩ := hok
  have hcfg : index'.cfg = linked.cfg := by
    cases candidates with
    | nil =>
        cases hok
        rfl
    | cons closest rest =>
        cases hok
        rfl
  have hlinked := linkBack_cfg rt hlink
  refine ⟨hcfg.trans hlinked, ?_⟩
  unfold selectNeighbours at hselect
  dsimp only at hselect
  split_ifs at hselect with hneg
  omega

/-- Every node but the first is linked at layer 0, which needs room for a list
there. -/
theorem linkLayers_eq_ok (rt : Runtime V D) {vec : V} {id layers ep : ℕ}
    {index index' : HNSWIndex V}
    (hok : linkLayers rt vec id (layers + 1) index ep = .ok index') :
    0 ≤ index.cfg.Mmax0.toInt := by
  induction layers generalizing index ep with
  | zero =>
      rw [linkLayers, except_bind_eq_ok] at hok
      obtain ⟨⟨linked, ep'⟩, hlink, _⟩ := hok
      exact (linkLayer_eq_ok rt hlink).2
  | succ layers ih =>
      rw [linkLayers, except_bind_eq_ok] at hok
      obtain ⟨⟨linked, ep'⟩, hlink, hok⟩ := hok
      rw [← (linkLayer_eq_ok rt hlink).1]
      exact ih hok

/-! ## The contents of an index -/

/-- The numbers of vectors that an index can hold: the ids suffice, and every
node but the first can be linked. -/
def Storable (cfg : HNSWConfig) (count : ℕ) : Prop :=
  count < 2 ^ 32 ∧ (2 ≤ count → 0 ≤ cfg.Mmax0.toInt)

theorem Storable.mono {cfg : HNSWConfig} {fewer count : ℕ}
    (h : Storable cfg count) (hle : fewer ≤ count) : Storable cfg fewer :=
  ⟨by have := h.1; omega, fun htwo => h.2 (htwo.trans hle)⟩

/-- The index is well formed and holds these vectors, in node order. -/
structure Stores (index : HNSWIndex V) (cfg : HNSWConfig) (vecs : List V) :
    Prop where
  rep : ∃ layers, RepInv index layers
  cfg_eq : index.cfg = cfg
  vectors_eq : index.vectors = vecs
  storable : Storable cfg vecs.length

theorem Accepted.new_ok {cfg : HNSWConfig} (h : Accepted cfg)
    (rng : ℕ → ℕ) : ∃ index : HNSWIndex V, new cfg rng = .ok index := by
  have hdim : ¬ cfg.dim ≤ 0 := by
    rw [Int32.le_iff_toInt_le]
    exact not_le.mpr h.dim
  have hM : ¬ cfg.M < 2 := by
    rw [Int32.lt_iff_toInt_lt]
    exact not_lt.mpr h.M
  have hef : ¬ cfg.efConstruction < 1 := by
    rw [Int32.lt_iff_toInt_lt]
    exact not_lt.mpr h.efConstruction
  have hmaxLayers : ¬ cfg.maxLayers < 1 := by
    rw [Int32.lt_iff_toInt_lt]
    exact not_lt.mpr h.maxLayers
  unfold new
  rw [if_neg hdim, if_neg hM, if_neg hef, if_neg hmaxLayers]
  exact ⟨_, rfl⟩

theorem new_stores {cfg : HNSWConfig} {rng : ℕ → ℕ} {index : HNSWIndex V}
    (hnew : new cfg rng = .ok index) : Stores index cfg [] where
  rep := ⟨[], new_repInv hnew⟩
  cfg_eq := by rw [(new_eq_ok hnew).2]
  vectors_eq := by rw [(new_eq_ok hnew).2]
  storable := ⟨by norm_num, by simp⟩

namespace Stores

variable {index index' : HNSWIndex V} {cfg : HNSWConfig} {vecs : List V}

theorem size_eq (h : Stores index cfg vecs) : index.size = vecs.length := by
  obtain ⟨layers, hrep⟩ := h.rep
  rw [size, hrep.nextId, ← hrep.vectors, h.vectors_eq]

theorem insert_ok (rt : Runtime V D) (h : Stores index cfg vecs)
    (hnext : Storable cfg (vecs.length + 1)) (vec : V) :
    ∃ index', insert rt index vec = .ok (vecs.length, index') ∧
      Stores index' cfg (vecs ++ [vec]) := by
  obtain ⟨layers, hrep⟩ := h.rep
  have hlength : layers.length = vecs.length := by
    rw [← hrep.vectors, h.vectors_eq]
  have hMmax0 : layers ≠ [] → 0 ≤ index.cfg.Mmax0.toInt := by
    intro hlayers
    have hpos := List.length_pos_iff.mpr hlayers
    rw [h.cfg_eq]
    exact hnext.2 (by omega)
  obtain ⟨index', hinsert, hrep', hvectors, hcfg, _⟩ :=
    hrep.insert_ok rt (by rw [hlength]; exact hnext.1) hMmax0 vec
  rw [hlength] at hinsert
  exact ⟨index', hinsert, ⟨_, hrep'⟩, hcfg.trans h.cfg_eq,
    by rw [hvectors, h.vectors_eq],
    by rwa [List.length_append, List.length_singleton]⟩

theorem storable_of_insert (rt : Runtime V D) (h : Stores index cfg vecs)
    {vec : V} {out : ℕ × HNSWIndex V}
    (hok : insert rt index vec = .ok out) : Storable cfg (vecs.length + 1) := by
  obtain ⟨layers, hrep⟩ := h.rep
  have hlength : layers.length = vecs.length := by
    rw [← hrep.vectors, h.vectors_eq]
  constructor
  · by_contra hroom
    have hids := hrep.nextId_lt
    rw [hrep.insert_last rt (by omega) vec] at hok
    cases hok
  · intro htwo
    have hlayers : layers ≠ [] := List.length_pos_iff.mp (by omega)
    obtain ⟨top, hmax, _, _⟩ := hrep.maxLayer_eq hlayers
    unfold insert at hok
    dsimp only at hok
    rw [if_neg (by omega), except_bind_eq_ok] at hok
    obtain ⟨ep, _, hok⟩ := hok
    rw [except_bind_eq_ok] at hok
    obtain ⟨linked, hlink, _⟩ := hok
    rw [← h.cfg_eq]
    have hMmax0 := linkLayers_eq_ok rt hlink
    exact hMmax0

theorem insert_eq_ok (rt : Runtime V D) (h : Stores index cfg vecs) {vec : V}
    {id : ℕ} (hok : insert rt index vec = .ok (id, index')) :
    id = vecs.length ∧ Stores index' cfg (vecs ++ [vec]) := by
  obtain ⟨index₁, hinsert, hstores⟩ :=
    h.insert_ok rt (h.storable_of_insert rt hok) vec
  rw [hinsert] at hok
  cases hok
  exact ⟨rfl, hstores⟩

theorem insertAll_eq_ok (rt : Runtime V D) (h : Stores index cfg vecs)
    {more : List V} (hok : insertAll rt more index = .ok index') :
    Stores index' cfg (vecs ++ more) := by
  induction more generalizing index vecs with
  | nil =>
      cases hok
      rwa [List.append_nil]
  | cons vec more ih =>
      rw [insertAll, except_bind_eq_ok] at hok
      obtain ⟨⟨id, next⟩, hinsert, hok⟩ := hok
      have hnext := (h.insert_eq_ok rt hinsert).2
      have hall := ih hnext hok
      rwa [List.append_assoc] at hall

theorem insertAll_ok (rt : Runtime V D) (h : Stores index cfg vecs)
    {more : List V} (hroom : Storable cfg (vecs.length + more.length)) :
    ∃ index', insertAll rt more index = .ok index' := by
  induction more generalizing index vecs with
  | nil => exact ⟨index, rfl⟩
  | cons vec more ih =>
      rw [List.length_cons] at hroom
      obtain ⟨next, hinsert, hnext⟩ :=
        h.insert_ok rt (hroom.mono (by omega)) vec
      obtain ⟨index', hrest⟩ := ih hnext (by
        rw [List.length_append, List.length_singleton]
        exact hroom.mono (by omega))
      refine ⟨index', ?_⟩
      rw [insertAll, hinsert]
      exact hrest

end Stores

end HNSWIndex
end VecDB
