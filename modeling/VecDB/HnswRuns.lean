import VecDB.HnswInvariant
import Mathlib.Tactic

/-!
# Runs of insertions

Every run of insertions into a new index keeps the representation invariant,
with the layers that the generator gave as its ghost state, until the ids run
out.  Insertions and searches on such an index make no access out of range.
-/

namespace VecDB
namespace HNSWIndex

variable {V D : Type}

theorem new_eq_ok {cfg : HNSWConfig} {rng : ℕ → ℕ} {index : HNSWIndex V}
    (hnew : new cfg rng = .ok index) : Accepted cfg ∧ index = {
      cfg := cfg
      vectors := []
      neighbours := []
      entryPoint := 0
      maxLayer := -1
      nextId := 0
      rng := rng } := by
  unfold new at hnew
  split_ifs at hnew with hdim hM hef hmaxLayers
  refine ⟨?_, (Except.ok.inj hnew).symm⟩
  rw [Int32.le_iff_toInt_le] at hdim
  rw [Int32.lt_iff_toInt_lt] at hM hef hmaxLayers
  exact {
    dim := not_le.mp hdim
    M := not_lt.mp hM
    efConstruction := not_lt.mp hef
    maxLayers := not_lt.mp hmaxLayers }

variable [Preorder D] [DecidableLT D]

theorem new_repInv {cfg : HNSWConfig} {rng : ℕ → ℕ} {index : HNSWIndex V}
    (hnew : new cfg rng = .ok index) : RepInv index [] := by
  obtain ⟨haccepted, rfl⟩ := new_eq_ok hnew
  exact {
    accepted := haccepted
    nextId := rfl
    nextId_lt := by norm_num
    vectors := rfl
    layer_lt := by simp
    empty := fun _ => rfl
    entry := fun hne => absurd rfl hne
    graph := {
      shaped := ⟨rfl, by simp⟩
      list := by
        intro i layer
        have hempty : NeighbourStore.getNeighbours [] i layer = [] := by
          simp [NeighbourStore.getNeighbours]
        rw [hempty]
        exact {
          nodup := List.nodup_nil
          not_self := List.not_mem_nil
          members := by simp
          owner := fun hne => absurd rfl hne
          length_le := Nat.zero_le _ } } }

def insertAll (rt : Runtime V D) :
    List V → HNSWIndex V → Except Failure (HNSWIndex V)
  | [], index => .ok index
  | vec :: vecs, index => do
      let (_, index) ← insert rt index vec
      insertAll rt vecs index

theorem insertAll_append (rt : Runtime V D) (first second : List V)
    (index : HNSWIndex V) :
    insertAll rt (first ++ second) index =
      insertAll rt first index >>= insertAll rt second := by
  induction first generalizing index with
  | nil => rfl
  | cons vec first ih =>
      rw [List.cons_append, insertAll, insertAll]
      cases insert rt index vec with
      | error e => rfl
      | ok next => exact ih next.2

/-- The layers a generator gives to `count` nodes. -/
def sampledLayers (cfg : HNSWConfig) (rng : ℕ → ℕ) (count : ℕ) : List ℕ :=
  (List.range count).map fun i => min (rng i) (cfg.maxLayers.toInt - 1).toNat

theorem sampledLayers_succ (cfg : HNSWConfig) (rng : ℕ → ℕ) (count : ℕ) :
    sampledLayers cfg rng (count + 1) = sampledLayers cfg rng count ++
      [min (rng count) (cfg.maxLayers.toInt - 1).toNat] := by
  simp [sampledLayers, List.range_succ]

theorem RepInv.insertAll_ok (rt : Runtime V D) {index : HNSWIndex V}
    {cfg : HNSWConfig} {rng : ℕ → ℕ} {count : ℕ}
    (h : RepInv index (sampledLayers cfg rng count)) (hcfg : index.cfg = cfg)
    (hrng : index.rng = fun i => rng (i + count))
    (hMmax0 : 0 ≤ cfg.Mmax0.toInt) (vecs : List V)
    (hroom : count + vecs.length < 2 ^ 32) :
    ∃ index', insertAll rt vecs index = .ok index' ∧
      RepInv index' (sampledLayers cfg rng (count + vecs.length)) ∧
      index'.vectors = index.vectors ++ vecs ∧ index'.cfg = cfg := by
  induction vecs generalizing index count with
  | nil =>
      refine ⟨index, rfl, by simpa using h, by simp, hcfg⟩
  | cons vec vecs ih =>
      rw [List.length_cons] at hroom ⊢
      have hlength : (sampledLayers cfg rng count).length = count := by
        simp [sampledLayers]
      obtain ⟨next, hinsert, hnext, hvectors, hcfg', hrng', _⟩ :=
        h.insert_ok rt (by omega) (fun _ => by rwa [hcfg]) vec
      have hsample : index.sampleLayer =
          min (rng count) (cfg.maxLayers.toInt - 1).toNat := by
        rw [sampleLayer, hrng, hcfg]
        dsimp only
        rw [Nat.zero_add]
      rw [hsample, ← sampledLayers_succ] at hnext
      obtain ⟨last, hrun, hlast, hall, hlastCfg⟩ := ih hnext
        (hcfg'.trans hcfg)
        (by
          rw [hrng', hrng]
          funext i
          exact congrArg rng (by omega)) (by omega)
      refine ⟨last, ?_, ?_, ?_, hlastCfg⟩
      · rw [insertAll, hinsert]
        exact hrun
      · rwa [show count + (vecs.length + 1) = count + 1 + vecs.length by omega]
      · rw [hall, hvectors, List.append_assoc]
        rfl

/-- A search descends to a node of layer 0 and returns what the beam search
from there finds. -/
theorem RepInv.search_ok (rt : Runtime V D) {index : HNSWIndex V}
    {layers : List ℕ} (h : RepInv index layers) (hlayers : layers ≠ [])
    (query : V) (topK ef : Int32) :
    ∃ ep out, greedyDescent rt index query 0 index.maxLayer.toNat
        index.entryPoint = .ok ep ∧ AtLayer layers 0 ep ∧
      Found rt index query (if ef < topK then topK else ef)
        (Relation.ReflTransGen (Link index 0) ep) out ∧
      (index.nextId ≤ toSizeT (if ef < topK then topK else ef) →
        ∀ i, Relation.ReflTransGen (Link index 0) ep i → i ∈ ids out) ∧
      search rt index query topK ef =
        if topK.toInt < out.length then
          if topK.toInt < 0 then .error .lengthError
          else .ok (out.take topK.toInt.toNat)
        else .ok out := by
  obtain ⟨top, hmax, _, hentry⟩ := h.maxLayer_eq hlayers
  have hclosed := h.closed index h.vectors.ge fun _ _ => rfl
  obtain ⟨ep, hrun, hep⟩ := greedyDescent_ok rt query hclosed 0 top
    index.entryPoint (by rwa [Nat.zero_add])
  have hids : ∀ i, Relation.ReflTransGen (Link index 0) ep i →
      i < index.nextId := by
    intro i hreach
    rw [h.nextId]
    exact ((hclosed 0).reachable hep hreach).lt
  obtain ⟨out, hsearch, hfound, hcomplete⟩ := searchLayer_ok rt
    ((hclosed 0).component hep) hids Relation.ReflTransGen.refl query
    (if ef < topK then topK else ef)
  refine ⟨ep, out, ?_, hep, hfound, hcomplete, ?_⟩
  · rw [hmax, Int.toNat_natCast]
    exact hrun
  · rw [search, if_neg (by omega), hmax, Int.toNat_natCast]
    change (greedyDescent rt index query 0 top index.entryPoint >>= _) = _
    rw [hrun]
    change (searchLayer rt index ep query _ 0 >>= _) = _
    rw [hsearch]
    change (if topK.toInt < out.length then _ else _) = _
    split_ifs with hlong hneg
    · rfl
    · rfl
    · rfl

theorem RepInv.search_returns (rt : Runtime V D) {index : HNSWIndex V}
    {layers : List ℕ} (h : RepInv index layers) (query : V)
    (topK ef : Int32) :
    (∃ out, search rt index query topK ef = .ok out) ∨
      topK.toInt < 0 ∧ search rt index query topK ef = .error .lengthError := by
  by_cases hlayers : layers = []
  · have hempty := h.empty hlayers
    refine Or.inl ⟨[], ?_⟩
    rw [search, if_pos (by omega)]
    rfl
  · obtain ⟨ep, out, _, _, _, _, hsearch⟩ :=
      h.search_ok rt hlayers query topK ef
    rw [hsearch]
    by_cases hlong : topK.toInt < out.length
    · rw [if_pos hlong]
      by_cases hneg : topK.toInt < 0
      · rw [if_pos hneg]
        exact Or.inr ⟨hneg, rfl⟩
      · rw [if_neg hneg]
        exact Or.inl ⟨_, rfl⟩
    · rw [if_neg hlong]
      exact Or.inl ⟨_, rfl⟩

theorem insertAll_new (rt : Runtime V D) {cfg : HNSWConfig} {rng : ℕ → ℕ}
    {index₀ : HNSWIndex V} (hnew : new cfg rng = .ok index₀)
    (hMmax0 : 0 ≤ cfg.Mmax0.toInt) (vecs : List V)
    (hids : vecs.length < 2 ^ 32) :
    ∃ index, insertAll rt vecs index₀ = .ok index ∧
      RepInv index (sampledLayers cfg rng vecs.length) ∧
      index.vectors = vecs ∧ index.cfg = cfg := by
  have hcfg : index₀.cfg = cfg := by rw [(new_eq_ok hnew).2]
  have hrng : index₀.rng = fun i => rng (i + 0) := by
    rw [(new_eq_ok hnew).2]
    rfl
  have hvectors : index₀.vectors = [] := by rw [(new_eq_ok hnew).2]
  have hinv : RepInv index₀ (sampledLayers cfg rng 0) := new_repInv hnew
  obtain ⟨index, hrun, hrep, hall, hcfg'⟩ := hinv.insertAll_ok rt hcfg hrng
    hMmax0 vecs (by rwa [Nat.zero_add])
  rw [Nat.zero_add] at hrep
  rw [hvectors, List.nil_append] at hall
  exact ⟨index, hrun, hrep, hall, hcfg'⟩

/-- After every run of insertions that the ids suffice for, the index is well
formed: the sampled layers bound every list, the entry point is a node of the
highest layer it records, and the next insertion and every search stay in
range. -/
theorem representation_invariant (rt : Runtime V D) {cfg : HNSWConfig}
    {rng : ℕ → ℕ} {index₀ : HNSWIndex V} (hnew : new cfg rng = .ok index₀)
    (hMmax0 : 1 ≤ cfg.Mmax0.toInt) (vecs : List V)
    (hids : vecs.length < 2 ^ 32) :
    ∃ index, insertAll rt vecs index₀ = .ok index ∧
      RepInv index (sampledLayers cfg rng vecs.length) ∧ index.cfg = cfg ∧
      index.size = vecs.length ∧ (index.maxLayer = -1 ↔ index.size = 0) ∧
      index.maxLayer < cfg.maxLayers.toInt ∧
      (∀ i vec, vecs[i]? = some vec → index.getVector i = .ok vec) ∧
      (vecs.length + 1 < 2 ^ 32 → ∀ vec, ∃ next,
        insert rt index vec = .ok (vecs.length, next)) ∧
      ∀ query topK ef, (∃ out, search rt index query topK ef = .ok out) ∨
        topK.toInt < 0 ∧
          search rt index query topK ef = .error .lengthError := by
  obtain ⟨index, hrun, hrep, hvectors, hcfg⟩ :=
    insertAll_new rt hnew (by omega) vecs hids
  have hlength : (sampledLayers cfg rng vecs.length).length = vecs.length := by
    simp [sampledLayers]
  have hsize : index.size = vecs.length := hrep.nextId.trans hlength
  have hmaxLayers := hrep.accepted.maxLayers
  rw [hcfg] at hmaxLayers
  refine ⟨index, hrun, hrep, hcfg, hsize, ?_, ?_, ?_, ?_,
    hrep.search_returns rt⟩
  · by_cases hempty : sampledLayers cfg rng vecs.length = []
    · rw [hempty] at hlength
      rw [hsize, ← hlength]
      exact ⟨fun _ => rfl, fun _ => hrep.empty hempty⟩
    · obtain ⟨top, hmax, _⟩ := hrep.maxLayer_eq hempty
      have hpos := List.length_pos_iff.mpr hempty
      rw [hmax, hsize]
      omega
  · by_cases hempty : sampledLayers cfg rng vecs.length = []
    · rw [hrep.empty hempty]
      omega
    · obtain ⟨top, hmax, htop, _⟩ := hrep.maxLayer_eq hempty
      rwa [hmax, ← hcfg]
  · intro i vec hvec
    exact getVector_eq_ok.mpr (by rwa [hvectors])
  · intro hroom vec
    obtain ⟨next, hinsert, _⟩ := hrep.insert_ok rt (by rwa [hlength])
      (fun _ => by rw [hcfg]; omega) vec
    rw [hlength] at hinsert
    exact ⟨next, hinsert⟩

/-- The insertion that takes the last id fails. -/
theorem insertAll_last (rt : Runtime V D) {cfg : HNSWConfig} {rng : ℕ → ℕ}
    {index₀ : HNSWIndex V} (hnew : new cfg rng = .ok index₀)
    (hMmax0 : 0 ≤ cfg.Mmax0.toInt) {vecs : List V}
    (hlength : vecs.length + 1 = 2 ^ 32) (last : V) :
    insertAll rt (vecs ++ [last]) index₀ = .error .accessViolation := by
  obtain ⟨index, hrun, hrep, _⟩ :=
    insertAll_new rt hnew hMmax0 vecs (by omega)
  have hlast := hrep.insert_last rt
    (by simpa [sampledLayers] using hlength) last
  rw [insertAll_append, hrun]
  change insertAll rt [last] index = _
  rw [insertAll, hlast]
  rfl

/-- Points on a line, with sorted lists for the heaps. -/
def numberLine : Runtime ℕ ℕ where
  l2sq := fun a b => ((a - b) + (b - a)) ^ 2
  minHeap := PriorityQueue.sortedList _ _
  maxHeap := PriorityQueue.sortedList _ _
  sorter := Sorter.insertion _
  pairSorter := Sorter.insertion _

def smallConfig : HNSWConfig where
  dim := 1
  M := 2
  Mmax0 := 2
  efConstruction := 10
  maxLayers := 2

theorem new_smallConfig (rng : ℕ → ℕ) :
    ∃ index : HNSWIndex ℕ, new smallConfig rng = .ok index :=
  ⟨_, rfl⟩

/-- With `2 ^ 32` insertions the ids do not suffice. -/
theorem ids_run_out :
    ∃ index₀ : HNSWIndex ℕ, new smallConfig (fun _ => 0) = .ok index₀ ∧
      insertAll numberLine (List.replicate (2 ^ 32 - 1) 0 ++ [0]) index₀ =
        .error .accessViolation := by
  obtain ⟨index₀, hnew⟩ := new_smallConfig fun _ => 0
  refine ⟨index₀, hnew, insertAll_last numberLine hnew (by decide) ?_ 0⟩
  rw [List.length_replicate]
  norm_num

theorem representation_invariant_smallConfig :
    ∃ index₀ index : HNSWIndex ℕ,
      new smallConfig (fun i => i) = .ok index₀ ∧
      insertAll numberLine [0, 1, 2, 100] index₀ = .ok index ∧
      RepInv index [0, 1, 1, 1] ∧ index.getVector 3 = .ok 100 := by
  obtain ⟨index₀, hnew⟩ := new_smallConfig fun i => i
  obtain ⟨index, hrun, hrep, _, _, _, _, hget, _⟩ :=
    representation_invariant numberLine hnew (by decide) [0, 1, 2, 100]
      (by decide)
  exact ⟨index₀, index, hnew, hrun, hrep, hget 3 100 rfl⟩

end HNSWIndex
end VecDB
