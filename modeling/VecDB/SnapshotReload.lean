import VecDB.HnswContents
import VecDB.SnapshotRoundTrip
import Mathlib.Tactic

/-!
# The round trip of a snapshot

What a snapshot of an index loads as.  The random generator of the loaded
index is its own, and no search consults it.
-/

namespace VecDB

namespace HNSWIndex

section Search

variable {V D : Type} [LT D] [DecidableLT D] (rt : Runtime V D)

theorem greedyPass_rng (index : HNSWIndex V) (rng : ℕ → ℕ) (query : V)
    (nbrs : List ℕ) (best : ℕ × D × Bool) :
    greedyPass rt { index with rng := rng } query nbrs best =
      greedyPass rt index query nbrs best := by
  induction nbrs generalizing best with
  | nil => rfl
  | cons nbr nbrs ih =>
      simp only [greedyPass, ih]
      rfl

theorem greedyLoop_rng (index : HNSWIndex V) (rng : ℕ → ℕ) (query : V)
    (layer fuel current : ℕ) (currentDist : D) :
    greedyLoop rt { index with rng := rng } query layer fuel current
        currentDist =
      greedyLoop rt index query layer fuel current currentDist := by
  induction fuel generalizing current currentDist with
  | zero => rfl
  | succ fuel ih => simp only [greedyLoop, greedyPass_rng, ih]

theorem greedyDescent_rng (index : HNSWIndex V) (rng : ℕ → ℕ) (query : V)
    (bottom steps ep : ℕ) :
    greedyDescent rt { index with rng := rng } query bottom steps ep =
      greedyDescent rt index query bottom steps ep := by
  induction steps generalizing ep with
  | zero => rfl
  | succ steps ih =>
      simp only [greedyDescent, greedySearchLayer, greedyLoop_rng, ih]
      rfl

theorem expand_rng (index : HNSWIndex V) (rng : ℕ → ℕ) (query : V)
    (n ef : ℕ) (nbrs : List ℕ) (beam : Beam rt) :
    expand rt { index with rng := rng } query n ef nbrs beam =
      expand rt index query n ef nbrs beam := by
  induction nbrs generalizing beam with
  | nil => rfl
  | cons nbr nbrs ih =>
      simp only [expand, ih]
      rfl

theorem searchLoop_rng (index : HNSWIndex V) (rng : ℕ → ℕ) (query : V)
    (n ef layer fuel : ℕ) (beam : Beam rt) :
    searchLoop rt { index with rng := rng } query n ef layer fuel beam =
      searchLoop rt index query n ef layer fuel beam := by
  induction fuel generalizing beam with
  | zero => rfl
  | succ fuel ih => simp only [searchLoop, expand_rng, ih]

/-- No search consults the random generator. -/
theorem search_rng (index : HNSWIndex V) (rng : ℕ → ℕ) (query : V)
    (topK ef : Int32) :
    search rt { index with rng := rng } query topK ef =
      search rt index query topK ef := by
  simp only [search, greedyDescent_rng, searchLayer, searchLoop_rng]
  rfl

end Search

namespace Stores

variable {V : Type} {index : HNSWIndex V} {cfg : HNSWConfig} {vecs : List V}

theorem reloaded (h : Stores index cfg vecs) (rng : ℕ → ℕ) :
    Stores (index.reloaded rng) cfg vecs := by
  obtain ⟨layers, hrep⟩ := h.rep
  exact ⟨⟨layers, hrep.reloaded rng⟩, h.cfg_eq, h.vectors_eq, h.storable⟩

theorem entryPoint_lt (h : Stores index cfg vecs) (hne : vecs ≠ []) :
    index.entryPoint < 2 ^ 32 := by
  obtain ⟨layers, hrep⟩ := h.rep
  have hlength : layers.length = vecs.length := by
    rw [← hrep.vectors, h.vectors_eq]
  have hlayers : layers ≠ [] := by
    rw [← List.length_pos_iff, hlength]
    exact List.length_pos_iff.mpr hne
  obtain ⟨top, hentry, _⟩ := hrep.entry hlayers
  have hlt := (List.getElem?_eq_some_iff.mp hentry).1
  have hids := hrep.nextId_lt
  omega

end Stores

theorem Accepted.dim_ne_zero {cfg : HNSWConfig} (h : Accepted cfg) :
    cfg.dim.toUInt32 ≠ 0 := by
  intro hzero
  have hdim := h.dim
  have hcfg : cfg.dim = 0 := congrArg Int32.ofUInt32 hzero
  rw [hcfg] at hdim
  exact absurd hdim (by decide)

theorem reloaded_eq {V D : Type} [Preorder D] [DecidableLT D]
    (rt : Runtime V D) {cfg : HNSWConfig} {rng₀ : ℕ → ℕ} {vecs : List V}
    {start index : HNSWIndex V} (hstart : new cfg rng₀ = .ok start)
    (hinserts : insertAll rt vecs start = .ok index) (rng : ℕ → ℕ) :
    index.reloaded rng = { index with rng := rng } := by
  have hentry : index.entryPoint < 2 ^ 32 := by
    cases vecs with
    | nil =>
        cases hinserts
        rw [(new_eq_ok hstart).2]
        norm_num
    | cons vec vecs =>
        have hstores := (new_stores hstart).insertAll_eq_ok rt hinserts
        exact hstores.entryPoint_lt (by simp)
  unfold HNSWIndex.reloaded
  rw [Nat.mod_eq_of_lt hentry]

end HNSWIndex

/-- Squared distances between words, with sorted lists for the heaps. -/
def wordLine (dim : UInt32) : Runtime (Vec dim) ℕ where
  l2sq := fun a b => (List.zipWith (fun x y =>
    ((x.toNat - y.toNat) + (y.toNat - x.toNat)) ^ 2) a.words b.words).sum
  minHeap := PriorityQueue.sortedList _ _
  maxHeap := PriorityQueue.sortedList _ _
  sorter := Sorter.insertion _
  pairSorter := Sorter.insertion _

namespace Storage

open HNSWIndex

theorem mmap_of_load {dim : UInt32} {os : OS} {paths : SnapshotPaths}
    {file : ByteFile} {graph : Option (List Char)}
    {fresh index : HNSWIndex (Vec dim)}
    (hload : load os paths ⟨some file, graph⟩ fresh = .ok index) :
    os.mmap file.size = true := by
  obtain ⟨g, seg, _, _, _, hopen, _⟩ := load_eq_ok.mp hload
  unfold MmapStore.openFile at hopen
  dsimp only at hopen
  split_ifs at hopen with hsmall hmmap
  simpa using hmmap

variable {cfg : HNSWConfig}

namespace Saved

variable {files : SnapshotFiles} {saved : HNSWIndex (Vec cfg.dim.toUInt32)}
  {vecs : List (Vec cfg.dim.toUInt32)}

theorem load_eq {os : OS} (h : Saved files saved)
    (hstores : Stores saved cfg vecs)
    (hmmap : ∀ file, files.seg = some file → os.mmap file.size = true)
    {rng : ℕ → ℕ} {fresh : HNSWIndex (Vec cfg.dim.toUInt32)}
    (hnew : HNSWIndex.new cfg rng = .ok fresh) (paths : SnapshotPaths) :
    load os paths files fresh = .ok (saved.reloaded rng) := by
  obtain ⟨s, rfl, hseg⟩ := h
  obtain ⟨layers, hrep⟩ := hstores.rep
  have hcfg := hstores.cfg_eq
  have hsize : os.mmap s.mapSize = true := by
    rw [hseg.mapSize_eq]
    exact hmmap s.file rfl
  have hparse := GraphText.parseText_graphText saved "\n".toList
  rw [← GraphText.writeJsonGraph_eq] at hparse
  exact load_ok hrep (by rw [hcfg]) hseg hsize hparse (by rwa [hcfg]) paths

theorem reliable_mmap (h : Saved files saved) {file : ByteFile}
    (hfile : files.seg = some file) :
    OS.reliable.mmap file.size = true := by
  obtain ⟨s, rfl, hseg⟩ := h
  cases hfile
  have hlt := hseg.mapSize_lt
  rw [hseg.mapSize_eq] at hlt
  simpa [OS.reliable] using hlt

end Saved

/-- Saving an index and loading the files into a new one gives it back. -/
theorem snapshot_round_trip {D : Type} [Preorder D] [DecidableLT D]
    (rt : Runtime (Vec cfg.dim.toUInt32) D) {rng₀ rng : ℕ → ℕ}
    {vecs : List (Vec cfg.dim.toUInt32)}
    {start index fresh : HNSWIndex (Vec cfg.dim.toUInt32)}
    (hstart : HNSWIndex.new cfg rng₀ = .ok start)
    (hinserts : insertAll rt vecs start = .ok index)
    (hrow : cfg.dim.toUInt32.toNat * 4 ≤ MmapStore.growBytes)
    (hfresh : HNSWIndex.new cfg rng = .ok fresh)
    (paths : SnapshotPaths) (ns : ℕ) :
    ∃ files loaded, save OS.reliable paths ns index = .ok files ∧
      load OS.reliable paths files fresh = .ok loaded ∧
      loaded.size = index.size ∧
      (∀ id, loaded.getVector id = index.getVector id) ∧
      (∀ id, loaded.neighbours.layerCount id =
        index.neighbours.layerCount id) ∧
      (∀ id layer, loaded.neighbours.getNeighbours id layer =
        index.neighbours.getNeighbours id layer) ∧
      loaded.entryPoint = index.entryPoint ∧
      loaded.maxLayer = index.maxLayer ∧
      ∀ query topK ef, search rt loaded query topK ef =
        search rt index query topK ef := by
  have hstores := (new_stores hstart).insertAll_eq_ok rt hinserts
  obtain ⟨layers, hrep⟩ := hstores.rep
  have hdim := (new_eq_ok hstart).1.dim_ne_zero
  obtain ⟨files, hsave⟩ := save_ok hrep (by rw [hstores.cfg_eq]) hdim hrow
    paths ns
  have hsaved := save_eq_ok hrep (by rw [hstores.cfg_eq]) hsave
  have hload := hsaved.load_eq hstores (fun _ => hsaved.reliable_mmap) hfresh
    paths
  rw [reloaded_eq rt hstart hinserts rng] at hload
  refine ⟨files, _, hsave, hload, rfl, fun _ => rfl, fun _ => rfl,
    fun _ _ => rfl, rfl, rfl, ?_⟩
  intro query topK ef
  exact search_rng rt index rng query topK ef

theorem snapshot_round_trip_smallConfig :
    ∃ start index fresh : HNSWIndex (Vec smallConfig.dim.toUInt32),
      HNSWIndex.new smallConfig (fun i => i) = .ok start ∧
      insertAll (wordLine _) [Vec.ofBytes _ [1, 0, 0, 0],
        Vec.ofBytes _ [2, 0, 0, 0], Vec.ofBytes _ [3, 0, 0, 0]] start =
        .ok index ∧
      HNSWIndex.new smallConfig (fun _ => 0) = .ok fresh ∧
      ∃ files loaded,
        save OS.reliable (makePaths "data" 0) 0 index = .ok files ∧
        load OS.reliable (makePaths "data" 0) files fresh = .ok loaded ∧
        ∀ query topK ef, search (wordLine _) loaded query topK ef =
          search (wordLine _) index query topK ef := by
  have hnew (rng : ℕ → ℕ) :
      ∃ index : HNSWIndex (Vec smallConfig.dim.toUInt32),
        HNSWIndex.new smallConfig rng = .ok index := ⟨_, rfl⟩
  obtain ⟨start, hstart⟩ := hnew fun i => i
  obtain ⟨fresh, hfresh⟩ := hnew fun _ => 0
  have hroom : Storable smallConfig
      (([] : List (Vec smallConfig.dim.toUInt32)).length +
        [Vec.ofBytes smallConfig.dim.toUInt32 [1, 0, 0, 0],
          Vec.ofBytes _ [2, 0, 0, 0], Vec.ofBytes _ [3, 0, 0, 0]].length) :=
    ⟨by norm_num, fun _ => by decide⟩
  obtain ⟨index, hinserts⟩ :=
    (new_stores hstart).insertAll_ok (wordLine _) hroom
  obtain ⟨files, loaded, hsave, hload, _, _, _, _, _, _, hsearch⟩ :=
    snapshot_round_trip (wordLine _) hstart hinserts (by decide) hfresh
      (makePaths "data" 0) 0
  exact ⟨start, index, fresh, hstart, hinserts, hfresh, files, loaded, hsave,
    hload, hsearch⟩

end Storage
end VecDB
