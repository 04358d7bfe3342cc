import VecDB.GraphPrefix
import VecDB.HnswRuns
import VecDB.SegmentInvariant
import VecDB.Snapshot
import Mathlib.Tactic

/-!
# Loading what was saved

A saved index is read back node by node: the segment gives the vectors, the
graph the lists, the entry point and the top layer.  Only the random generator
of the loaded index is new.
-/

namespace VecDB

theorem mapM_range_ok {α : Type} {f : ℕ → Except Failure α} (xs : List α)
    (hf : ∀ i x, xs[i]? = some x → f i = .ok x) :
    (List.range xs.length).mapM f = .ok xs := by
  induction xs using List.reverseRecOn with
  | nil => rfl
  | append_singleton xs x ih =>
      have hxs := ih (fun i y hy => hf i y (by
        rw [List.getElem?_append_left (List.getElem?_eq_some_iff.mp hy).1]
        exact hy))
      have hx := hf xs.length x (by simp)
      rw [List.length_append, List.length_singleton, List.range_succ,
        List.mapM_append, hxs, List.mapM_cons, hx]
      rfl

namespace HNSWIndex

open GraphText

/-! ## The lists -/

theorem modify_length {α : Type} (before after : List α) (x : α)
    (f : α → α) :
    (before ++ x :: after).modify before.length f = before ++ f x :: after := by
  induction before with
  | nil => rfl
  | cons y before ih =>
      rw [List.cons_append, List.length_cons, List.modify_succ_cons, ih]
      rfl

theorem setNeighbours_middle (done rest : NeighbourStore)
    (before after : List (List ℕ)) (slot nbrs : List ℕ) :
    NeighbourStore.setNeighbours (done ++ (before ++ slot :: after) :: rest)
        done.length before.length nbrs =
      .ok (done ++ (before ++ [nbrs] ++ after) :: rest) := by
  unfold NeighbourStore.setNeighbours
  rw [if_pos (by simp [List.getD_eq_getElem?_getD]), modify_length]
  simp

theorem restoreLists_ok (done rest : NeighbourStore)
    (before : List (List ℕ)) {after : List (List ℕ)}
    {lists : List (List UInt32)} (hlength : lists.length ≤ after.length) :
    restoreLists done.length before.length lists
        (done ++ (before ++ after) :: rest) =
      .ok (done ++ (before ++ (lists.map (List.map UInt32.toNat) ++
        after.drop lists.length)) :: rest) := by
  induction lists generalizing before after with
  | nil => rfl
  | cons list lists ih =>
      cases after with
      | nil => simp at hlength
      | cons slot after =>
          have hlength' : lists.length ≤ after.length := by simpa using hlength
          have hrest := ih (before ++ [list.map UInt32.toNat]) hlength'
          rw [List.length_append, List.length_singleton] at hrest
          rw [restoreLists, setNeighbours_middle, except_bind_ok, hrest]
          simp

/-- The lists of a node, and empty ones up to the number of slots. -/
def padded (slots : ℕ) (lists : List (List UInt32)) : List (List ℕ) :=
  lists.map (List.map UInt32.toNat) ++
    List.replicate (slots - lists.length) []

/-- A node whose lists fit its slots is restored. -/
theorem restoreNodes_cons (done : NeighbourStore) {slots count : ℕ}
    {lists : List (List UInt32)} {adj : List (List (List UInt32))}
    (hfits : lists.length ≤ slots) :
    restoreNodes done.length (lists :: adj)
        (done ++ List.replicate (count + 1) (List.replicate slots [])) =
      restoreNodes (done ++ [padded slots lists]).length adj
        (done ++ [padded slots lists] ++
          List.replicate count (List.replicate slots [])) := by
  have hlength : lists.length ≤
      (List.replicate slots ([] : List ℕ)).length := by
    rwa [List.length_replicate]
  have hlists := restoreLists_ok done
    (List.replicate count (List.replicate slots [])) [] hlength
  simp only [List.length_nil, List.nil_append, List.drop_replicate] at hlists
  rw [restoreNodes, List.replicate_succ, hlists, except_bind_ok,
    List.length_append, List.length_singleton, List.append_assoc,
    List.singleton_append]
  rfl

theorem restoreNodes_ok (done : NeighbourStore) {slots count : ℕ}
    {adj : List (List (List UInt32))}
    (hslots : ∀ lists ∈ adj, lists.length ≤ slots)
    (hcount : adj.length ≤ count) :
    restoreNodes done.length adj
        (done ++ List.replicate count (List.replicate slots [])) =
      .ok (done ++ (adj.map (padded slots) ++
        List.replicate (count - adj.length) (List.replicate slots []))) := by
  induction adj generalizing done count with
  | nil => rfl
  | cons lists adj ih =>
      cases count with
      | zero => simp at hcount
      | succ count =>
          have hrest := ih (done ++ [padded slots lists])
            (fun other hother =>
              hslots other (List.mem_cons_of_mem lists hother))
            (by simpa using hcount)
          rw [restoreNodes_cons done (hslots lists List.mem_cons_self), hrest,
            List.map_cons, List.length_cons, Nat.add_sub_add_right]
          simp

theorem padded_of_length {slots : ℕ} {lists : List (List UInt32)}
    (hlength : lists.length = slots) :
    padded slots lists = lists.map (List.map UInt32.toNat) := by
  simp [padded, hlength]

theorem resize_nil (count : ℕ) (maxLayers : Int32) :
    NeighbourStore.resize [] count maxLayers =
      List.replicate count (List.replicate maxLayers.toInt.toNat []) := by
  unfold NeighbourStore.resize
  split_ifs with hempty
  · rw [Nat.eq_zero_of_le_zero hempty]
    rfl
  · rfl

theorem map_ofNat_toNat {l : List ℕ} (hl : ∀ i ∈ l, i < 2 ^ 32) :
    (l.map UInt32.ofNat).map UInt32.toNat = l := by
  rw [List.map_map]
  calc
    l.map (UInt32.toNat ∘ UInt32.ofNat) = l.map id :=
      List.map_congr_left fun i hi => UInt32.toNat_ofNat_of_lt' (hl i hi)
    _ = l := List.map_id l

theorem nodeLists_eq {V : Type} (index : HNSWIndex V) (node : ℕ) :
    nodeLists index node = index.neighbours.getD node [] := by
  apply List.ext_getElem
  · simp [nodeLists, layerCountFor, NeighbourStore.layerCount]
  · intro l hl hl'
    simp only [nodeLists, neighboursAt, NeighbourStore.getNeighbours,
      List.getElem_map, List.getElem_range]
    exact List.getD_eq_getElem _ _ hl'

section Restored

variable {V : Type} {index : HNSWIndex V} {layers : List ℕ}

theorem RepInv.nodeAdj_toNat (h : RepInv index layers) (node : ℕ) :
    (nodeAdj index node).map (List.map UInt32.toNat) =
      index.neighbours.getD node [] := by
  unfold nodeAdj
  rw [List.map_map]
  calc
    (nodeLists index node).map (List.map UInt32.toNat ∘
          fun nbrs => nbrs.map UInt32.ofNat) =
        (nodeLists index node).map id := by
      apply List.map_congr_left
      intro nbrs hnbrs
      obtain ⟨l, _, rfl⟩ := List.mem_map.mp hnbrs
      apply map_ofNat_toNat
      intro i hi
      have hlt := ((h.graph.list node l).members i hi).lt
      have hids := h.nextId_lt
      omega
    _ = index.neighbours.getD node [] := by
      rw [List.map_id, nodeLists_eq]

theorem RepInv.adj_toNat (h : RepInv index layers) :
    (graphOf index).adj.map (List.map (List.map UInt32.toNat)) =
      index.neighbours := by
  have hlength := h.graph.shaped.length_eq
  unfold graphOf
  dsimp only
  rw [List.map_map]
  apply List.ext_getElem
  · rw [List.length_map, List.length_range, HNSWIndex.size, h.nextId, hlength]
  · intro node hnode hnode'
    rw [List.getElem_map, List.getElem_range, Function.comp_apply,
      h.nodeAdj_toNat, List.getD_eq_getElem _ _ hnode']

theorem RepInv.restoreNodes_ok (h : RepInv index layers) :
    restoreNodes 0 ((graphOf index).adj.take layers.length)
      (NeighbourStore.resize [] layers.length index.cfg.maxLayers) =
      .ok index.neighbours := by
  have hlength := h.graph.shaped.length_eq
  have htake : (graphOf index).adj.take layers.length =
      (graphOf index).adj := by
    apply List.take_of_length_le
    simp [graphOf, HNSWIndex.size, h.nextId]
  have hslots : ∀ lists ∈ (graphOf index).adj,
      lists.length = index.cfg.maxLayers.toInt.toNat := by
    intro lists hlists
    obtain ⟨node, hnode, rfl⟩ := List.mem_map.mp hlists
    have hlt : node < layers.length := by
      rw [← h.nextId]
      exact List.mem_range.mp hnode
    rw [nodeAdj, List.length_map, nodeLists_eq,
      h.graph.shaped.getD_length hlt]
  have hcount : (graphOf index).adj.length = layers.length := by
    simp [graphOf, HNSWIndex.size, h.nextId]
  have hrestore := HNSWIndex.restoreNodes_ok []
    (fun lists hlists => (hslots lists hlists).le) hcount.le
  have hpadded : (graphOf index).adj.map
      (padded index.cfg.maxLayers.toInt.toNat) =
      (graphOf index).adj.map (List.map (List.map UInt32.toNat)) :=
    List.map_congr_left fun lists hlists =>
      padded_of_length (hslots lists hlists)
  simp only [List.length_nil, List.nil_append, hcount, Nat.sub_self,
    List.replicate_zero, List.append_nil, hpadded] at hrestore
  rw [htake, resize_nil, hrestore, h.adj_toNat]

theorem RepInv.maxLayer_toInt (h : RepInv index layers) :
    (Int32.ofInt index.maxLayer).toInt = index.maxLayer := by
  have hmaxLayers := h.accepted.maxLayers
  have hbound := index.cfg.maxLayers.toInt_lt
  have hrange : -1 ≤ index.maxLayer ∧
      index.maxLayer < index.cfg.maxLayers.toInt := by
    by_cases hempty : layers = []
    · rw [h.empty hempty]
      omega
    · obtain ⟨top, hmax, htop, _⟩ := h.maxLayer_eq hempty
      omega
  apply Int32.toInt_ofInt_of_le
  · omega
  · omega

/-- The index that is loaded from a snapshot of `index`. -/
def reloaded (index : HNSWIndex V) (rng : ℕ → ℕ) : HNSWIndex V :=
  { index with entryPoint := index.entryPoint % 2 ^ 32, rng := rng }

theorem RepInv.reloaded (h : RepInv index layers) (rng : ℕ → ℕ) :
    RepInv (index.reloaded rng) layers where
  accepted := h.accepted
  nextId := h.nextId
  nextId_lt := h.nextId_lt
  vectors := h.vectors
  layer_lt := h.layer_lt
  empty := h.empty
  entry := by
    intro hlayers
    obtain ⟨top, hentry, hmax⟩ := h.entry hlayers
    have hlt := (List.getElem?_eq_some_iff.mp hentry).1
    have hids := h.nextId_lt
    refine ⟨top, ?_, hmax⟩
    rw [HNSWIndex.reloaded, Nat.mod_eq_of_lt (by omega)]
    exact hentry
  graph := h.graph

end Restored

/-! ## The vectors -/

section Vectors

variable {dim : UInt32} {index : HNSWIndex (Vec dim)} {layers : List ℕ}

theorem RepInv.getVectors (h : RepInv index layers) :
    (List.range index.size).mapM index.getVector = .ok index.vectors := by
  rw [HNSWIndex.size, h.nextId, ← h.vectors]
  apply mapM_range_ok
  intro i vec hvec
  exact getVector_eq_ok.mpr hvec

theorem copyVectors_ok {s : MmapStore} {vecs : List (Vec dim)}
    (hseg : MmapStore.Holds s vecs) :
    (List.range s.vecCount).mapM (copyVector dim s) = .ok vecs := by
  rw [hseg.vecCount]
  apply mapM_range_ok
  intro i vec hvec
  obtain ⟨hget, hread⟩ := hseg.readAt_get hvec
  rw [copyVector, hget, except_bind_ok, hread, except_bind_ok,
    Vec.ofBytes_bytes]
  rfl

end Vectors

end HNSWIndex

/-! ## The files -/

namespace Storage

open GraphText HNSWIndex

variable {dim : UInt32} {index : HNSWIndex (Vec dim)} {layers : List ℕ}

theorem parseJsonGraph_eq_ok {path : String} {content : Option (List Char)}
    {g : JsonGraph} :
    parseJsonGraph path content = .ok g ↔
      ∃ text r, content = some text ∧ parseText text = .ok (g, r) := by
  cases content with
  | none => simp [parseJsonGraph]
  | some text =>
      simp only [parseJsonGraph, except_bind_eq_ok, Option.some.injEq]
      constructor
      · rintro ⟨⟨g', r⟩, hparse, hg⟩
        cases hg
        exact ⟨text, r, rfl, hparse⟩
      · rintro ⟨_, r, rfl, hparse⟩
        exact ⟨(g, r), hparse, rfl⟩

theorem load_eq_ok {os : OS} {paths : SnapshotPaths} {files : SnapshotFiles}
    {fresh index' : HNSWIndex (Vec dim)} :
    load os paths files fresh = .ok index' ↔
      ∃ g seg, parseJsonGraph paths.graph files.graph = .ok g ∧
        g.version = 1 ∧ g.dim = fresh.cfg.dim ∧
        MmapStore.openFile os paths.seg files.seg = .ok seg ∧
        seg.dim = g.dim.toUInt32 ∧ seg.vecCount = g.vecCount.toNat ∧
        fresh.loadFromSnapshot seg g.adj g.entryPoint g.maxLayer =
          .ok index' := by
  rw [load, except_bind_eq_ok]
  constructor
  · rintro ⟨g, hgraph, hload⟩
    split_ifs at hload with hversion hdim
    rw [except_bind_eq_ok] at hload
    obtain ⟨seg, hopen, hload⟩ := hload
    split_ifs at hload with hsegDim hcount
    exact ⟨g, seg, hgraph, not_not.mp hversion, not_not.mp hdim, hopen,
      not_not.mp hsegDim, not_not.mp hcount, hload⟩
  · rintro ⟨g, seg, hgraph, hversion, hdim, hopen, hsegDim, hcount, hload⟩
    refine ⟨g, hgraph, ?_⟩
    rw [if_neg (not_not.mpr hversion), if_neg (not_not.mpr hdim), hopen,
      except_bind_ok, if_neg (not_not.mpr hsegDim),
      if_neg (not_not.mpr hcount), hload]

theorem load_ok {os : OS} (h : RepInv index layers)
    (hdim : index.cfg.dim.toUInt32 = dim) {s : MmapStore}
    (hseg : MmapStore.Holds s index.vectors)
    (hmmap : os.mmap s.mapSize = true) {text r : List Char}
    (hparse : parseText text = .ok (graphOf index, r)) {rng : ℕ → ℕ}
    {fresh : HNSWIndex (Vec dim)} (hnew : new index.cfg rng = .ok fresh)
    (paths : SnapshotPaths) :
    load os paths ⟨some s.file, some text⟩ fresh =
      .ok (index.reloaded rng) := by
  obtain ⟨_, rfl⟩ := new_eq_ok hnew
  have hcount : s.vecCount = layers.length := by
    rw [hseg.vecCount, h.vectors]
  have hvecCount : (graphOf index).vecCount.toNat = layers.length := by
    have hlt := h.nextId_lt
    unfold graphOf HNSWIndex.size
    dsimp only
    rw [h.nextId, UInt32.toNat_ofNat_of_lt' hlt]
  have hvectors := copyVectors_ok hseg
  rw [hcount] at hvectors
  have hentry : (graphOf index).entryPoint.toNat =
      index.entryPoint % 2 ^ 32 := by
    unfold graphOf
    dsimp only
    rw [UInt32.toNat_ofNat']
  have hmax : (graphOf index).maxLayer.toInt = index.maxLayer :=
    h.maxLayer_toInt
  apply load_eq_ok.mpr
  refine ⟨graphOf index, s, parseJsonGraph_eq_ok.mpr ⟨text, r, rfl, hparse⟩,
    rfl, rfl, hseg.openFile_eq paths.seg hmmap, hseg.dim_eq.trans hdim.symm,
    hcount.trans hvecCount.symm, ?_⟩
  rw [loadFromSnapshot]
  dsimp only
  rw [hcount, hvectors, except_bind_ok, h.restoreNodes_ok, except_bind_ok,
    hentry, hmax, ← h.nextId]
  rfl

theorem appendVectors_eq_ok {os : OS} {s s' : MmapStore}
    {vecs more : List (Vec dim)} (hseg : MmapStore.Holds s vecs)
    (hcount : vecs.length + more.length < 2 ^ 32)
    (hok : (appendVectors os more).run s = .ok () s') :
    MmapStore.Holds s' (vecs ++ more) := by
  induction more generalizing s vecs with
  | nil =>
      cases hok
      rwa [List.append_nil]
  | cons vec more ih =>
      rw [List.length_cons] at hcount
      rw [appendVectors, bind_eq_ok] at hok
      obtain ⟨id, s₁, happend, hrest⟩ := hok
      obtain ⟨_, _, hnext⟩ := hseg.append_eq_ok (by omega) happend
      have hall := ih hnext (by simp; omega) hrest
      rwa [List.append_assoc] at hall

theorem appendVectors_ok (more : List (Vec dim)) {s : MmapStore}
    {vecs : List (Vec dim)} (hseg : MmapStore.Holds s vecs)
    (hcount : vecs.length + more.length < 2 ^ 32)
    (hdim : dim.toNat * 4 ≤ MmapStore.growBytes)
    (hsize : s.mapSize + more.length * MmapStore.growBytes < 2 ^ 63) :
    ∃ s', (appendVectors OS.reliable more).run s = .ok () s' := by
  induction more generalizing s vecs with
  | nil => exact ⟨s, rfl⟩
  | cons vec more ih =>
      rw [List.length_cons] at hcount hsize
      have hgrows : s.mapSize + MmapStore.growBytes < 2 ^ 63 := by
        rw [Nat.add_mul] at hsize
        omega
      have hreserve : (MmapStore.reserve OS.reliable).run s =
          .ok () (MmapStore.roomy s) := by
        apply MmapStore.reserve_run hseg.mapped
        · rw [hseg.vecCount]
          omega
        · simpa [OS.reliable] using hgrows
        · simpa [OS.reliable] using hgrows
      have happend := hseg.append_run (by omega) hreserve vec (hseg.room hdim)
      have hnext := (hseg.append_eq_ok (by omega) happend).2.2
      have hroomy : (MmapStore.appended s vec.bytes).mapSize ≤
          s.mapSize + MmapStore.growBytes := by
        unfold MmapStore.appended MmapStore.roomy
        split_ifs
        · exact le_rfl
        · exact Nat.le_add_right _ _
      obtain ⟨s', hrest⟩ := ih hnext (by simp; omega)
        (by rw [Nat.add_mul] at hsize; omega)
      refine ⟨s', ?_⟩
      rw [appendVectors, bind_of_ok happend]
      exact hrest

/-- The two files hold a snapshot of the index. -/
def Saved (files : SnapshotFiles) (index : HNSWIndex (Vec dim)) : Prop :=
  ∃ s, files = ⟨some s.file, some (writeJsonGraph index)⟩ ∧
    MmapStore.Holds s index.vectors

theorem save_eq_ok {os : OS} {paths : SnapshotPaths} {ns : ℕ}
    {files : SnapshotFiles} (h : RepInv index layers)
    (hdim : index.cfg.dim.toUInt32 = dim)
    (hok : save os paths ns index = .ok files) : Saved files index := by
  rw [save, except_bind_eq_ok] at hok
  obtain ⟨seg, hwrite, hok⟩ := hok
  cases hok
  rw [writeSegment, except_bind_eq_ok] at hwrite
  obtain ⟨s, hcreate, hwrite⟩ := hwrite
  rw [h.getVectors, except_bind_ok] at hwrite
  obtain ⟨_, rfl⟩ := MmapStore.create_eq_ok hcreate
  rw [hdim] at hwrite
  have hlength := h.vectors
  have hids := h.nextId_lt
  cases happend : (appendVectors os index.vectors).run
      (MmapStore.created dim ns) with
  | error e s => simp [happend] at hwrite
  | ok u s =>
      simp only [happend] at hwrite
      cases hwrite
      refine ⟨s, rfl, ?_⟩
      have hseg := appendVectors_eq_ok (MmapStore.created_holds dim ns)
        (by simp; omega) happend
      simpa using hseg

theorem save_ok (h : RepInv index layers)
    (hdim : index.cfg.dim.toUInt32 = dim) (hne : dim ≠ 0)
    (hrow : dim.toNat * 4 ≤ MmapStore.growBytes)
    (paths : SnapshotPaths) (ns : ℕ) :
    ∃ files, save OS.reliable paths ns index = .ok files := by
  have hlength := h.vectors
  have hids := h.nextId_lt
  have hcreate : MmapStore.create OS.reliable paths.seg none dim ns =
      .ok (MmapStore.created dim ns) :=
    MmapStore.create_eq hne
      (by simp [OS.reliable, MmapStore.headerSize, MmapStore.initialData])
      (by simp [OS.reliable, MmapStore.headerSize, MmapStore.initialData]) ns
  obtain ⟨s, happend⟩ := appendVectors_ok index.vectors
    (MmapStore.created_holds dim ns) (by simp; omega) hrow (by
      simp only [MmapStore.created, MmapStore.headerSize, MmapStore.initialData,
        MmapStore.growBytes]
      omega)
  refine ⟨⟨some s.close, some (writeJsonGraph index)⟩, ?_⟩
  rw [save, writeSegment, hdim, hcreate, except_bind_ok, h.getVectors,
    except_bind_ok, happend]
  rfl

end Storage
end VecDB
