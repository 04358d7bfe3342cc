import VecDB.GraphTermination
import VecDB.SegmentAccept
import VecDB.SnapshotReload
import Mathlib.Tactic

/-!
# Which snapshots a load accepts

`load` checks a version, a width and a count.  It takes the rest of the graph
as it is: ids and the entry point are not compared with the count, the top
layer is not compared with the configuration, and rows or lists that do not
fit are accessed all the same.
-/

namespace VecDB

namespace HNSWIndex

variable {dim : UInt32}

/-- `load_from_snapshot` on the index in memory.  The copies fail only by an
access that ends the process. -/
def restore (seg : MmapStore) (adj : List (List (List UInt32)))
    (entryPoint : UInt32) (maxLayer : Int32) :
    EStateM Failure (HNSWIndex (Vec dim)) Unit := do
  let n := seg.vecCount
  let vectors ← ofExcept ((List.range n).mapM (copyVector dim seg))
  modify fun index => { index with vectors := vectors }
  let index ← get
  let neighbours ← ofExcept (restoreNodes 0 (adj.take n)
    (index.neighbours.resize n index.cfg.maxLayers))
  modify fun index => { index with neighbours := neighbours }
  modify fun index => { index with
    nextId := n
    entryPoint := entryPoint.toNat
    maxLayer := maxLayer.toInt }

/-- What a search and an insertion rely on. -/
structure Usable {V : Type} (index : HNSWIndex V) : Prop where
  ids : ∀ i layer, ∀ j ∈ index.neighbours.getNeighbours i layer,
    j < index.size
  entryPoint : index.size ≠ 0 → index.entryPoint < index.size
  adjacency : index.neighbours.length = index.size
  layers : ∀ i, (index.neighbours.layerCount i : ℤ) ≤
    index.cfg.maxLayers.toInt
  maxLayer : -1 ≤ index.maxLayer ∧
    index.maxLayer < index.cfg.maxLayers.toInt
  empty : index.maxLayer = -1 → index.size = 0

/-! ## Lists that do not fit -/

theorem restoreLists_error (done rest : NeighbourStore)
    (before : List (List ℕ)) {after : List (List ℕ)}
    {lists : List (List UInt32)} (hlength : after.length < lists.length) :
    restoreLists done.length before.length lists
        (done ++ (before ++ after) :: rest) = .error .accessViolation := by
  induction lists generalizing before after with
  | nil => simp at hlength
  | cons list lists ih =>
      cases after with
      | nil =>
          have hset : NeighbourStore.setNeighbours
              (done ++ (before ++ []) :: rest) done.length before.length
              (list.map UInt32.toNat) = .error .accessViolation := by
            unfold NeighbourStore.setNeighbours
            rw [if_neg (by simp [List.getD_eq_getElem?_getD])]
          rw [restoreLists, hset]
          rfl
      | cons slot after =>
          have hlength' : after.length < lists.length := by
            simpa using hlength
          have hrest := ih (before ++ [list.map UInt32.toNat]) hlength'
          rw [List.length_append, List.length_singleton] at hrest
          rw [restoreLists, setNeighbours_middle, except_bind_ok, hrest]

theorem restoreNodes_error (done : NeighbourStore) {slots count : ℕ}
    {adj : List (List (List UInt32))}
    (hlong : ∃ lists ∈ adj, slots < lists.length)
    (hcount : adj.length ≤ count) :
    restoreNodes done.length adj
        (done ++ List.replicate count (List.replicate slots [])) =
      .error .accessViolation := by
  induction adj generalizing done count with
  | nil => simp at hlong
  | cons lists adj ih =>
      cases count with
      | zero => simp at hcount
      | succ count =>
          by_cases hfits : lists.length ≤ slots
          · have hlater : ∃ lists ∈ adj, slots < lists.length := by
              obtain ⟨other, hother, hlt⟩ := hlong
              rcases List.mem_cons.mp hother with rfl | hother
              · omega
              · exact ⟨other, hother, hlt⟩
            rw [restoreNodes_cons done hfits]
            exact ih (done ++ [padded slots lists]) hlater
              (by simpa using hcount)
          · have hlength : (List.replicate slots ([] : List ℕ)).length <
                lists.length := by
              rw [List.length_replicate]
              omega
            have hlists := restoreLists_error done
              (List.replicate count (List.replicate slots [])) [] hlength
            simp only [List.length_nil, List.nil_append] at hlists
            rw [restoreNodes, List.replicate_succ, hlists]
            rfl

/-! ## Rows that do not fit -/

theorem mapM_ok_or_error {α β ε : Type} {f : α → Except ε β} {e : ε}
    (l : List α)
    (hf : ∀ x ∈ l, (∃ y, f x = .ok y) ∨ f x = .error e) :
    (∃ ys, l.mapM f = .ok ys ∧ ∀ x ∈ l, ∃ y, f x = .ok y) ∨
      (∃ x ∈ l, f x = .error e) ∧ l.mapM f = .error e := by
  induction l with
  | nil => exact Or.inl ⟨[], rfl, by simp⟩
  | cons x l ih =>
      rw [List.mapM_cons]
      rcases hf x List.mem_cons_self with ⟨y, hy⟩ | hx
      · rw [hy]
        rcases ih fun z hz => hf z (List.mem_cons_of_mem x hz) with
          ⟨ys, hys, hall⟩ | ⟨⟨z, hz, herror⟩, hys⟩
        · refine Or.inl ⟨y :: ys, by rw [hys]; rfl, fun z hz => ?_⟩
          rcases List.mem_cons.mp hz with rfl | hz
          · exact ⟨y, hy⟩
          · exact hall z hz
        · exact Or.inr ⟨⟨z, List.mem_cons_of_mem x hz, herror⟩, by
            rw [hys]
            rfl⟩
      · exact Or.inr ⟨⟨x, List.mem_cons_self, hx⟩, by rw [hx]; rfl⟩

theorem copyVector_eq {seg : MmapStore} (hmapped : seg.mapped = true)
    (hdim : seg.dim = dim) {i : ℕ} (hi : i < seg.vecCount) :
    copyVector dim seg i =
      if MmapStore.vecPtr dim (i + 1) ≤ seg.mapSize then
        .ok (Vec.ofBytes dim
          (seg.file.read (MmapStore.vecPtr dim i) (dim.toNat * 4)))
      else .error .accessViolation := by
  have hget : seg.get i = .ok (MmapStore.vecPtr dim i) := by
    rw [MmapStore.get, if_neg (by omega), hdim]
  rw [copyVector, hget, except_bind_ok, MmapStore.readAt,
    MmapStore.vecPtr_succ]
  by_cases hfits : MmapStore.vecPtr dim i + dim.toNat * 4 ≤ seg.mapSize
  · rw [if_pos ⟨hmapped, hfits⟩, if_pos hfits]
    rfl
  · rw [if_neg (fun h => hfits h.2), if_neg hfits]
    rfl

theorem copyVectors_cases {seg : MmapStore} (hmapped : seg.mapped = true)
    (hdim : seg.dim = dim) (hhead : MmapStore.headerSize ≤ seg.mapSize) :
    (MmapStore.requiredSize seg.vecCount dim ≤ seg.mapSize ∧
        ∃ vectors, (List.range seg.vecCount).mapM (copyVector dim seg) =
          .ok vectors) ∨
      ¬ MmapStore.requiredSize seg.vecCount dim ≤ seg.mapSize ∧
        (List.range seg.vecCount).mapM (copyVector dim seg) =
          .error .accessViolation := by
  rw [MmapStore.requiredSize_eq]
  have hrow : ∀ i ∈ List.range seg.vecCount,
      (∃ vec, copyVector dim seg i = .ok vec) ∨
        copyVector dim seg i = .error .accessViolation := by
    intro i hi
    rw [copyVector_eq hmapped hdim (List.mem_range.mp hi)]
    split_ifs
    · exact Or.inl ⟨_, rfl⟩
    · exact Or.inr rfl
  rcases mapM_ok_or_error _ hrow with ⟨vectors, hvectors, hall⟩ |
      ⟨⟨i, hi, herror⟩, hvectors⟩
  · refine Or.inl ⟨?_, vectors, hvectors⟩
    cases hcount : seg.vecCount with
    | zero => simpa [MmapStore.vecPtr, MmapStore.headerSize] using hhead
    | succ last =>
        obtain ⟨vec, hvec⟩ := hall last (by simp [hcount])
        rw [copyVector_eq hmapped hdim (by omega)] at hvec
        split_ifs at hvec with hfits
        exact hfits
  · refine Or.inr ⟨fun hfits => ?_, hvectors⟩
    have hlt := List.mem_range.mp hi
    have hmono := MmapStore.vecPtr_mono dim (show i + 1 ≤ seg.vecCount from hlt)
    rw [copyVector_eq hmapped hdim hlt, if_pos (hmono.trans hfits)] at herror
    cases herror

/-! ## What is loaded -/

/-- The adjacency store behind a load of `count` nodes. -/
def restored (count slots : ℕ) (adj : List (List (List UInt32))) :
    NeighbourStore :=
  (adj.take count).map (padded slots) ++
    List.replicate (count - (adj.take count).length) (List.replicate slots [])

theorem restored_length (count slots : ℕ) (adj : List (List (List UInt32))) :
    (restored count slots adj).length = count := by
  simp only [restored, List.length_append, List.length_map,
    List.length_replicate, List.length_take]
  omega

theorem mem_restored {count slots : ℕ} {adj : List (List (List UInt32))}
    (hslots : ∀ lists ∈ adj.take count, lists.length ≤ slots)
    {lists : List (List ℕ)} (hlists : lists ∈ restored count slots adj) :
    lists.length = slots := by
  rcases List.mem_append.mp hlists with hnode | hnode
  · obtain ⟨node, hmem, rfl⟩ := List.mem_map.mp hnode
    have hle := hslots node hmem
    simp only [padded, List.length_append, List.length_map,
      List.length_replicate]
    omega
  · rw [(List.mem_replicate.mp hnode).2, List.length_replicate]

theorem layerCount_restored {count slots : ℕ}
    {adj : List (List (List UInt32))}
    (hslots : ∀ lists ∈ adj.take count, lists.length ≤ slots) (i : ℕ) :
    (restored count slots adj).layerCount i ≤ slots := by
  unfold NeighbourStore.layerCount
  by_cases hi : i < (restored count slots adj).length
  · rw [List.getD_eq_getElem _ _ hi]
    exact (mem_restored hslots (List.getElem_mem hi)).le
  · rw [List.getD_eq_default _ _ (by omega)]
    exact Nat.zero_le slots

theorem forall_getNeighbours {adj : NeighbourStore} {P : ℕ → Prop} :
    (∀ i layer, ∀ j ∈ adj.getNeighbours i layer, P j) ↔
      ∀ lists ∈ adj, ∀ list ∈ lists, ∀ j ∈ list, P j := by
  constructor
  · intro h lists hlists list hlist j hj
    obtain ⟨i, hi, rfl⟩ := List.mem_iff_getElem.mp hlists
    obtain ⟨layer, hlayer, rfl⟩ := List.mem_iff_getElem.mp hlist
    refine h i layer j ?_
    rw [NeighbourStore.getNeighbours, List.getD_eq_getElem _ _ hi,
      List.getD_eq_getElem _ _ hlayer]
    exact hj
  · intro h i layer j hj
    rw [NeighbourStore.getNeighbours] at hj
    by_cases hi : i < adj.length
    · rw [List.getD_eq_getElem _ _ hi] at hj
      by_cases hlayer : layer < adj[i].length
      · rw [List.getD_eq_getElem _ _ hlayer] at hj
        exact h _ (List.getElem_mem hi) _ (List.getElem_mem hlayer) j hj
      · rw [List.getD_eq_default _ _ (by omega)] at hj
        cases hj
    · rw [List.getD_eq_default adj _ (by omega)] at hj
      cases hj

theorem forall_restored {count slots : ℕ} {adj : List (List (List UInt32))}
    {P : ℕ → Prop} :
    (∀ lists ∈ restored count slots adj, ∀ list ∈ lists, ∀ j ∈ list, P j) ↔
      ∀ lists ∈ adj.take count, ∀ list ∈ lists, ∀ id ∈ list,
        P id.toNat := by
  constructor
  · intro h lists hlists list hlist id hid
    refine h (padded slots lists) ?_ (list.map UInt32.toNat) ?_ id.toNat
      (List.mem_map_of_mem hid)
    · exact List.mem_append_left _ (List.mem_map_of_mem hlists)
    · exact List.mem_append_left _ (List.mem_map_of_mem hlist)
  · intro h row hrow list hlist j hj
    rcases List.mem_append.mp hrow with hrow | hrow
    · obtain ⟨lists, hlists, rfl⟩ := List.mem_map.mp hrow
      rcases List.mem_append.mp hlist with hlist | hlist
      · obtain ⟨ids, hids, rfl⟩ := List.mem_map.mp hlist
        obtain ⟨id, hid, rfl⟩ := List.mem_map.mp hj
        exact h lists hlists ids hids id hid
      · rw [(List.mem_replicate.mp hlist).2] at hj
        cases hj
    · rw [(List.mem_replicate.mp hrow).2] at hlist
      rw [(List.mem_replicate.mp hlist).2] at hj
      cases hj

/-- The rows lie in the file, and no node has more lists than slots. -/
structure Fits (cfg : HNSWConfig) (seg : MmapStore)
    (adj : List (List (List UInt32))) : Prop where
  rows : MmapStore.requiredSize seg.vecCount seg.dim ≤ seg.mapSize
  layers : ∀ lists ∈ adj.take seg.vecCount,
    lists.length ≤ cfg.maxLayers.toInt.toNat

theorem loadFromSnapshot_cases {index : HNSWIndex (Vec dim)}
    (hempty : index.neighbours = []) {seg : MmapStore}
    (hmapped : seg.mapped = true) (hdim : seg.dim = dim)
    (hhead : MmapStore.headerSize ≤ seg.mapSize)
    (adj : List (List (List UInt32))) (entryPoint : UInt32)
    (maxLayer : Int32) :
    (Fits index.cfg seg adj ∧ ∃ vectors,
        index.loadFromSnapshot seg adj entryPoint maxLayer = .ok { index with
          vectors := vectors
          neighbours :=
            restored seg.vecCount index.cfg.maxLayers.toInt.toNat adj
          nextId := seg.vecCount
          entryPoint := entryPoint.toNat
          maxLayer := maxLayer.toInt }) ∨
      ¬ Fits index.cfg seg adj ∧
        index.loadFromSnapshot seg adj entryPoint maxLayer =
          .error .accessViolation := by
  unfold loadFromSnapshot
  dsimp only
  rw [hempty, resize_nil]
  rcases copyVectors_cases hmapped hdim hhead with ⟨hrows, vectors, hvectors⟩ |
      ⟨hrows, hvectors⟩
  · rw [hvectors, except_bind_ok]
    have hcount : (adj.take seg.vecCount).length ≤ seg.vecCount := by
      rw [List.length_take]
      omega
    by_cases hlayers : ∀ lists ∈ adj.take seg.vecCount,
        lists.length ≤ index.cfg.maxLayers.toInt.toNat
    · have hnodes := restoreNodes_ok [] hlayers hcount
      rw [List.length_nil, List.nil_append, List.nil_append] at hnodes
      rw [hnodes]
      exact Or.inl ⟨⟨by rwa [hdim], hlayers⟩, vectors, rfl⟩
    · have hlong : ∃ lists ∈ adj.take seg.vecCount,
          index.cfg.maxLayers.toInt.toNat < lists.length := by
        simpa using hlayers
      have hnodes := restoreNodes_error [] hlong hcount
      rw [List.length_nil, List.nil_append] at hnodes
      rw [hnodes]
      exact Or.inr ⟨fun hfits => hlayers hfits.layers, rfl⟩
  · rw [hvectors]
    exact Or.inr ⟨fun hfits => hrows (hdim ▸ hfits.rows), rfl⟩

theorem restore_run (index : HNSWIndex (Vec dim)) (seg : MmapStore)
    (adj : List (List (List UInt32))) (entryPoint : UInt32)
    (maxLayer : Int32) :
    (∃ loaded, index.loadFromSnapshot seg adj entryPoint maxLayer =
        .ok loaded ∧
      (restore seg adj entryPoint maxLayer).run index = .ok () loaded) ∨
    ∃ e left, index.loadFromSnapshot seg adj entryPoint maxLayer = .error e ∧
      (restore seg adj entryPoint maxLayer).run index = .error e left := by
  unfold restore loadFromSnapshot
  dsimp only
  cases hvectors : (List.range seg.vecCount).mapM (copyVector dim seg) with
  | error e => exact Or.inr ⟨e, index, rfl, bind_of_error rfl⟩
  | ok vectors =>
      rw [except_bind_ok, bind_of_ok (run_ofExcept _ _), run_modify_bind,
        run_get_bind]
      dsimp only
      cases hnodes : restoreNodes 0 (adj.take seg.vecCount)
          (index.neighbours.resize seg.vecCount index.cfg.maxLayers) with
      | error e => exact Or.inr ⟨e, _, rfl, bind_of_error rfl⟩
      | ok neighbours => exact Or.inl ⟨_, rfl, rfl⟩

end HNSWIndex

/-! ## What a load does with a pair of files -/

theorem MmapStore.openFile_thrown {os : OS} {path : String}
    {existing : Option ByteFile} {e : Failure}
    (h : openFile os path existing = .error e) : e.Thrown := by
  have hheader : ∀ file, readAndValidateHeader file = .error e →
      e.Thrown := by
    intro file hfile
    unfold readAndValidateHeader at hfile
    dsimp only at hfile
    split_ifs at hfile
    all_goals
      cases hfile
      exact Failure.thrown_runtimeError _
  cases existing with
  | none =>
      cases h
      exact Failure.thrown_runtimeError _
  | some file =>
      unfold openFile at h
      dsimp only at h
      split_ifs at h
      · cases h
        exact Failure.thrown_runtimeError _
      · cases h
        exact Failure.thrown_runtimeError _
      · cases hread : readAndValidateHeader file with
        | error e' =>
            rw [hread] at h
            cases h
            exact hheader file hread
        | ok header =>
            rw [hread] at h
            cases h

theorem MmapStore.openFile_eq_ok {os : OS} {path : String}
    {existing : Option ByteFile} {seg : MmapStore}
    (h : openFile os path existing = .ok seg) :
    seg.mapped = true ∧ headerSize ≤ seg.mapSize := by
  cases existing with
  | none => cases h
  | some file =>
      unfold openFile at h
      dsimp only at h
      split_ifs at h with hsmall hmmap
      cases hread : readAndValidateHeader file with
      | error e =>
          rw [hread] at h
          cases h
      | ok header =>
          rw [hread] at h
          cases h
          exact ⟨rfl, Nat.le_of_not_lt hsmall⟩

namespace Storage

variable {dim : UInt32}

/-- `load` on the index in memory. -/
def loadInto (os : OS) (paths : SnapshotPaths) (files : SnapshotFiles) :
    EStateM Failure (HNSWIndex (Vec dim)) Unit := do
  let g ← ofExcept (GraphText.parseJsonGraph paths.graph files.graph)
  let index ← get
  if g.version ≠ 1 then
    throw (.runtimeError "Snapshot: unsupported graph version")
  else if g.dim ≠ index.cfg.dim then
    throw (.runtimeError "Snapshot: dim mismatch")
  else do
    let seg ← ofExcept (MmapStore.openFile os paths.seg files.seg)
    if seg.dim ≠ g.dim.toUInt32 then
      throw (.runtimeError "Snapshot: seg/graph dim mismatch")
    else if seg.vecCount ≠ g.vecCount.toNat then
      throw (.runtimeError "Snapshot: seg/graph vec_count mismatch")
    else HNSWIndex.restore seg g.adj g.entryPoint g.maxLayer

/-- The files read as `g` and `seg`, and these pass the checks of `load`. -/
structure Passes (os : OS) (paths : SnapshotPaths) (files : SnapshotFiles)
    (cfg : HNSWConfig) (g : GraphText.JsonGraph) (seg : MmapStore) :
    Prop where
  graph : GraphText.parseJsonGraph paths.graph files.graph = .ok g
  version : g.version = 1
  dim : g.dim = cfg.dim
  segment : MmapStore.openFile os paths.seg files.seg = .ok seg
  segDim : seg.dim = g.dim.toUInt32
  count : seg.vecCount = g.vecCount.toNat

section Load

variable {os : OS} {paths : SnapshotPaths} {files : SnapshotFiles}
  {cfg : HNSWConfig} {g g' : GraphText.JsonGraph} {seg seg' : MmapStore}

theorem Passes.unique (h : Passes os paths files cfg g seg)
    (h' : Passes os paths files cfg g' seg') : g' = g ∧ seg' = seg := by
  have hgraph := h'.graph
  have hsegment := h'.segment
  rw [h.graph, Except.ok.injEq] at hgraph
  rw [h.segment, Except.ok.injEq] at hsegment
  exact ⟨hgraph.symm, hsegment.symm⟩

/-- A load throws before it touches the index, or goes on to restore it. -/
theorem loadInto_run (os : OS) (paths : SnapshotPaths)
    (files : SnapshotFiles) (index : HNSWIndex (Vec dim)) :
    (∃ e, (loadInto os paths files).run index = .error e index ∧ e.Thrown ∧
        ∀ g seg, ¬ Passes os paths files index.cfg g seg) ∨
      ∃ g seg, Passes os paths files index.cfg g seg ∧
        (loadInto os paths files).run index =
          (HNSWIndex.restore seg g.adj g.entryPoint g.maxLayer).run index := by
  unfold loadInto
  cases hgraph : GraphText.parseJsonGraph paths.graph files.graph with
  | error e =>
      refine Or.inl ⟨e, bind_of_error rfl,
        GraphText.parseJsonGraph_thrown hgraph, fun g seg h => ?_⟩
      have hg := h.graph
      rw [hgraph] at hg
      cases hg
  | ok g =>
      rw [bind_of_ok (run_ofExcept _ _), run_get_bind]
      have hg : ∀ g' seg, Passes os paths files index.cfg g' seg → g' = g := by
        intro g' seg h
        have hg := h.graph
        rw [hgraph, Except.ok.injEq] at hg
        exact hg.symm
      split_ifs with hversion hdim
      · refine Or.inl ⟨_, rfl, Failure.thrown_runtimeError _,
          fun g' seg h => hversion ?_⟩
        rw [← hg g' seg h]
        exact h.version
      · refine Or.inl ⟨_, rfl, Failure.thrown_runtimeError _,
          fun g' seg h => hdim ?_⟩
        rw [← hg g' seg h]
        exact h.dim
      · cases hsegment : MmapStore.openFile os paths.seg files.seg with
        | error e =>
            refine Or.inl ⟨e, bind_of_error rfl,
              MmapStore.openFile_thrown hsegment, fun g' seg h => ?_⟩
            have hseg := h.segment
            rw [hsegment] at hseg
            cases hseg
        | ok seg =>
            rw [bind_of_ok (run_ofExcept _ _)]
            have hseg : ∀ g' seg', Passes os paths files index.cfg g' seg' →
                seg' = seg := by
              intro g' seg' h
              have hseg := h.segment
              rw [hsegment, Except.ok.injEq] at hseg
              exact hseg.symm
            split_ifs with hsegDim hcount
            · refine Or.inl ⟨_, rfl, Failure.thrown_runtimeError _,
                fun g' seg' h => hsegDim ?_⟩
              rw [← hg g' seg' h, ← hseg g' seg' h]
              exact h.segDim
            · refine Or.inl ⟨_, rfl, Failure.thrown_runtimeError _,
                fun g' seg' h => hcount ?_⟩
              rw [← hg g' seg' h, ← hseg g' seg' h]
              exact h.count
            · exact Or.inr ⟨g, seg, ⟨hgraph, not_not.mp hversion,
                not_not.mp hdim, hsegment, not_not.mp hsegDim,
                not_not.mp hcount⟩, rfl⟩

/-- `loadInto` is `load`. -/
theorem loadInto_eq_ok {index loaded : HNSWIndex (Vec dim)} :
    (loadInto os paths files).run index = .ok () loaded ↔
      load os paths files index = .ok loaded := by
  rw [load_eq_ok]
  rcases loadInto_run os paths files index with ⟨e, hrun, _, hnone⟩ |
      ⟨g, seg, hpasses, hrun⟩
  · rw [hrun]
    refine iff_of_false (by simp) ?_
    rintro ⟨g, seg, hgraph, hversion, hdim, hsegment, hsegDim, hcount, _⟩
    exact hnone g seg ⟨hgraph, hversion, hdim, hsegment, hsegDim, hcount⟩
  · rw [hrun]
    have hunique : (∃ g seg,
        GraphText.parseJsonGraph paths.graph files.graph = .ok g ∧
        g.version = 1 ∧ g.dim = index.cfg.dim ∧
        MmapStore.openFile os paths.seg files.seg = .ok seg ∧
        seg.dim = g.dim.toUInt32 ∧ seg.vecCount = g.vecCount.toNat ∧
        index.loadFromSnapshot seg g.adj g.entryPoint g.maxLayer =
          .ok loaded) ↔
        index.loadFromSnapshot seg g.adj g.entryPoint g.maxLayer =
          .ok loaded := by
      constructor
      · rintro ⟨g', seg', hgraph, hversion, hdim, hsegment, hsegDim, hcount,
          hload⟩
        obtain ⟨rfl, rfl⟩ := hpasses.unique
          ⟨hgraph, hversion, hdim, hsegment, hsegDim, hcount⟩
        exact hload
      · exact fun hload => ⟨g, seg, hpasses.graph, hpasses.version,
          hpasses.dim, hpasses.segment, hpasses.segDim, hpasses.count, hload⟩
    rw [hunique]
    rcases HNSWIndex.restore_run index seg g.adj g.entryPoint g.maxLayer with
      ⟨loaded', hload, hrestore⟩ | ⟨e, left, hload, hrestore⟩
    · rw [hload, hrestore]
      simp
    · rw [hload, hrestore]
      simp

/-- What the checks of `load` leave open. -/
structure Sound (cfg : HNSWConfig) (g : GraphText.JsonGraph)
    (seg : MmapStore) : Prop where
  rows : MmapStore.requiredSize g.vecCount.toNat seg.dim ≤ seg.mapSize
  layers : ∀ lists ∈ g.adj.take g.vecCount.toNat,
    (lists.length : ℤ) ≤ cfg.maxLayers.toInt
  ids : ∀ lists ∈ g.adj.take g.vecCount.toNat, ∀ list ∈ lists,
    ∀ id ∈ list, id < g.vecCount
  entryPoint : g.vecCount ≠ 0 → g.entryPoint < g.vecCount
  maxLayer : -1 ≤ g.maxLayer ∧ g.maxLayer < cfg.maxLayers
  empty : g.maxLayer = -1 → g.vecCount = 0

/-- A load returns a usable index, or throws and leaves an empty one. -/
def LoadsSafely (os : OS) (paths : SnapshotPaths) (files : SnapshotFiles)
    (fresh : HNSWIndex (Vec dim)) : Prop :=
  match (loadInto os paths files).run fresh with
  | .ok _ index => index.Usable
  | .error e index => e.Thrown ∧ index.size = 0 ∧ index.maxLayer = -1

theorem Sound.fits (h : Sound cfg g seg)
    (hcount : seg.vecCount = g.vecCount.toNat) :
    HNSWIndex.Fits cfg seg g.adj where
  rows := by
    rw [hcount]
    exact h.rows
  layers := by
    intro lists hlists
    rw [hcount] at hlists
    have hle := h.layers lists hlists
    omega

/-- The index a load returns is usable if and only if its files are sound. -/
theorem usable_iff {fresh : HNSWIndex (Vec dim)}
    (hmaxLayers : 1 ≤ fresh.cfg.maxLayers.toInt)
    (hfits : HNSWIndex.Fits fresh.cfg seg g.adj)
    (hcount : seg.vecCount = g.vecCount.toNat) (vectors : List (Vec dim)) :
    HNSWIndex.Usable { fresh with
        vectors := vectors
        neighbours := HNSWIndex.restored seg.vecCount
          fresh.cfg.maxLayers.toInt.toNat g.adj
        nextId := seg.vecCount
        entryPoint := g.entryPoint.toNat
        maxLayer := g.maxLayer.toInt } ↔
      Sound fresh.cfg g seg := by
  have hzero : seg.vecCount = 0 ↔ g.vecCount = 0 := by
    rw [hcount, ← UInt32.toNat_inj]
    rfl
  have hminus : g.maxLayer.toInt = -1 ↔ g.maxLayer = -1 := by
    rw [← Int32.toInt_inj]
    rfl
  constructor
  · intro h
    have hids := HNSWIndex.forall_restored.mp
      (HNSWIndex.forall_getNeighbours.mp h.ids)
    have hentry := h.entryPoint
    have hmax := h.maxLayer
    have hempty := h.empty
    simp only [HNSWIndex.size, ne_eq, hzero, hminus] at hids hentry hempty
    rw [hcount] at hids hentry
    exact {
      rows := by
        rw [← hcount]
        exact hfits.rows
      layers := by
        intro lists hlists
        rw [← hcount] at hlists
        have hle := hfits.layers lists hlists
        omega
      ids := hids
      entryPoint := hentry
      maxLayer := by
        rw [Int32.le_iff_toInt_le, Int32.lt_iff_toInt_lt]
        exact hmax
      empty := hempty }
  · intro h
    have hlayers : ∀ i, (NeighbourStore.layerCount (HNSWIndex.restored
        seg.vecCount fresh.cfg.maxLayers.toInt.toNat g.adj) i : ℤ) ≤
        fresh.cfg.maxLayers.toInt := by
      intro i
      have hle := HNSWIndex.layerCount_restored hfits.layers i
      omega
    have hids : ∀ lists ∈ g.adj.take seg.vecCount, ∀ list ∈ lists,
        ∀ id ∈ list, id.toNat < seg.vecCount := by
      rw [hcount]
      exact h.ids
    have hmax := h.maxLayer
    rw [Int32.le_iff_toInt_le, Int32.lt_iff_toInt_lt] at hmax
    exact {
      ids := HNSWIndex.forall_getNeighbours.mpr
        (HNSWIndex.forall_restored.mpr hids)
      entryPoint := fun hsome => by
        have hlt := h.entryPoint fun hnone => hsome (hzero.mpr hnone)
        change g.entryPoint.toNat < seg.vecCount
        rwa [hcount]
      adjacency := HNSWIndex.restored_length _ _ _
      layers := hlayers
      maxLayer := hmax
      empty := fun hnone => hzero.mpr (h.empty (hminus.mp hnone)) }

end Load

theorem loadsSafely_iff {fresh : HNSWIndex (Vec dim)}
    (hdim : fresh.cfg.dim.toUInt32 = dim)
    (hmaxLayers : 1 ≤ fresh.cfg.maxLayers.toInt)
    (hneighbours : fresh.neighbours = []) (hsize : fresh.size = 0)
    (hmaxLayer : fresh.maxLayer = -1) (os : OS) (paths : SnapshotPaths)
    (files : SnapshotFiles) :
    LoadsSafely os paths files fresh ↔
      ∀ g seg, Passes os paths files fresh.cfg g seg →
        Sound fresh.cfg g seg := by
  unfold LoadsSafely
  rcases loadInto_run os paths files fresh with ⟨e, hrun, hthrown, hnone⟩ |
      ⟨g, seg, hpasses, hrun⟩
  · rw [hrun]
    exact iff_of_true ⟨hthrown, hsize, hmaxLayer⟩
      fun g seg hpasses => absurd hpasses (hnone g seg)
  · have hsound : (∀ g' seg', Passes os paths files fresh.cfg g' seg' →
        Sound fresh.cfg g' seg') ↔ Sound fresh.cfg g seg := by
      constructor
      · exact fun h => h g seg hpasses
      · intro h g' seg' hpasses'
        obtain ⟨rfl, rfl⟩ := hpasses.unique hpasses'
        exact h
    obtain ⟨hmapped, hhead⟩ := MmapStore.openFile_eq_ok hpasses.segment
    have hsegDim : seg.dim = dim := by
      rw [hpasses.segDim, hpasses.dim, hdim]
    rw [hsound, hrun]
    rcases HNSWIndex.restore_run fresh seg g.adj g.entryPoint g.maxLayer with
      ⟨loaded, hload, hrestore⟩ | ⟨e, left, hload, hrestore⟩
    · rcases HNSWIndex.loadFromSnapshot_cases hneighbours hmapped hsegDim
          hhead g.adj g.entryPoint g.maxLayer with
        ⟨hfits, vectors, hok⟩ | ⟨_, herror⟩
      · rw [hload, Except.ok.injEq] at hok
        rw [hrestore, hok]
        exact usable_iff hmaxLayers hfits hpasses.count vectors
      · rw [hload] at herror
        cases herror
    · rcases HNSWIndex.loadFromSnapshot_cases hneighbours hmapped hsegDim
          hhead g.adj g.entryPoint g.maxLayer with
        ⟨_, vectors, hok⟩ | ⟨hfits, herror⟩
      · rw [hload] at hok
        cases hok
      · rw [hload, Except.error.injEq] at herror
        rw [hrestore, herror]
        exact iff_of_false (fun h => h.1.1 rfl)
          fun h => hfits (h.fits hpasses.count)

/-- A load is safe if and only if files that pass its checks are sound. -/
theorem load_safe_iff {cfg : HNSWConfig} {rng : ℕ → ℕ}
    {fresh : HNSWIndex (Vec cfg.dim.toUInt32)}
    (hfresh : HNSWIndex.new cfg rng = .ok fresh) (os : OS)
    (paths : SnapshotPaths) (files : SnapshotFiles) :
    LoadsSafely os paths files fresh ↔
      ∀ g seg, Passes os paths files cfg g seg → Sound cfg g seg := by
  obtain ⟨haccepted, hnew⟩ := HNSWIndex.new_eq_ok hfresh
  have hcfg : fresh.cfg = cfg := by rw [hnew]
  have hiff := loadsSafely_iff (by rw [hcfg])
    (by rw [hcfg]; exact haccepted.maxLayers) (by rw [hnew])
    (by rw [hnew]; rfl) (by rw [hnew]) os paths files
  rwa [hcfg] at hiff

/-! ## Two pairs of files -/

def filesOf (seg : MmapStore) (graph : String) : SnapshotFiles where
  seg := some seg.close
  graph := some graph.toList

theorem passes_of_holds {seg : MmapStore} {vecs : List (Vec 1)}
    {graph : String} {g : GraphText.JsonGraph} (hholds : MmapStore.Holds seg vecs)
    (hmmap : OS.reliable.mmap seg.mapSize = true)
    (hgraph : GraphText.parseJsonGraph (makePaths "data" 0).graph
      (some graph.toList) = .ok g)
    (hversion : g.version = 1) (hdim : g.dim = 1)
    (hcount : g.vecCount.toNat = vecs.length) :
    Passes OS.reliable (makePaths "data" 0) (filesOf seg graph)
      HNSWIndex.smallConfig g seg where
  graph := hgraph
  version := hversion
  dim := hdim
  segment := hholds.openFile_eq _ hmmap
  segDim := by
    rw [hdim]
    exact hholds.dim_eq
  count := by
    rw [hcount]
    exact hholds.vecCount

/-- Two nodes with a link to each other. -/
def linkedGraph : String :=
  "\x7b\"version\":1,\"dim\":1,\"vec_count\":2,\"entry_point\":1," ++
    "\"max_layer\":0,\"adj\":[\x7b\"l\":[[1]]\x7d,\x7b\"l\":[[0]]\x7d]\x7d"

theorem linkedGraph_passes :
    Passes OS.reliable (makePaths "data" 0)
      (filesOf MmapStore.twoRows linkedGraph) HNSWIndex.smallConfig
      { version := 1, dim := 1, vecCount := 2, entryPoint := 1,
        adj := [[[1]], [[0]]] } MmapStore.twoRows :=
  passes_of_holds MmapStore.twoRows_holds (by decide +kernel)
    (by decide +kernel) rfl rfl rfl

theorem linkedGraph_loads :
    ∃ fresh loaded : HNSWIndex (Vec HNSWIndex.smallConfig.dim.toUInt32),
      HNSWIndex.new HNSWIndex.smallConfig (fun _ => 0) = .ok fresh ∧
      load OS.reliable (makePaths "data" 0)
        (filesOf MmapStore.twoRows linkedGraph) fresh = .ok loaded ∧
      loaded.vectors = [Vec.ofBytes _ [1, 2, 3, 4], Vec.ofBytes _ [5, 6, 7, 8]] ∧
      loaded.neighbours = [[[1], []], [[0], []]] ∧
      LoadsSafely OS.reliable (makePaths "data" 0)
        (filesOf MmapStore.twoRows linkedGraph) fresh := by
  obtain ⟨fresh, hfresh⟩ :
      ∃ fresh : HNSWIndex (Vec HNSWIndex.smallConfig.dim.toUInt32),
        HNSWIndex.new HNSWIndex.smallConfig (fun _ => 0) = .ok fresh :=
    ⟨_, rfl⟩
  refine ⟨fresh, {
    cfg := HNSWIndex.smallConfig
    vectors := [Vec.ofBytes 1 [1, 2, 3, 4], Vec.ofBytes 1 [5, 6, 7, 8]]
    neighbours := [[[1], []], [[0], []]]
    entryPoint := 1
    maxLayer := 0
    nextId := 2
    rng := fun _ => 0 }, hfresh, ?_, rfl, rfl, ?_⟩
  · cases hfresh
    have hpasses := linkedGraph_passes
    refine load_eq_ok.mpr ⟨_, _, hpasses.graph, hpasses.version, hpasses.dim,
      hpasses.segment, hpasses.segDim, hpasses.count, ?_⟩
    have hvectors := HNSWIndex.copyVectors_ok MmapStore.twoRows_holds
    unfold HNSWIndex.loadFromSnapshot
    dsimp only
    change ((List.range 2).mapM
      (HNSWIndex.copyVector 1 MmapStore.twoRows) >>= _) = _
    rw [show (List.range 2).mapM (HNSWIndex.copyVector 1 MmapStore.twoRows) =
      .ok [Vec.ofBytes 1 [1, 2, 3, 4], Vec.ofBytes 1 [5, 6, 7, 8]]
      from hvectors]
    rfl
  · apply (load_safe_iff hfresh _ _ _).mpr
    intro g seg hpasses
    obtain ⟨rfl, rfl⟩ := linkedGraph_passes.unique hpasses
    exact {
      rows := by decide +kernel
      layers := by decide
      ids := by
        change ∀ lists ∈ [[[1]], [[0]]], ∀ list ∈ lists, ∀ id ∈ list,
          id < (2 : UInt32)
        simp
      entryPoint := by decide
      maxLayer := by decide
      empty := by decide }

/-- A segment of one vector. -/
def oneRow : MmapStore :=
  MmapStore.appended (MmapStore.created 1 0) (Vec.ofBytes 1 []).bytes

theorem oneRow_holds : MmapStore.Holds oneRow [Vec.ofBytes 1 []] :=
  (MmapStore.created_holds 1 0).appended (by decide) (by decide +kernel)
    (Vec.ofBytes 1 []) (by decide +kernel)

def strayGraph : String :=
  "\x7b\"version\":1,\"dim\":1,\"vec_count\":1,\"entry_point\":7," ++
    "\"max_layer\":0\x7d"

theorem strayGraph_passes :
    Passes OS.reliable (makePaths "data" 0) (filesOf oneRow strayGraph)
      HNSWIndex.smallConfig
      { version := 1, dim := 1, vecCount := 1, entryPoint := 7 } oneRow :=
  passes_of_holds oneRow_holds (by decide +kernel) (by decide) rfl rfl rfl

/-- The entry point is not compared with the count, and the first search on
the index reads outside its vectors. -/
theorem strayGraph_loads :
    ∃ fresh loaded : HNSWIndex (Vec HNSWIndex.smallConfig.dim.toUInt32),
      HNSWIndex.new HNSWIndex.smallConfig (fun _ => 0) = .ok fresh ∧
      load OS.reliable (makePaths "data" 0) (filesOf oneRow strayGraph) fresh =
        .ok loaded ∧
      ¬ LoadsSafely OS.reliable (makePaths "data" 0) (filesOf oneRow strayGraph)
        fresh ∧
      HNSWIndex.search (wordLine _) loaded (Vec.ofBytes _ []) 1 1 =
        .error .accessViolation := by
  refine ⟨_, {
    cfg := HNSWIndex.smallConfig
    vectors := [Vec.ofBytes 1 []]
    neighbours := [[[], []]]
    entryPoint := 7
    maxLayer := 0
    nextId := 1
    rng := fun _ => 0 }, rfl, ?_, ?_, rfl⟩
  · have hpasses := strayGraph_passes
    refine load_eq_ok.mpr ⟨_, _, hpasses.graph, hpasses.version, hpasses.dim,
      hpasses.segment, hpasses.segDim, hpasses.count, ?_⟩
    have hvectors := HNSWIndex.copyVectors_ok oneRow_holds
    rw [oneRow_holds.vecCount] at hvectors
    unfold HNSWIndex.loadFromSnapshot
    dsimp only
    rw [oneRow_holds.vecCount]
    change ((List.range 1).mapM (HNSWIndex.copyVector 1 oneRow) >>= _) = _
    rw [show (List.range 1).mapM (HNSWIndex.copyVector 1 oneRow) =
      .ok [Vec.ofBytes 1 []] from hvectors]
    rfl
  · rw [loadsSafely_iff rfl (by decide) rfl rfl rfl]
    intro hall
    exact absurd ((hall _ _ strayGraph_passes).entryPoint (by decide))
      (by decide)

end Storage
end VecDB
