import VecDB.SegmentCrash
import VecDB.ShardRestarts
import Mathlib.Tactic

/-!
# Stopping inside a snapshot

`snapshot_all` changes three files of every shard: it removes and rewrites the
segment, rewrites the graph and cuts the log.  A process that stops there
leaves the files after some of these changes, and the next manager is built on
them.
-/

namespace VecDB

open HNSWIndex

/-- One change of the files of a shard. -/
inductive FileEffect where
  | removeSeg
  | createSeg
  | seg (effect : ByteFile.Effect)
  | truncateGraph
  | putGraph (c : Char)
  | wal (effect : ByteFile.Effect)

namespace FileEffect

def apply (files : ShardFiles) : FileEffect → ShardFiles
  | removeSeg => { files with
      snapshot := { files.snapshot with seg := none } }
  | createSeg => { files with
      snapshot := { files.snapshot with seg := some ByteFile.empty } }
  | seg effect => { files with
      snapshot := { files.snapshot with
        seg := files.snapshot.seg.map fun file => effect.apply file } }
  | truncateGraph => { files with
      snapshot := { files.snapshot with graph := some [] } }
  | putGraph c => { files with
      snapshot := { files.snapshot with
        graph := files.snapshot.graph.map fun text => text ++ [c] } }
  | wal effect => { files with
      wal := files.wal.map fun file => effect.apply file }

def applyAll (files : ShardFiles) (effects : List FileEffect) : ShardFiles :=
  effects.foldl apply files

theorem applyAll_append (files : ShardFiles)
    (before after : List FileEffect) :
    applyAll files (before ++ after) =
      applyAll (applyAll files before) after :=
  List.foldl_append

theorem applyAll_seg (wal : Option ByteFile) (file : ByteFile)
    (graph : Option (List Char)) (effects : List ByteFile.Effect) :
    applyAll ⟨wal, some file, graph⟩ (effects.map seg) =
      ⟨wal, some (file.applyAll effects), graph⟩ := by
  induction effects generalizing file with
  | nil => rfl
  | cons effect effects ih => exact ih (effect.apply file)

theorem applyAll_putGraph (wal seg : Option ByteFile)
    (text chars : List Char) :
    applyAll ⟨wal, seg, some text⟩ (chars.map putGraph) =
      ⟨wal, seg, some (text ++ chars)⟩ := by
  induction chars generalizing text with
  | nil =>
      rw [List.append_nil]
      rfl
  | cons c chars ih =>
      have hrest := ih (text ++ [c])
      rw [List.append_assoc, List.singleton_append] at hrest
      exact hrest

theorem applyAll_wal (file : ByteFile) (snapshot : SnapshotFiles)
    (effects : List ByteFile.Effect) :
    applyAll ⟨some file, snapshot⟩ (effects.map wal) =
      ⟨some (file.applyAll effects), snapshot⟩ := by
  induction effects generalizing file with
  | nil => rfl
  | cons effect effects ih => exact ih (effect.apply file)

theorem applyAll_fill (files : ShardFiles) (fill : List ByteFile.Effect) :
    applyAll files (removeSeg :: createSeg :: fill.map seg) =
      ⟨files.wal, some (ByteFile.empty.applyAll fill),
        files.snapshot.graph⟩ :=
  applyAll_seg files.wal ByteFile.empty files.snapshot.graph fill

theorem applyAll_rewrite (file : ByteFile) (snapshot : SnapshotFiles)
    (fill cut : List ByteFile.Effect) (chars : List Char) :
    applyAll ⟨some file, snapshot⟩ (removeSeg :: createSeg ::
        (fill.map seg ++ truncateGraph ::
          (chars.map putGraph ++ cut.map FileEffect.wal))) =
      ⟨some (file.applyAll cut), some (ByteFile.empty.applyAll fill),
        some chars⟩ := by
  have hsplit : removeSeg :: createSeg :: (fill.map seg ++ truncateGraph ::
        (chars.map putGraph ++ cut.map FileEffect.wal)) =
      (removeSeg :: createSeg :: fill.map seg) ++ ([truncateGraph] ++
        (chars.map putGraph ++ cut.map FileEffect.wal)) := by simp
  have hopened : applyAll ⟨some file,
      some (ByteFile.empty.applyAll fill), snapshot.graph⟩ [truncateGraph] =
      ⟨some file, some (ByteFile.empty.applyAll fill), some []⟩ := rfl
  rw [hsplit, applyAll_append, applyAll_fill, applyAll_append, hopened,
    applyAll_append, applyAll_putGraph, applyAll_wal, List.nil_append]

end FileEffect

/-! ## The changes that a snapshot makes -/

namespace ShardState

variable {dim : UInt32}

/-- The segment is filled a byte at a time. -/
def segEffects (ns : ℕ) (ss : ShardState dim) : List ByteFile.Effect :=
  (MmapStore.segmentEffects dim ns ss.index.vectors).flatMap
    ByteFile.Effect.pieces

def graphChars (ss : ShardState dim) : List Char :=
  GraphText.writeJsonGraph ss.index

def walEffects (ss : ShardState dim) : List ByteFile.Effect :=
  (WAL.truncateEffects ss.wal).flatMap ByteFile.Effect.pieces

/-- `save_and_truncate_wal`. -/
def snapshotEffects (ns : ℕ) (ss : ShardState dim) : List FileEffect :=
  .removeSeg :: .createSeg :: ((ss.segEffects ns).map .seg ++
    .truncateGraph :: (ss.graphChars.map .putGraph ++
      ss.walEffects.map .wal))

/-- The files of the shard when the process stops after `done` changes. -/
def stopped (ns done : ℕ) (ss : ShardState dim) : ShardFiles :=
  FileEffect.applyAll ss.close ((ss.snapshotEffects ns).take done)

theorem stopped_filling {ns count : ℕ} {ss : ShardState dim}
    (hcount : count ≤ (ss.segEffects ns).length) :
    ss.stopped ns (count + 2) =
      ⟨some ss.wal.file,
        some (ByteFile.empty.applyAll ((ss.segEffects ns).take count)),
        ss.files.graph⟩ := by
  unfold stopped snapshotEffects
  rw [List.take_succ_cons, List.take_succ_cons, List.take_append,
    List.length_map, Nat.sub_eq_zero_of_le hcount, List.take_zero,
    List.append_nil, ← List.map_take, FileEffect.applyAll_fill]
  rfl

theorem stopped_writing (ns count : ℕ) (ss : ShardState dim) :
    ss.stopped ns ((ss.segEffects ns).length + 3 + count) =
      ⟨some (ss.wal.file.applyAll
          (ss.walEffects.take (count - ss.graphChars.length))),
        some (ByteFile.empty.applyAll (ss.segEffects ns)),
        some (ss.graphChars.take count)⟩ := by
  have hcount : (ss.segEffects ns).length + 3 + count =
      (ss.segEffects ns).length + (count + 1) + 1 + 1 := by omega
  unfold stopped snapshotEffects
  rw [hcount, List.take_succ_cons, List.take_succ_cons, List.take_append,
    List.length_map, List.take_of_length_le (by simp),
    Nat.add_sub_cancel_left, List.take_succ_cons, List.take_append,
    List.length_map, ← List.map_take, ← List.map_take]
  exact FileEffect.applyAll_rewrite ss.wal.file ss.files _ _ _

/-! ## What a new shard makes of the files -/

/-- The old graph is there, `P` holds of it, and with the entries of the log
it makes up the index; or there is none, and nothing in the index. -/
def Restores (P : GraphText.JsonGraph → Prop) (ss : ShardState dim) : Prop :=
  match ss.files.graph with
  | none => ss.index.size = 0
  | some text => ∃ g r, GraphText.parseText text = .ok (g, r) ∧ P g ∧
      g.vecCount.toNat + ss.wal.nextLsn = ss.index.size

/-- When a shard survives a stop after `done` of its changes. -/
def Survives (ns done : ℕ) (ss : ShardState dim) : Prop :=
  let filled := (ss.segEffects ns).length
  let written := ss.graphChars.length
  if done = 0 then ss.Restores fun _ => True
  -- there is no segment
  else if done = 1 then ss.index.size = 0
  -- the new segment is behind the old graph
  else if done ≤ filled + 2 then
    ss.Restores fun g => MmapStore.readAndValidateHeader
      (ByteFile.empty.applyAll ((ss.segEffects ns).take (done - 2))) =
        .ok (dim, g.vecCount.toNat)
  -- the log still has what is in the segment
  else if done ≤ filled + 3 + written then
    written ≤ done - (filled + 3) + 1 ∧ ss.wal.nextLsn = 0
  else
    ∃ ckptLsn, WAL.readHeader dim (WAL.opened (ss.wal.file.applyAll
      (ss.walEffects.take (done - (filled + 3) - written)))) = .ok ckptLsn

end ShardState

/-- A new shard on these files comes up with these vectors. -/
def ShardFiles.Recovers {D : Type} [Preorder D] [DecidableLT D] (cfg : HNSWConfig)
    (rt : Runtime (Vec cfg.dim.toUInt32) D) (dataDir : String) (s : ℕ)
    (rng : ℕ → ℕ) (vecs : List (Vec cfg.dim.toUInt32))
    (files : ShardFiles) : Prop :=
  ∃ fresh ss, ShardState.new OS.reliable cfg rng files s = .ok fresh ∧
    fresh.load OS.reliable rt dataDir = .ok ss ∧ ss.index.vectors = vecs

namespace ShardFiles

variable {D : Type} [Preorder D] [DecidableLT D] {cfg : HNSWConfig}
  {rt : Runtime (Vec cfg.dim.toUInt32) D} {dataDir : String} {s : ℕ}
  {rng : ℕ → ℕ} {vecs : List (Vec cfg.dim.toUInt32)} {files : ShardFiles}
  {w : WAL cfg.dim.toUInt32}

theorem not_recovers_of_wal
    (hwal : ∀ w, WAL.new OS.reliable cfg.dim.toUInt32 1000 files.wal ≠ .ok w) :
    ¬ files.Recovers cfg rt dataDir s rng vecs := by
  rintro ⟨fresh, ss, hnew, _⟩
  obtain ⟨index, w, _, hopen, _⟩ := ShardState.new_eq_ok.mp hnew
  exact hwal w hopen

theorem recovers_missing_iff (haccepted : Accepted cfg)
    (hwal : WAL.new OS.reliable cfg.dim.toUInt32 1000 files.wal = .ok w)
    (hmissing : files.snapshot.seg.isNone = true ∨
      files.snapshot.graph.isNone = true) :
    files.Recovers cfg rt dataDir s rng vecs ↔ vecs = [] := by
  constructor
  · rintro ⟨fresh, ss, hnew, hload, hvecs⟩
    obtain ⟨index, w', hindex, _, rfl⟩ := ShardState.new_eq_ok.mp hnew
    rw [ShardState.load, if_pos hmissing] at hload
    cases hload
    rw [← hvecs]
    exact (new_stores hindex).vectors_eq
  · rintro rfl
    obtain ⟨index, hindex⟩ := haccepted.new_ok rng
    exact ⟨_, _, ShardState.new_eq_ok.mpr ⟨index, w, hindex, hwal, rfl⟩,
      if_pos hmissing, (new_stores hindex).vectors_eq⟩

theorem not_recovers_of_load
    (hpresent : ¬ (files.snapshot.seg.isNone = true ∨
      files.snapshot.graph.isNone = true))
    (hload : ∀ paths (fresh index : HNSWIndex (Vec cfg.dim.toUInt32)),
      HNSWIndex.new cfg rng = .ok fresh →
      Storage.load OS.reliable paths files.snapshot fresh ≠ .ok index) :
    ¬ files.Recovers cfg rt dataDir s rng vecs := by
  rintro ⟨fresh, ss, hnew, hok, _⟩
  obtain ⟨index, w', hindex, _, rfl⟩ := ShardState.new_eq_ok.mp hnew
  rw [ShardState.load, if_neg hpresent, except_bind_eq_ok] at hok
  obtain ⟨loaded, hloaded, _⟩ := hok
  exact hload _ _ loaded hindex hloaded

/-- Files that load, and a log that is replayed behind them. -/
theorem recovers_iff (haccepted : Accepted cfg)
    (hwal : WAL.new OS.reliable cfg.dim.toUInt32 1000 files.wal = .ok w)
    (hpresent : ¬ (files.snapshot.seg.isNone = true ∨
      files.snapshot.graph.isNone = true))
    {loaded : List (Vec cfg.dim.toUInt32)}
    (hload : ∀ paths (fresh : HNSWIndex (Vec cfg.dim.toUInt32)),
      HNSWIndex.new cfg rng = .ok fresh →
      ∃ index, Storage.load OS.reliable paths files.snapshot fresh =
        .ok index ∧ Stores index cfg loaded)
    (hroom : Storable cfg vecs.length) :
    files.Recovers cfg rt dataDir s rng vecs ↔
      loaded ++ w.replay.1.map WALEntry.vec = vecs := by
  constructor
  · rintro ⟨fresh, ss, hnew, hok, hvecs⟩
    obtain ⟨index, w', hindex, hwal', rfl⟩ := ShardState.new_eq_ok.mp hnew
    rw [hwal] at hwal'
    cases hwal'
    rw [ShardState.load, if_neg hpresent, except_bind_eq_ok] at hok
    obtain ⟨restored, hrestored, hok⟩ := hok
    rw [except_bind_eq_ok] at hok
    obtain ⟨replayed, hreplayed, hok⟩ := hok
    cases hok
    obtain ⟨index', hindex', hstores⟩ := hload (makePaths dataDir s) index hindex
    rw [hindex'] at hrestored
    cases hrestored
    rw [← hvecs]
    exact (hstores.insertAll_eq_ok rt hreplayed).vectors_eq.symm
  · intro hvecs
    obtain ⟨index, hindex⟩ := haccepted.new_ok rng
    obtain ⟨restored, hrestored, hstores⟩ :=
      hload (makePaths dataDir s) index hindex
    have hlength : Storable cfg
        (loaded.length + (w.replay.1.map WALEntry.vec).length) := by
      rw [← List.length_append, hvecs]
      exact hroom
    obtain ⟨replayed, hreplayed⟩ := hstores.insertAll_ok rt hlength
    have hvectors := (hstores.insertAll_eq_ok rt hreplayed).vectors_eq
    obtain ⟨fresh, hfresh⟩ : ∃ fresh : ShardState cfg.dim.toUInt32,
        fresh = ⟨index, w, files.snapshot, s, true⟩ := ⟨_, rfl⟩
    refine ⟨fresh, { fresh with index := replayed },
      ShardState.new_eq_ok.mpr ⟨index, w, hindex, hwal, hfresh⟩, ?_,
      hvectors.trans hvecs⟩
    subst hfresh
    rw [ShardState.load, if_neg hpresent]
    dsimp only
    rw [hrestored, except_bind_ok, hreplayed]
    rfl

end ShardFiles

/-! ## A shard between two snapshots -/

/-- A shard that has only had inserts and snapshots. -/
structure Unbroken (cfg : HNSWConfig) (a : Stored cfg.dim.toUInt32)
    (ss : ShardState cfg.dim.toUInt32) : Prop where
  rep : Represents cfg a ss
  synced : LoggedStore.Synced Prod.snd a.live a
  unsaved : a.saved = none → ss.files.graph = none

namespace Unbroken

open GraphText

variable {D : Type} [Preorder D] [DecidableLT D] {cfg : HNSWConfig}
  {a : Stored cfg.dim.toUInt32} {ss ss' : ShardState cfg.dim.toUInt32}
  {rt : Runtime (Vec cfg.dim.toUInt32) D} {os : OS} {dataDir : String}
  {s ns : ℕ} {rng : ℕ → ℕ}

theorem accepted (h : Unbroken cfg a ss) : Accepted cfg := by
  obtain ⟨layers, hrep⟩ := h.rep.index.rep
  rw [← h.rep.index.cfg_eq]
  exact hrep.accepted

theorem wal_new (h : Unbroken cfg a ss) : ∃ w : WAL cfg.dim.toUInt32,
    WAL.new OS.reliable cfg.dim.toUInt32 1000 (some ss.wal.file) = .ok w ∧
      w.replay.1.map WALEntry.vec = a.log.map Prod.snd := by
  refine ⟨_, h.rep.log.new_close 1000, ?_⟩
  rw [(h.rep.log.bookkeeping 1000 0).replay, WAL.map_vec_numbered]

theorem saved_append_log_iff (h : Unbroken cfg a ss)
    {vecs : List (Vec cfg.dim.toUInt32)} (hsaved : a.saved = some vecs) :
    vecs ++ a.log.map Prod.snd = a.live ↔
      vecs.length + ss.wal.nextLsn = ss.index.size := by
  obtain ⟨recent, hlog, hlive⟩ := h.synced.split
  rw [h.rep.index.size_eq, h.rep.log.holds.next]
  rw [hsaved, Option.getD_some] at hlive
  constructor
  · intro heq
    rw [← heq, List.length_append, List.length_map]
  · intro hlength
    rw [hlive, hlog, List.length_append, List.length_append,
      List.length_map] at hlength
    have hstale : a.stale = [] :=
      List.eq_nil_of_length_eq_zero (by omega)
    rw [hlog, hstale, List.nil_append, hlive]

theorem size_eq_zero_iff (h : Unbroken cfg a ss) :
    ss.index.size = 0 ↔ a.live = [] := by
  rw [h.rep.index.size_eq]
  exact List.length_eq_zero_iff

theorem vecCount_of_stores {vecs : List (Vec cfg.dim.toUInt32)}
    {saved : HNSWIndex (Vec cfg.dim.toUInt32)}
    (hstores : Stores saved cfg vecs) :
    (graphOf saved).vecCount.toNat = vecs.length := by
  have hsize := hstores.size_eq
  have hlt := hstores.storable.1
  unfold graphOf
  dsimp only
  rw [hsize, UInt32.toNat_ofNat_of_lt' hlt]

theorem restores_iff {vecs : List (Vec cfg.dim.toUInt32)}
    {saved : HNSWIndex (Vec cfg.dim.toUInt32)}
    (hgraph : ss.files.graph = some (writeJsonGraph saved))
    (hstores : Stores saved cfg vecs) (P : JsonGraph → Prop) :
    ss.Restores P ↔ P (graphOf saved) ∧
      vecs.length + ss.wal.nextLsn = ss.index.size := by
  have hcount := vecCount_of_stores hstores
  have hparse := parseText_graphText saved "\n".toList
  rw [← writeJsonGraph_eq] at hparse
  unfold ShardState.Restores
  rw [hgraph]
  dsimp only
  constructor
  · rintro ⟨g, r, hg, hP, hsum⟩
    rw [hparse] at hg
    cases hg
    exact ⟨hP, by rwa [hcount] at hsum⟩
  · rintro ⟨hP, hsum⟩
    exact ⟨_, _, hparse, hP, by rwa [hcount]⟩

theorem restores_none (hgraph : ss.files.graph = none)
    (P : JsonGraph → Prop) : ss.Restores P ↔ ss.index.size = 0 := by
  unfold ShardState.Restores
  rw [hgraph]

theorem recovers_without_graph (h : Unbroken cfg a ss)
    {snapshot : SnapshotFiles} (hgraph : snapshot.graph = none) :
    ShardFiles.Recovers cfg rt dataDir s rng a.live
        ⟨some ss.wal.file, snapshot⟩ ↔ ss.index.size = 0 := by
  obtain ⟨w, hwal, _⟩ := h.wal_new
  rw [h.size_eq_zero_iff]
  apply ShardFiles.recovers_missing_iff h.accepted hwal
  right
  rw [hgraph]
  rfl

/-! ### Before the graph is opened -/

theorem recovers_before_iff (h : Unbroken cfg a ss) :
    (ss.stopped ns 0).Recovers cfg rt dataDir s rng a.live ↔
      ss.Restores fun _ => True := by
  obtain ⟨w, hwal, hreplay⟩ := h.wal_new
  have hfiles := h.rep.files
  have hstopped : ss.stopped ns 0 = ss.close := rfl
  rw [hstopped]
  cases hsaved : a.saved with
  | none =>
      have hgraph := h.unsaved hsaved
      rw [restores_none hgraph]
      exact h.recovers_without_graph hgraph
  | some vecs =>
      rw [hsaved] at hfiles
      obtain ⟨saved, hstores, hold⟩ := id hfiles
      have hgraph : ss.files.graph = some (writeJsonGraph saved) := by
        obtain ⟨s, hs, _⟩ := hold
        rw [hs]
      have hpresent := mt hfiles.missing_iff.mp (Option.some_ne_none vecs)
      rw [restores_iff hgraph hstores, ← h.saved_append_log_iff hsaved,
        ShardFiles.recovers_iff h.accepted hwal hpresent
          (fun paths fresh hnew => hfiles.load_ok hnew paths)
          h.rep.index.storable, hreplay]
      exact (and_iff_right trivial).symm

theorem recovers_removed_iff (h : Unbroken cfg a ss) :
    (ss.stopped ns 1).Recovers cfg rt dataDir s rng a.live ↔
      ss.index.size = 0 := by
  obtain ⟨w, hwal, _⟩ := h.wal_new
  rw [h.size_eq_zero_iff]
  exact ShardFiles.recovers_missing_iff h.accepted hwal (Or.inl rfl)

theorem snapshot_effects (h : Unbroken cfg a ss)
    (hok : ss.snapshot os dataDir ns = .ok ss') :
    (∀ count, MmapStore.Filling a.live
      (ByteFile.empty.applyAll ((ss.segEffects ns).take count))) ∧
      (∃ seg, MmapStore.Holds seg a.live ∧
        ByteFile.empty.applyAll (ss.segEffects ns) = seg.file ∧
        ss'.files = ⟨some seg.file, some ss.graphChars⟩) ∧
      ss.wal.file.applyAll ss.walEffects = ss'.wal.file := by
  rw [ShardState.snapshot_eq, except_bind_eq_ok] at hok
  obtain ⟨ss₁, hsave, htruncate⟩ := hok
  obtain ⟨h₁, ⟨seg, hfiles, hseg⟩, _, _⟩ := h.rep.saveStep_eq_ok hsave
  obtain ⟨_, _, hsame, _⟩ := h₁.truncateStep_eq_ok htruncate
  obtain ⟨layers, hrep⟩ := h.rep.index.rep
  rw [ShardState.saveStep, except_bind_eq_ok] at hsave
  obtain ⟨files, hsave, hss₁⟩ := hsave
  cases hss₁
  rw [Storage.save, except_bind_eq_ok] at hsave
  obtain ⟨image, hwrite, himage⟩ := hsave
  cases himage
  obtain ⟨hstops, hwhole⟩ := Storage.segmentEffects_filling hrep
    (by rw [h.rep.index.cfg_eq]) hwrite
  have hvectors := h.rep.index.vectors_eq
  cases hfiles
  refine ⟨?_, ⟨seg, ?_, ?_, hsame⟩, ?_⟩
  · rw [← hvectors]
    exact hstops
  · rwa [← hvectors]
  · unfold ShardState.segEffects
    rw [ByteFile.applyAll_flatMap_pieces]
    exact hwhole
  · unfold ShardState.truncateStep at htruncate
    dsimp only at htruncate
    cases hrun : (WAL.truncate os ss.wal.nextLsn).run ss.wal with
    | error e w => simp [hrun] at htruncate
    | ok u w =>
        rw [hrun] at htruncate
        cases htruncate
        unfold ShardState.walEffects
        rw [ByteFile.applyAll_flatMap_pieces]
        exact WAL.applyAll_truncateEffects hrun

/-! ### While the segment is filled -/

/-- A part of the new segment loads with the old graph when it has as many
vectors. -/
theorem load_filling (h : Unbroken cfg a ss)
    {vecs : List (Vec cfg.dim.toUInt32)} (hsaved : a.saved = some vecs)
    {saved : HNSWIndex (Vec cfg.dim.toUInt32)}
    (hstores : Stores saved cfg vecs) {file : ByteFile}
    (hfilling : MmapStore.Filling a.live file)
    (hheader : MmapStore.readAndValidateHeader file =
      .ok (cfg.dim.toUInt32, vecs.length)) (paths : SnapshotPaths)
    (fresh : HNSWIndex (Vec cfg.dim.toUInt32))
    (hnew : HNSWIndex.new cfg rng = .ok fresh) :
    ∃ index, Storage.load OS.reliable paths
        ⟨some file, some (writeJsonGraph saved)⟩ fresh = .ok index ∧
      Stores index cfg vecs := by
  obtain ⟨recent, _, hlive⟩ := h.synced.split
  rw [hsaved, Option.getD_some] at hlive
  obtain ⟨hseg, _⟩ := hfilling.holds h.rep.index.storable.1 hheader
  have htake : a.live.take vecs.length = saved.vectors := by
    rw [hlive, List.take_left, hstores.vectors_eq]
  rw [htake] at hseg
  have hold : Storage.Saved ⟨some file, some (writeJsonGraph saved)⟩ saved :=
    ⟨_, rfl, hseg⟩
  exact ⟨saved.reloaded rng,
    hold.load_eq hstores (fun _ => hold.reliable_mmap) hnew paths,
    hstores.reloaded rng⟩

theorem header_of_load {vecs : List (Vec cfg.dim.toUInt32)}
    {saved : HNSWIndex (Vec cfg.dim.toUInt32)}
    (hstores : Stores saved cfg vecs) {file : ByteFile}
    {paths : SnapshotPaths} {fresh index : HNSWIndex (Vec cfg.dim.toUInt32)}
    (hnew : HNSWIndex.new cfg rng = .ok fresh)
    (hload : Storage.load OS.reliable paths
      ⟨some file, some (writeJsonGraph saved)⟩ fresh = .ok index) :
    MmapStore.readAndValidateHeader file =
      .ok (cfg.dim.toUInt32, vecs.length) := by
  obtain ⟨g, seg, hgraph, _, hdim, hopen, hsegDim, hcount, _⟩ :=
    Storage.load_eq_ok.mp hload
  obtain ⟨text, r, htext, hparse⟩ := Storage.parseJsonGraph_eq_ok.mp hgraph
  cases htext
  rw [writeJsonGraph_eq, parseText_graphText] at hparse
  cases hparse
  have hfresh : fresh.cfg = cfg := by rw [(new_eq_ok hnew).2]
  unfold MmapStore.openFile at hopen
  dsimp only at hopen
  split_ifs at hopen
  cases hheader : MmapStore.readAndValidateHeader file with
  | error e =>
      rw [hheader] at hopen
      cases hopen
  | ok fields =>
      obtain ⟨dim, count⟩ := fields
      rw [hheader] at hopen
      cases hopen
      dsimp only at hsegDim hcount
      rw [hsegDim, hcount, hdim, hfresh, vecCount_of_stores hstores]

theorem recovers_filling_iff (h : Unbroken cfg a ss)
    (hok : ss.snapshot os dataDir ns = .ok ss') {count : ℕ}
    (hcount : count ≤ (ss.segEffects ns).length) :
    (ss.stopped ns (count + 2)).Recovers cfg rt dataDir s rng a.live ↔
      ss.Restores fun g => MmapStore.readAndValidateHeader
        (ByteFile.empty.applyAll ((ss.segEffects ns).take count)) =
          .ok (cfg.dim.toUInt32, g.vecCount.toNat) := by
  obtain ⟨w, hwal, hreplay⟩ := h.wal_new
  have hfilling := (h.snapshot_effects hok).1 count
  rw [ShardState.stopped_filling hcount]
  generalize ByteFile.empty.applyAll ((ss.segEffects ns).take count) = file
    at hfilling
  cases hsaved : a.saved with
  | none =>
      have hgraph := h.unsaved hsaved
      rw [restores_none hgraph]
      exact h.recovers_without_graph hgraph
  | some vecs =>
      have hfiles := h.rep.files
      rw [hsaved] at hfiles
      obtain ⟨saved, hstores, seg, hold, _⟩ := hfiles
      have hgraph : ss.files.graph = some (writeJsonGraph saved) := by
        rw [hold]
      rw [restores_iff hgraph hstores, vecCount_of_stores hstores,
        ← h.saved_append_log_iff hsaved, hgraph]
      by_cases hheader : MmapStore.readAndValidateHeader file =
          .ok (cfg.dim.toUInt32, vecs.length)
      · rw [and_iff_right hheader, ← hreplay]
        exact ShardFiles.recovers_iff h.accepted hwal (by simp)
          (fun paths fresh hnew =>
            h.load_filling hsaved hstores hfilling hheader paths fresh hnew)
          h.rep.index.storable
      · refine iff_of_false ?_ (fun hboth => hheader hboth.1)
        apply ShardFiles.not_recovers_of_load (by simp)
        intro paths fresh index hnew hload
        exact hheader (header_of_load hstores hnew hload)

/-! ### From the first change of the graph on -/

theorem load_written {ss : ShardState cfg.dim.toUInt32}
    (hindex : Stores ss.index cfg a.live) {seg : MmapStore}
    (hseg : MmapStore.Holds seg a.live) {count : ℕ}
    (hcount : ss.graphChars.length ≤ count + 1) (paths : SnapshotPaths)
    (fresh : HNSWIndex (Vec cfg.dim.toUInt32))
    (hnew : HNSWIndex.new cfg rng = .ok fresh) :
    ∃ index, Storage.load OS.reliable paths
        ⟨some seg.file, some (ss.graphChars.take count)⟩ fresh =
          .ok index ∧ Stores index cfg a.live := by
  obtain ⟨g, r, hparse⟩ := (parseText_take_iff ss.index count).mpr hcount
  have hg := parseText_take hparse
  rw [hg] at hparse
  obtain ⟨layers, hrep⟩ := hindex.rep
  rw [← hindex.vectors_eq] at hseg
  have hmmap : OS.reliable.mmap seg.mapSize = true := by
    simpa [OS.reliable] using hseg.mapSize_lt
  have hcfg := hindex.cfg_eq
  exact ⟨_, Storage.load_ok hrep (by rw [hcfg]) hseg hmmap hparse
    (by rwa [hcfg]) paths, hindex.reloaded rng⟩

theorem recovers_writing_iff (h : Unbroken cfg a ss)
    (hok : ss.snapshot os dataDir ns = .ok ss') {count : ℕ}
    (hcount : count ≤ ss.graphChars.length) :
    (ss.stopped ns ((ss.segEffects ns).length + 3 + count)).Recovers cfg rt
        dataDir s rng a.live ↔
      ss.graphChars.length ≤ count + 1 ∧ ss.wal.nextLsn = 0 := by
  obtain ⟨w, hwal, hreplay⟩ := h.wal_new
  obtain ⟨_, ⟨seg, hseg, hfile, _⟩, _⟩ := h.snapshot_effects hok
  rw [ShardState.stopped_writing, Nat.sub_eq_zero_of_le hcount,
    List.take_zero, ByteFile.applyAll_nil, hfile]
  by_cases hwhole : ss.graphChars.length ≤ count + 1
  · rw [and_iff_right hwhole, ShardFiles.recovers_iff h.accepted hwal
      (by simp) (fun paths fresh hnew =>
        load_written h.rep.index hseg hwhole paths fresh hnew)
      h.rep.index.storable, hreplay, List.append_right_eq_self,
      List.map_eq_nil_iff, h.rep.log.holds.next, List.length_eq_zero_iff]
  · refine iff_of_false ?_ (fun hboth => hwhole hboth.1)
    apply ShardFiles.not_recovers_of_load (by simp)
    intro paths fresh index _ hload
    obtain ⟨g, _, hgraph, _⟩ := Storage.load_eq_ok.mp hload
    obtain ⟨text, r, htext, hparse⟩ :=
      Storage.parseJsonGraph_eq_ok.mp hgraph
    cases htext
    exact hwhole ((parseText_take_iff ss.index count).mp ⟨g, r, hparse⟩)

theorem recovers_cutting_iff (h : Unbroken cfg a ss)
    (hok : ss.snapshot os dataDir ns = .ok ss') {count : ℕ}
    (hcount : count < ss.walEffects.length) :
    (ss.stopped ns ((ss.segEffects ns).length + 3 +
        (ss.graphChars.length + (count + 1)))).Recovers cfg rt dataDir s rng
        a.live ↔
      ∃ ckptLsn, WAL.readHeader cfg.dim.toUInt32 (WAL.opened
        (ss.wal.file.applyAll (ss.walEffects.take (count + 1)))) =
          .ok ckptLsn := by
  obtain ⟨_, ⟨seg, hseg, hfile, _⟩, _⟩ := h.snapshot_effects hok
  have hlt : ss.wal.checkpointLsn < ss.wal.nextLsn := by
    by_contra hle
    unfold ShardState.walEffects WAL.truncateEffects at hcount
    rw [if_pos (not_lt.mp hle)] at hcount
    simp at hcount
  have hcut := WAL.cut_of_stop hlt count
  rw [ShardState.stopped_writing, Nat.add_sub_cancel_left, hfile]
  constructor
  · intro hrecovers
    by_contra hheader
    apply ShardFiles.not_recovers_of_wal _ hrecovers
    intro w hnew
    obtain ⟨_, _, ckptLsn, hok, _⟩ := WAL.new_some_eq_ok hnew
    exact hheader ⟨ckptLsn, hok⟩
  · rintro ⟨ckptLsn, hheader⟩
    obtain ⟨w, hnew⟩ := hcut.new_ok h.rep.log.dim_ne_zero 1000 hheader
    have hnone := hcut.replay_eq_nil hnew
    rw [ShardFiles.recovers_iff h.accepted hnew (by simp)
      (fun paths fresh hnew => load_written h.rep.index hseg (by omega) paths
        fresh hnew) h.rep.index.storable, hnone, List.map_nil,
      List.append_nil]

theorem length_snapshotEffects (ns : ℕ) {dim : UInt32}
    (ss : ShardState dim) :
    (ss.snapshotEffects ns).length = (ss.segEffects ns).length + 3 +
      ss.graphChars.length + ss.walEffects.length := by
  unfold ShardState.snapshotEffects
  simp only [List.length_cons, List.length_append, List.length_map]
  omega

theorem stopped_snapshot (h : Unbroken cfg a ss)
    (hok : ss.snapshot os dataDir ns = .ok ss') :
    ss.stopped ns (ss.snapshotEffects ns).length = ss'.close := by
  obtain ⟨_, ⟨seg, _, hfile, hfiles⟩, hwal⟩ := h.snapshot_effects hok
  rw [length_snapshotEffects, Nat.add_assoc, ShardState.stopped_writing,
    Nat.add_sub_cancel_left, List.take_length, hwal, hfile,
    List.take_of_length_le (Nat.le_add_right _ _), ShardState.close, hfiles]
  rfl

/-- A shard recovers from a stop exactly when it survives it. -/
theorem recovers_iff (h : Unbroken cfg a ss)
    (hok : ss.snapshot os dataDir ns = .ok ss') {done : ℕ}
    (hdone : done ≤ (ss.snapshotEffects ns).length) :
    (ss.stopped ns done).Recovers cfg rt dataDir s rng a.live ↔
      ss.Survives ns done := by
  rw [length_snapshotEffects] at hdone
  unfold ShardState.Survives
  dsimp only
  split_ifs with hbefore hremoved hfilling hwriting
  · rw [hbefore]
    exact h.recovers_before_iff
  · rw [hremoved]
    exact h.recovers_removed_iff
  · obtain ⟨count, rfl⟩ := Nat.exists_eq_add_of_le' (show 2 ≤ done by omega)
    rw [Nat.add_sub_cancel]
    exact h.recovers_filling_iff hok (by omega)
  · obtain ⟨count, rfl⟩ := Nat.exists_eq_add_of_le
      (show (ss.segEffects ns).length + 3 ≤ done by omega)
    rw [Nat.add_sub_cancel_left]
    exact h.recovers_writing_iff hok (by omega)
  · obtain ⟨count, rfl⟩ := Nat.exists_eq_add_of_le
      (show (ss.segEffects ns).length + 3 +
        (ss.graphChars.length + 1) ≤ done by omega)
    have hcount : (ss.segEffects ns).length + 3 +
        (ss.graphChars.length + 1) + count =
        (ss.segEffects ns).length + 3 +
          (ss.graphChars.length + (count + 1)) := by omega
    rw [hcount, Nat.add_sub_cancel_left, Nat.add_sub_cancel_left]
    exact h.recovers_cutting_iff hok (by omega)

end Unbroken

/-! ## All shards -/

namespace ShardManager

variable {dim : UInt32}

/-- `snapshot_all`: the changes of every shard, one shard after another. -/
def snapshotEffects (ns : ℕ → ℕ) (m : ShardManager dim) :
    List (ℕ × FileEffect) :=
  m.shards.flatMap fun ss =>
    (ss.snapshotEffects (ns ss.shardId)).map fun effect =>
      (ss.shardId, effect)

/-- Those of shard `s` among the first `done` changes. -/
def changes (ns : ℕ → ℕ) (done : ℕ) (m : ShardManager dim) (s : ℕ) :
    List FileEffect :=
  (((m.snapshotEffects ns).take done).filter fun change =>
    decide (change.1 = s)).map Prod.snd

/-- What a process leaves in `data_dir` that stops after `done` changes. -/
def stopped (ns : ℕ → ℕ) (done : ℕ) (m : ShardManager dim) (s : ℕ) :
    ShardFiles :=
  FileEffect.applyAll (m.close s) (m.changes ns done s)

end ShardManager

namespace Deployment

open LoggedStore

variable {D : Type} [Preorder D] [DecidableLT D] {dep : Deployment D}
  {os : OS} {rngs₀ rngs : ℕ → ℕ → ℕ} {ring : ConsistentHashRing}
  {states : ℕ → Stored dep.Dim} {m m' : ShardManager dep.Dim}

/-- A new manager on the files comes up with the vectors of the calls. -/
def RecoversFrom (dep : Deployment D) (ring : ConsistentHashRing)
    (calls : List (UInt64 × Vec dep.Dim)) (rngs : ℕ → ℕ → ℕ)
    (disk : ℕ → ShardFiles) : Prop :=
  ∃ m₁ m', dep.start OS.reliable rngs disk = .ok m₁ ∧
    m₁.loadAll OS.reliable dep.rt = .ok m' ∧ HoldsRouted ring calls m'

theorem recoversFrom_iff
    (hring : ConsistentHashRing.new dep.sorter dep.shardCount
      dep.virtualNodes = .ok ring)
    {calls : List (UInt64 × Vec dep.Dim)} {disk : ℕ → ShardFiles} :
    RecoversFrom dep ring calls rngs disk ↔ ∀ s < dep.shardCount.toNat,
      (disk s).Recovers dep.cfg dep.rt dep.dataDir s (rngs s)
        ((routedTo ring s calls).map Prod.snd) := by
  constructor
  · rintro ⟨m₁, m', hstart, hload, hholds⟩ s hs
    obtain ⟨_, _, _, hdir, hlength, hnew⟩ := start_eq_ok hstart
    obtain ⟨_, hlength', hall⟩ := loadAll_shards hload
    have hlt : s < m'.shards.length := by omega
    have hss' := List.getElem?_eq_getElem hlt
    obtain ⟨ss, hss, hone⟩ := hall s _ hss'
    rw [hdir] at hone
    exact ⟨ss, _, hnew s ss hss, hone, hholds s _ hss'⟩
  · intro hall
    obtain ⟨m₁, hstart⟩ : ∃ m₁, dep.start OS.reliable rngs disk = .ok m₁ := by
      apply start_ok hring
      intro s hs
      obtain ⟨fresh, _, hfresh, _⟩ := hall s hs
      exact ⟨fresh, hfresh⟩
    obtain ⟨_, _, _, hdir, hlength, hbuilt⟩ := start_eq_ok hstart
    have hrecovered : ∀ s ss, m₁.shards[s]? = some ss → ∃ ss',
        ss.load OS.reliable dep.rt m₁.dataDir = .ok ss' ∧
          ss'.index.vectors = (routedTo ring s calls).map Prod.snd := by
      intro s ss hss
      have hs : s < dep.shardCount.toNat := by
        rw [← hlength]
        exact (List.getElem?_eq_some_iff.mp hss).1
      obtain ⟨fresh, ss', hfresh, hload, hvecs⟩ := hall s hs
      have hsame := hbuilt s ss hss
      rw [hfresh] at hsame
      cases hsame
      rw [hdir]
      exact ⟨ss', hload, hvecs⟩
    obtain ⟨m', hload⟩ := loadAll_of_shards fun s ss hss =>
      (hrecovered s ss hss).imp fun _ => And.left
    refine ⟨m₁, m', hstart, hload, ?_⟩
    intro s ss' hss'
    obtain ⟨ss, hss, hone⟩ := (loadAll_shards hload).2.2 s ss' hss'
    obtain ⟨ss'', hone', hvecs⟩ := hrecovered s ss hss
    rw [hone] at hone'
    cases hone'
    exact hvecs

theorem flatMap_eq_of_unique {α β : Type} {f : α → List β} {l : List α}
    {i : ℕ} {a : α} (ha : l[i]? = some a)
    (hothers : ∀ j, j ≠ i → ∀ b, l[j]? = some b → f b = []) :
    l.flatMap f = f a := by
  induction l generalizing i with
  | nil => simp at ha
  | cons b l ih =>
      rw [List.flatMap_cons]
      cases i with
      | zero =>
          rw [List.getElem?_cons_zero, Option.some.injEq] at ha
          have hrest : l.flatMap f = [] := by
            apply List.flatMap_eq_nil_iff.mpr
            intro c hc
            obtain ⟨j, hj⟩ := List.mem_iff_getElem?.mp hc
            exact hothers (j + 1) (Nat.succ_ne_zero j) c hj
          rw [hrest, List.append_nil, ha]
      | succ i =>
          have hfirst : f b = [] := hothers 0 (Nat.succ_ne_zero i).symm b rfl
          rw [hfirst, List.nil_append]
          exact ih ha fun j hj c hc =>
            hothers (j + 1) (fun hsame => hj (Nat.succ.inj hsame)) c hc

theorem Refines.filter_snapshotEffects (h : Refines dep ring states m)
    (ns : ℕ → ℕ) {s : ℕ} {ss : ShardState dep.Dim}
    (hss : m.shards[s]? = some ss) :
    ((m.snapshotEffects ns).filter fun change =>
      decide (change.1 = s)).map Prod.snd = ss.snapshotEffects (ns s) := by
  unfold ShardManager.snapshotEffects
  rw [List.filter_flatMap, flatMap_eq_of_unique hss]
  · rw [(h.shard s ss hss).2]
    simp [List.filter_map, Function.comp_def]
  · intro t hts other hother
    rw [List.filter_eq_nil_iff]
    intro change hchange
    obtain ⟨effect, _, rfl⟩ := List.mem_map.mp hchange
    simpa [(h.shard t other hother).2] using hts

theorem Refines.changes_eq (h : Refines dep ring states m) (ns : ℕ → ℕ)
    (done : ℕ) {s : ℕ} {ss : ShardState dep.Dim}
    (hss : m.shards[s]? = some ss) :
    (m.changes ns done s).length ≤ (ss.snapshotEffects (ns s)).length ∧
      m.changes ns done s = (ss.snapshotEffects (ns s)).take
        (m.changes ns done s).length := by
  have hinit : m.changes ns done s <+: ss.snapshotEffects (ns s) := by
    rw [← h.filter_snapshotEffects ns hss]
    exact ((List.take_prefix done (m.snapshotEffects ns)).filter _).map _
  exact ⟨hinit.length_le, List.prefix_iff_eq_take.mp hinit⟩

theorem Refines.stopped_eq (h : Refines dep ring states m) (ns : ℕ → ℕ)
    (done : ℕ) {s : ℕ} {ss : ShardState dep.Dim}
    (hss : m.shards[s]? = some ss) :
    m.stopped ns done s =
      ss.stopped (ns s) (m.changes ns done s).length := by
  unfold ShardManager.stopped ShardState.stopped
  rw [← (h.changes_eq ns done hss).2, ShardManager.close, hss]

/-! ## Runs of inserts and snapshots -/

theorem Refines.snapshot_shard (h : Refines dep ring states m)
    {ns : ℕ → ℕ} (hsnap : m.snapshotAll os ns = .ok m') {s : ℕ}
    {ss : ShardState dep.Dim} (hss : m.shards[s]? = some ss) :
    ∃ ss', m'.shards[s]? = some ss' ∧
      ss.snapshot os m.dataDir (ns s) = .ok ss' := by
  have hid := (h.shard s ss hss).2
  rw [ShardManager.snapshotAll, except_bind_eq_ok] at hsnap
  obtain ⟨shards, hshards, hsnap⟩ := hsnap
  cases hsnap
  obtain ⟨hlength, hall⟩ := mapM_eq_ok hshards
  have hlt : s < shards.length := by
    rw [hlength]
    exact (List.getElem?_eq_some_iff.mp hss).1
  have hss' := List.getElem?_eq_getElem hlt
  obtain ⟨ss₁, hss₁, hone⟩ := hall s _ hss'
  rw [hss] at hss₁
  cases hss₁
  rw [hid] at hone
  exact ⟨_, hss', hone⟩

theorem insert_files {vectorId : UInt64} {vec : Vec dep.Dim} {out : ℕ × ℕ}
    (hok : m.insert os dep.rt vectorId vec = .ok (out, m')) {s : ℕ}
    {ss' : ShardState dep.Dim} (hss' : m'.shards[s]? = some ss') :
    ∃ ss, m.shards[s]? = some ss ∧ ss'.files = ss.files := by
  rw [ShardManager.insert, except_bind_eq_ok] at hok
  obtain ⟨t, _, hok⟩ := hok
  cases hst : m.shards[t]? with
  | none =>
      rw [hst] at hok
      cases hok
  | some st =>
      simp only [hst, except_bind_eq_ok] at hok
      obtain ⟨⟨nodeId, st'⟩, hinsert, hok⟩ := hok
      cases hok
      have hfiles : st'.files = st.files := by
        unfold ShardState.insert at hinsert
        cases happend : (WAL.append os vectorId vec).run st.wal with
        | error e w => simp [happend] at hinsert
        | ok lsn w =>
            simp only [happend, except_bind_eq_ok] at hinsert
            obtain ⟨⟨id, index⟩, _, hinsert⟩ := hinsert
            cases hinsert
            rfl
      have hlt := (List.getElem?_eq_some_iff.mp hst).1
      by_cases hts : t = s
      · subst hts
        rw [List.getElem?_set_self hlt] at hss'
        cases hss'
        exact ⟨st, hst, hfiles⟩
      · rw [List.getElem?_set_ne hts] at hss'
        exact ⟨ss', hss', rfl⟩

theorem graph_eq_none {ops : List (ShardManager.Op dep.Dim)}
    (hops : ∀ load rngs, .restart load rngs ∉ ops)
    (hrun : dep.runFresh os rngs₀ ops = .ok m) {s : ℕ}
    {ss : ShardState dep.Dim} (hss : m.shards[s]? = some ss)
    (hsaved : (history m.ring s ops).saved = none) :
    ss.files.graph = none := by
  induction ops using List.reverseRecOn generalizing m ss with
  | nil =>
      rw [runFresh_nil] at hrun
      have hnew := (start_eq_ok hrun).2.2.2.2.2 s ss hss
      obtain ⟨_, _, _, _, rfl⟩ := ShardState.new_eq_ok.mp hnew
      rfl
  | append_singleton ops op ih =>
      rw [runFresh_append, except_bind_eq_ok] at hrun
      obtain ⟨m₁, hfirst, hlast⟩ := hrun
      have h₁ := runFresh_eq_ok hfirst
      have hring : m.ring = m₁.ring :=
        (h₁.run_eq_ok hlast).ring_eq
      rw [hring, history_append] at hsaved
      cases op with
      | insert vectorId vec =>
          rw [run, except_bind_eq_ok] at hlast
          obtain ⟨m₂, hstep, hlast⟩ := hlast
          cases hlast
          rw [step, except_bind_eq_ok] at hstep
          obtain ⟨⟨out, m₃⟩, hinsert, hstep⟩ := hstep
          cases hstep
          obtain ⟨ss₁, hss₁, hfiles⟩ := insert_files hinsert hss
          rw [hfiles]
          apply ih (fun load rngs hmem =>
            hops load rngs (List.mem_append_left _ hmem)) hfirst hss₁
          have hrequests : (serve 1000 Prod.snd (requests m₁.ring s
              [.insert vectorId vec]) (history m₁.ring s ops)).saved =
              (history m₁.ring s ops).saved := by
            unfold requests request
            by_cases howns : m₁.ring.getShard vectorId = .ok s
            · simp [howns, add]
            · simp [howns]
          rwa [hrequests] at hsaved
      | snapshotAll ns =>
          have hcompact : requests m₁.ring s
              ([.snapshotAll ns] : List (ShardManager.Op dep.Dim)) =
              [.compact] := rfl
          rw [hcompact, serve_compact, truncate_saved] at hsaved
          cases hsaved
      | restart load rngs =>
          exact absurd (List.mem_append_right _ List.mem_cons_self)
            (hops load rngs)

theorem unbroken_run {ops : List (ShardManager.Op dep.Dim)}
    (hops : ∀ load rngs, .restart load rngs ∉ ops)
    (hrun : dep.runFresh os rngs₀ ops = .ok m) {s : ℕ}
    {ss : ShardState dep.Dim} (hss : m.shards[s]? = some ss) :
    Unbroken dep.cfg (history m.ring s ops) ss ∧
      (history m.ring s ops).live =
        (routedTo m.ring s (insertCalls ops)).map Prod.snd := by
  have hnone : ∀ before load after,
      requests m.ring s ops ≠ before ++ .restart load :: after := by
    intro before load after hsplit
    obtain ⟨opsBefore, rngs, opsAfter, rfl, _⟩ := requests_split hsplit
    exact hops load rngs (by simp)
  have hguarded : Guarded (requests m.ring s ops) :=
    fun before load after hsplit => absurd hsplit (hnone before load after)
  have hstale : NoneStale 1000 Prod.snd (requests m.ring s ops) :=
    fun before after hsplit => absurd hsplit (hnone before true after)
  have hsynced := hstale.synced hguarded
  rw [inserted_requests] at hsynced
  have hlive : (history m.ring s ops).live =
      (routedTo m.ring s (insertCalls ops)).map Prod.snd := hsynced.live
  refine ⟨⟨((runFresh_eq_ok hrun).shard s ss hss).1, ?_,
    graph_eq_none hops hrun hss⟩, hlive⟩
  rw [hlive]
  exact hsynced

/-- All the changes are those of a snapshot that is not stopped. -/
theorem stopped_snapshotAll {ops : List (ShardManager.Op dep.Dim)}
    (hops : ∀ load rngs, .restart load rngs ∉ ops)
    (hrun : dep.runFresh os rngs₀ ops = .ok m) {ns : ℕ → ℕ}
    (hsnap : m.snapshotAll os ns = .ok m') {s : ℕ}
    (hs : s < dep.shardCount.toNat) :
    m.stopped ns (m.snapshotEffects ns).length s = m'.close s := by
  have h := runFresh_eq_ok hrun
  obtain ⟨ss, hss⟩ := h.getElem? hs
  obtain ⟨ss', hss', hone⟩ := h.snapshot_shard hsnap hss
  have hall : m.changes ns (m.snapshotEffects ns).length s =
      ss.snapshotEffects (ns s) := by
    unfold ShardManager.changes
    rw [List.take_length, h.filter_snapshotEffects ns hss]
  rw [h.stopped_eq ns _ hss, hall,
    (unbroken_run hops hrun hss).1.stopped_snapshot hone,
    ShardManager.close, hss']

/-- A process that stops inside a snapshot loses and duplicates nothing if and
only if every shard survives the stop. -/
theorem snapshot_crash_iff {ops : List (ShardManager.Op dep.Dim)}
    (hops : ∀ load rngs, .restart load rngs ∉ ops)
    (hrun : dep.runFresh os rngs₀ ops = .ok m) {ns : ℕ → ℕ}
    (hsnap : m.snapshotAll os ns = .ok m') (rngs : ℕ → ℕ → ℕ) (done : ℕ) :
    RecoversFrom dep m.ring (insertCalls ops) rngs (m.stopped ns done) ↔
      ∀ (s : ℕ) ss, m.shards[s]? = some ss →
        ss.Survives (ns s) (m.changes ns done s).length := by
  have h := runFresh_eq_ok hrun
  have hshard : ∀ (s : ℕ) ss, m.shards[s]? = some ss →
      ((m.stopped ns done s).Recovers dep.cfg dep.rt dep.dataDir s (rngs s)
          ((routedTo m.ring s (insertCalls ops)).map Prod.snd) ↔
        ss.Survives (ns s) (m.changes ns done s).length) := by
    intro s ss hss
    obtain ⟨hunbroken, hlive⟩ := unbroken_run hops hrun hss
    obtain ⟨ss', _, hone⟩ := h.snapshot_shard hsnap hss
    rw [h.stopped_eq ns done hss, ← hlive]
    rw [h.dataDir_eq] at hone
    exact hunbroken.recovers_iff hone (h.changes_eq ns done hss).1
  rw [recoversFrom_iff h.ring_new]
  constructor
  · intro hall s ss hss
    have hs := h.lt_shardCount hss
    exact (hshard s ss hss).mp (hall s hs)
  · intro hall s hs
    obtain ⟨ss, hss⟩ := h.getElem? hs
    exact (hshard s ss hss).mpr (hall s ss hss)

/-! ## The second snapshot of one vector -/

theorem Refines.shards_eq_singleton (h : Refines dep ring states m)
    (hone : dep.shardCount.toNat = 1) {ss : ShardState dep.Dim}
    (hss : m.shards[0]? = some ss) : m.shards = [ss] := by
  obtain ⟨only, honly⟩ := List.length_eq_one_iff.mp (h.length_eq.trans hone)
  rw [honly] at hss ⊢
  cases hss
  rfl

/-- The changes of a manager with one shard are those of the shard. -/
theorem changes_singleton {dim : UInt32} {m : ShardManager dim}
    {ss : ShardState dim} (hshards : m.shards = [ss]) (ns : ℕ → ℕ)
    (done : ℕ) : m.changes ns done ss.shardId =
      (ss.snapshotEffects (ns ss.shardId)).take done := by
  unfold ShardManager.changes ShardManager.snapshotEffects
  rw [hshards, List.flatMap_cons, List.flatMap_nil, List.append_nil,
    ← List.map_take, List.filter_map, List.map_map]
  simp [Function.comp_def]

/-- One vector, and a snapshot of it. -/
def savedOnce : List (ShardManager.Op oneShard.Dim) :=
  [.insert 7 (Vec.ofBytes _ [1, 0, 0, 0]), .snapshotAll fun _ => 0]

theorem savedOnce_restart (load : Bool) (rngs : ℕ → ℕ → ℕ) :
    .restart load rngs ∉ savedOnce := by
  simp [savedOnce]

theorem savedOnce_run : ∃ m m',
    oneShard.runFresh OS.reliable (fun _ _ => 0) savedOnce = .ok m ∧
      m.snapshotAll OS.reliable (fun _ => 1) = .ok m' := by
  obtain ⟨m₀, hstart⟩ := oneShard_start fun _ _ => 0
  have h₀ := start_fresh hstart
  obtain ⟨m₁, hinsert⟩ := h₀.insert_ok oneShard_entrySize
    (oneShard_getShard h₀ 7) (by simp [empty])
    ⟨by simp [empty], by simp [empty]⟩ (Vec.ofBytes _ [1, 0, 0, 0])
  have h₁ := (h₀.insert_eq_ok hinsert).2.2
  obtain ⟨m₂, hfirst⟩ := h₁.snapshotAll_ok (by decide) fun _ => 0
  obtain ⟨m₃, hsecond⟩ :=
    (h₁.snapshotAll_eq_ok hfirst).1.snapshotAll_ok (by decide) fun _ => 1
  refine ⟨m₂, m₃, ?_, hsecond⟩
  unfold runFresh savedOnce
  rw [hstart, except_bind_ok, Deployment.run, step_insert hinsert,
    except_bind_ok, Deployment.run, step, hfirst, except_bind_ok]
  rfl

theorem savedOnce_history {ring : ConsistentHashRing}
    (hroute : ∀ vectorId, ring.getShard vectorId = .ok 0) :
    history ring 0 savedOnce = { (empty : Stored oneShard.Dim) with
      live := [Vec.ofBytes _ [1, 0, 0, 0]]
      saved := some [Vec.ofBytes _ [1, 0, 0, 0]] } := by
  unfold history savedOnce requests
  simp only [List.filterMap_cons, request, hroute, if_true, List.filterMap_nil]
  rfl

/-- A second snapshot that stops behind the removal of the segment loses the
vector. -/
theorem stop_behind_remove_loses :
    ∃ m m', oneShard.runFresh OS.reliable (fun _ _ => 0) savedOnce = .ok m ∧
      m.snapshotAll OS.reliable (fun _ => 1) = .ok m' ∧
      ¬ RecoversFrom oneShard m.ring (insertCalls savedOnce) (fun _ _ => 0)
        (m.stopped (fun _ => 1) 1) := by
  obtain ⟨m, m', hrun, hsnap⟩ := savedOnce_run
  have h := runFresh_eq_ok hrun
  obtain ⟨ss, hss⟩ := h.getElem? (show 0 < oneShard.shardCount.toNat by decide)
  obtain ⟨hunbroken, hlive⟩ := unbroken_run savedOnce_restart hrun hss
  refine ⟨m, m', hrun, hsnap, ?_⟩
  rw [recoversFrom_iff h.ring_new]
  intro hall
  have hone := hall 0 (by decide)
  have hid := (h.shard 0 ss hss).2
  have hchanges : (m.changes (fun _ => 1) 1 0).length = 1 := by
    rw [← hid, changes_singleton (h.shards_eq_singleton rfl hss)]
    rfl
  rw [h.stopped_eq _ _ hss, hchanges, ← hlive,
    hunbroken.recovers_removed_iff, hunbroken.size_eq_zero_iff,
    savedOnce_history (oneShard_getShard h)] at hone
  cases hone

/-- Of the second snapshot only the last character of the graph is missing. -/
theorem snapshot_crash_savedOnce :
    ∃ m m' ss, oneShard.runFresh OS.reliable (fun _ _ => 0) savedOnce =
        .ok m ∧
      m.snapshotAll OS.reliable (fun _ => 1) = .ok m' ∧
      m.shards[0]? = some ss ∧ ss.index.vectors = [Vec.ofBytes _ [1, 0, 0, 0]] ∧
      RecoversFrom oneShard m.ring (insertCalls savedOnce) (fun _ _ => 0)
        (m.stopped (fun _ => 1)
          ((ss.segEffects 1).length + 3 + (ss.graphChars.length - 1))) := by
  obtain ⟨m, m', hrun, hsnap⟩ := savedOnce_run
  have h := runFresh_eq_ok hrun
  obtain ⟨ss, hss⟩ := h.getElem? (show 0 < oneShard.shardCount.toNat by decide)
  have hid := (h.shard 0 ss hss).2
  obtain ⟨hunbroken, hlive⟩ := unbroken_run savedOnce_restart hrun hss
  rw [savedOnce_history (oneShard_getShard h)] at hunbroken
  refine ⟨m, m', ss, hrun, hsnap, hss, hunbroken.rep.index.vectors_eq,
    (snapshot_crash_iff savedOnce_restart hrun hsnap (fun _ _ => 0) _).mpr ?_⟩
  intro s other hother
  have hshards := h.shards_eq_singleton rfl hss
  rw [hshards] at hother
  obtain ⟨rfl, rfl⟩ : s = 0 ∧ other = ss := by
    cases s with
    | zero => exact ⟨rfl, (Option.some.inj hother).symm⟩
    | succ s => cases hother
  have hchanges := congrArg List.length (changes_singleton hshards (fun _ => 1)
    ((other.segEffects 1).length + 3 + (other.graphChars.length - 1)))
  rw [hid, List.length_take, ShardState.snapshotEffects] at hchanges
  simp only [List.length_cons, List.length_append, List.length_map] at hchanges
  rw [hchanges]
  unfold ShardState.Survives
  dsimp only
  rw [if_neg (by omega), if_neg (by omega), if_neg (by omega),
    if_pos (by omega)]
  exact ⟨by omega, hunbroken.rep.log.holds.next⟩

end Deployment

end VecDB
