import VecDB.HnswContents
import VecDB.LoggedStore
import VecDB.ShardManager
import VecDB.SnapshotReload
import VecDB.WalTruncate
import Mathlib.Tactic

/-!
# A shard is a logged store

The index of a shard is the memory, the two files are the snapshot and the log
is the log of a logged store that marks every 1000 entries.  Each step of a
shard that returns is the action of that name.
-/

namespace VecDB

open HNSWIndex

/-- The state of a shard, with the ids in the log. -/
abbrev Stored (dim : UInt32) := LoggedStore (UInt64 × Vec dim) (Vec dim)

/-- What the files of a shard hold, if both are there. -/
def HeldFiles {dim : UInt32} (cfg : HNSWConfig) :
    Option (List (Vec dim)) → SnapshotFiles → Prop
  | none, files => files.seg.isNone = true ∨ files.graph.isNone = true
  | some vecs, files =>
      ∃ index, Stores index cfg vecs ∧ Storage.Saved files index

structure Represents (cfg : HNSWConfig) (a : Stored cfg.dim.toUInt32)
    (ss : ShardState cfg.dim.toUInt32) : Prop where
  index : Stores ss.index cfg a.live
  log : WAL.Clean a.log ss.wal
  every : ss.wal.checkpointEvery = 1000
  mark : ss.wal.checkpointLsn = a.mark
  since : ss.wal.appendsSinceCkpt = a.since
  since_lt : a.since < 1000
  files : HeldFiles cfg a.saved ss.files

/-! ## The log -/

namespace WAL

variable {dim : UInt32}

theorem map_vec_numbered (entries : List (UInt64 × Vec dim)) :
    (numbered entries).map WALEntry.vec = entries.map Prod.snd := by
  apply List.ext_getElem
  · simp [numbered]
  · intro i hi hi'
    simp [numbered]

theorem stored_counters (w : WAL dim) (vectorId : UInt64) (vec : Vec dim) :
    (stored w vectorId vec).checkpointEvery = w.checkpointEvery ∧
      (stored w vectorId vec).appendsSinceCkpt =
        (w.appendsSinceCkpt + 1) % 2 ^ 32 := by
  unfold stored countAppend reserved
  split_ifs
  · exact ⟨rfl, rfl⟩
  · exact ⟨rfl, rfl⟩

theorem appended_checkpointEvery (w : WAL dim) (vectorId : UInt64)
    (vec : Vec dim) :
    (appended w vectorId vec).checkpointEvery = w.checkpointEvery := by
  have hevery := (stored_counters w vectorId vec).1
  unfold appended
  split_ifs
  · exact hevery
  · exact hevery

theorem appended_counters {w : WAL dim} (vectorId : UInt64) (vec : Vec dim)
    (hsince : w.appendsSinceCkpt + 1 < 2 ^ 32) :
    (appended w vectorId vec).checkpointLsn =
        (if 0 < w.checkpointEvery ∧
            w.checkpointEvery ≤ w.appendsSinceCkpt + 1 then w.nextLsn + 1
          else w.checkpointLsn) ∧
      (appended w vectorId vec).appendsSinceCkpt =
        if 0 < w.checkpointEvery ∧
            w.checkpointEvery ≤ w.appendsSinceCkpt + 1 then 0
          else w.appendsSinceCkpt + 1 := by
  obtain ⟨hevery, hcount⟩ := stored_counters w vectorId vec
  rw [Nat.mod_eq_of_lt hsince] at hcount
  unfold appended
  rw [hevery, hcount]
  split_ifs
  · exact ⟨stored_nextLsn w vectorId vec, rfl⟩
  · refine ⟨?_, hcount⟩
    exact reserved_checkpointLsn w

theorem Clean.new_close_eq_ok {os : OS} {w w' : WAL dim}
    {entries : List (UInt64 × Vec dim)} (h : Clean entries w)
    {checkpointEvery : ℕ}
    (hnew : new os dim checkpointEvery (some w.close) = .ok w') :
    w' = { w with
      checkpointEvery := checkpointEvery
      appendsSinceCkpt := 0 } := by
  obtain ⟨_, _, ckptLsn, hheader, rfl⟩ := new_some_eq_ok hnew
  rw [show opened w.close = w.file from h.holds.opened_file,
    h.holds.header] at hheader
  cases hheader
  exact h.holds.reopened_close checkpointEvery (h.not_slotValid _)

end WAL

/-! ## The files -/

namespace HeldFiles

variable {cfg : HNSWConfig} {vecs : List (Vec cfg.dim.toUInt32)}
  {files : SnapshotFiles} {rng : ℕ → ℕ}
  {fresh index : HNSWIndex (Vec cfg.dim.toUInt32)}

theorem load_eq_ok {os : OS} {paths : SnapshotPaths}
    (h : HeldFiles cfg (some vecs) files)
    (hnew : HNSWIndex.new cfg rng = .ok fresh)
    (hload : Storage.load os paths files fresh = .ok index) :
    Stores index cfg vecs := by
  obtain ⟨saved, hstores, hsaved⟩ := h
  have hmmap : ∀ file, files.seg = some file → os.mmap file.size = true := by
    intro file hfile
    obtain ⟨seg, graph⟩ := files
    cases hfile
    exact Storage.mmap_of_load hload
  rw [hsaved.load_eq hstores hmmap hnew paths] at hload
  cases hload
  exact hstores.reloaded rng

theorem load_ok (h : HeldFiles cfg (some vecs) files)
    (hnew : HNSWIndex.new cfg rng = .ok fresh) (paths : SnapshotPaths) :
    ∃ index, Storage.load OS.reliable paths files fresh = .ok index ∧
      Stores index cfg vecs := by
  obtain ⟨saved, hstores, hsaved⟩ := h
  exact ⟨saved.reloaded rng,
    hsaved.load_eq hstores (fun _ => hsaved.reliable_mmap) hnew paths,
    hstores.reloaded rng⟩

theorem missing_iff {saved : Option (List (Vec cfg.dim.toUInt32))}
    (h : HeldFiles cfg saved files) :
    files.seg.isNone = true ∨ files.graph.isNone = true ↔ saved = none := by
  cases saved with
  | none => exact ⟨fun _ => rfl, fun _ => h⟩
  | some vecs =>
      obtain ⟨index, _, s, rfl, _⟩ := h
      simp

end HeldFiles

/-! ## The steps -/

namespace Represents

variable {D : Type} [Preorder D] [DecidableLT D] {cfg : HNSWConfig}
  {a : Stored cfg.dim.toUInt32} {ss ss' : ShardState cfg.dim.toUInt32}

theorem appendStep_eq_ok {os : OS} (h : Represents cfg a ss)
    {vectorId : UInt64} {vec : Vec cfg.dim.toUInt32}
    (hok : ss.appendStep os vectorId vec = .ok ss') :
    Represents cfg (a.append 1000 (vectorId, vec)) ss' ∧
      ss'.shardId = ss.shardId := by
  unfold ShardState.appendStep at hok
  cases happend : (WAL.append os vectorId vec).run ss.wal with
  | error e w => simp [happend] at hok
  | ok lsn w =>
      rw [happend] at hok
      cases hok
      obtain ⟨_, rfl, hlt, hfits⟩ := h.log.holds.append_eq_ok happend
      have hlog := h.log.appended hlt hfits vectorId vec
      have hsince : ss.wal.appendsSinceCkpt + 1 < 2 ^ 32 := by
        have hbound := h.since_lt
        rw [h.since]
        omega
      obtain ⟨hmark, hcount⟩ := WAL.appended_counters vectorId vec hsince
      rw [h.every, h.since, h.log.holds.next, h.mark] at hmark
      rw [h.every, h.since] at hcount
      refine ⟨?_, rfl⟩
      exact {
        index := by simpa using h.index
        log := by simpa using hlog
        every := (WAL.appended_checkpointEvery _ _ _).trans h.every
        mark := by
          rw [hmark]
          unfold LoggedStore.append
          split_ifs <;> rfl
        since := by
          rw [hcount]
          unfold LoggedStore.append
          split_ifs <;> rfl
        since_lt := by
          have hbound := h.since_lt
          unfold LoggedStore.append
          split_ifs with hevery
          · norm_num
          · dsimp only
            omega
        files := by simpa using h.files }

theorem indexStep_eq_ok {rt : Runtime (Vec cfg.dim.toUInt32) D}
    (h : Represents cfg a ss) {vec : Vec cfg.dim.toUInt32} {nodeId : ℕ}
    (hok : ss.indexStep rt vec = .ok (nodeId, ss')) :
    nodeId = a.live.length ∧ Represents cfg (a.add vec) ss' ∧
      ss'.shardId = ss.shardId := by
  rw [ShardState.indexStep, except_bind_eq_ok] at hok
  obtain ⟨⟨id, index⟩, hinsert, hok⟩ := hok
  cases hok
  obtain ⟨rfl, hindex⟩ := h.index.insert_eq_ok rt hinsert
  exact ⟨rfl, { h with index := hindex }, rfl⟩

theorem saveStep_eq_ok {os : OS} (h : Represents cfg a ss) {dataDir : String}
    {ns : ℕ} (hok : ss.saveStep os dataDir ns = .ok ss') :
    Represents cfg a.save ss' ∧ Storage.Saved ss'.files ss.index ∧
      ss'.index = ss.index ∧ ss'.shardId = ss.shardId := by
  rw [ShardState.saveStep, except_bind_eq_ok] at hok
  obtain ⟨files, hsave, hok⟩ := hok
  cases hok
  obtain ⟨layers, hrep⟩ := h.index.rep
  have hsaved := Storage.save_eq_ok hrep (by rw [h.index.cfg_eq]) hsave
  exact ⟨{ h with files := ⟨ss.index, h.index, hsaved⟩ }, hsaved, rfl, rfl⟩

theorem truncateStep_eq_ok {os : OS} (h : Represents cfg a ss)
    (hok : ss.truncateStep os = .ok ss') :
    Represents cfg a.truncate ss' ∧ ss'.index = ss.index ∧
      ss'.files = ss.files ∧ ss'.shardId = ss.shardId := by
  unfold ShardState.truncateStep at hok
  cases htruncate : (WAL.truncate os ss.wal.nextLsn).run ss.wal with
  | error e w => simp [htruncate] at hok
  | ok u w =>
      rw [htruncate] at hok
      cases hok
      refine ⟨?_, rfl, rfl, rfl⟩
      have hmark := h.mark
      have hnext := h.log.holds.next
      unfold LoggedStore.truncate
      by_cases hcut : ss.wal.checkpointLsn < ss.wal.nextLsn
      · rw [if_pos (by omega)]
        obtain rfl := WAL.truncate_eq_ok hcut htruncate
        exact {
          index := h.index
          log := WAL.truncated_clean ss.wal h.log.dim_ne_zero
          every := h.every
          mark := rfl
          since := rfl
          since_lt := by norm_num
          files := h.files }
      · rw [if_neg (by omega)]
        rw [WAL.truncate_of_le (not_lt.mp hcut)] at htruncate
        cases htruncate
        exact { h with }

theorem insert_eq_ok {os : OS} {rt : Runtime (Vec cfg.dim.toUInt32) D}
    (h : Represents cfg a ss) {vectorId : UInt64}
    {vec : Vec cfg.dim.toUInt32} {nodeId : ℕ}
    (hok : ss.insert os rt vectorId vec = .ok (nodeId, ss')) :
    nodeId = a.live.length ∧
      Represents cfg ((a.append 1000 (vectorId, vec)).add vec) ss' ∧
      ss'.shardId = ss.shardId := by
  rw [ShardState.insert_eq, except_bind_eq_ok] at hok
  obtain ⟨ss₁, happend, hindex⟩ := hok
  obtain ⟨h₁, hshard₁⟩ := h.appendStep_eq_ok happend
  obtain ⟨hid, h₂, hshard₂⟩ := h₁.indexStep_eq_ok hindex
  rw [LoggedStore.append_live] at hid
  exact ⟨hid, h₂, hshard₂.trans hshard₁⟩

theorem snapshot_eq_ok {os : OS} (h : Represents cfg a ss) {dataDir : String}
    {ns : ℕ} (hok : ss.snapshot os dataDir ns = .ok ss') :
    Represents cfg a.save.truncate ss' ∧
      Storage.Saved ss'.files ss.index ∧ ss'.shardId = ss.shardId := by
  rw [ShardState.snapshot_eq, except_bind_eq_ok] at hok
  obtain ⟨ss₁, hsave, htruncate⟩ := hok
  obtain ⟨h₁, hsaved, _, hshard₁⟩ := h.saveStep_eq_ok hsave
  obtain ⟨h₂, _, hfiles, hshard₂⟩ := h₁.truncateStep_eq_ok htruncate
  exact ⟨h₂, by rwa [hfiles], hshard₂.trans hshard₁⟩

end Represents

/-! ## Starting and restarting -/

namespace ShardState

variable {cfg : HNSWConfig}

theorem new_eq_ok {os : OS} {rng : ℕ → ℕ} {disk : ShardFiles} {shardId : ℕ}
    {ss : ShardState cfg.dim.toUInt32} :
    new os cfg rng disk shardId = .ok ss ↔
      ∃ index wal, HNSWIndex.new cfg rng = .ok index ∧
        WAL.new os cfg.dim.toUInt32 1000 disk.wal = .ok wal ∧
        ss = {
          index := index
          wal := wal
          files := disk.snapshot
          shardId := shardId
          healthy := true } := by
  rw [new, except_bind_eq_ok]
  constructor
  · rintro ⟨index, hindex, hok⟩
    rw [except_bind_eq_ok] at hok
    obtain ⟨wal, hwal, hok⟩ := hok
    cases hok
    exact ⟨index, wal, hindex, hwal, rfl⟩
  · rintro ⟨index, wal, hindex, hwal, rfl⟩
    refine ⟨index, hindex, ?_⟩
    rw [hwal]
    rfl

/-- An empty data directory, for one shard. -/
def noFiles : ShardFiles where
  wal := none
  snapshot := { seg := none, graph := none }

end ShardState

namespace Represents

open ShardState

variable {D : Type} [Preorder D] [DecidableLT D] {cfg : HNSWConfig}
  {a : Stored cfg.dim.toUInt32} {ss ss' : ShardState cfg.dim.toUInt32}

theorem fresh {os : OS} {rng : ℕ → ℕ} {shardId : ℕ}
    (hnew : ShardState.new os cfg rng noFiles shardId = .ok ss) :
    Represents cfg LoggedStore.empty ss ∧ ss.shardId = shardId := by
  obtain ⟨index, wal, hindex, hwal, rfl⟩ := ShardState.new_eq_ok.mp hnew
  have hdim := WAL.new_dim_ne_zero hwal
  obtain rfl := WAL.new_none_eq_ok hwal
  refine ⟨?_, rfl⟩
  exact {
    index := new_stores hindex
    log := WAL.Clean.created hdim 1000
    every := rfl
    mark := rfl
    since := rfl
    since_lt := by norm_num [LoggedStore.empty]
    files := Or.inl rfl }

theorem reopen_eq_ok {os : OS} (h : Represents cfg a ss) {rng : ℕ → ℕ}
    {shardId : ℕ}
    (hnew : ShardState.new os cfg rng ss.close shardId = .ok ss') :
    Represents cfg a.reopen ss' ∧ HNSWIndex.new cfg rng = .ok ss'.index ∧
      ss'.files = ss.files ∧ ss'.shardId = shardId := by
  obtain ⟨index, wal, hindex, hwal, rfl⟩ := ShardState.new_eq_ok.mp hnew
  obtain rfl := h.log.new_close_eq_ok hwal
  refine ⟨?_, hindex, rfl, rfl⟩
  exact {
    index := new_stores hindex
    log := h.log.bookkeeping 1000 0
    every := rfl
    mark := h.mark
    since := rfl
    since_lt := by norm_num [LoggedStore.reopen]
    files := h.files }

theorem reopen_ok (h : Represents cfg a ss) (rng : ℕ → ℕ) (shardId : ℕ) :
    ∃ ss', ShardState.new OS.reliable cfg rng ss.close shardId = .ok ss' := by
  obtain ⟨layers, hrep⟩ := h.index.rep
  have haccepted := hrep.accepted
  rw [h.index.cfg_eq] at haccepted
  obtain ⟨index, hindex⟩ := haccepted.new_ok rng
  exact ⟨_, ShardState.new_eq_ok.mpr
    ⟨index, _, hindex, h.log.new_close 1000, rfl⟩⟩

theorem replay_vecs (h : Represents cfg a ss) :
    ss.wal.replay.1.map WALEntry.vec = a.log.map Prod.snd := by
  rw [h.log.replay]
  exact WAL.map_vec_numbered a.log

theorem load_eq_ok {os : OS} {rt : Runtime (Vec cfg.dim.toUInt32) D}
    (h : Represents cfg a ss) {rng : ℕ → ℕ}
    (hfresh : HNSWIndex.new cfg rng = .ok ss.index) {dataDir : String}
    (hload : ss.load os rt dataDir = .ok ss') :
    Represents cfg (a.load Prod.snd) ss' ∧ ss'.shardId = ss.shardId := by
  unfold ShardState.load at hload
  have hfiles := h.files
  cases hsaved : a.saved with
  | none =>
      rw [hsaved] at hfiles
      rw [if_pos (hfiles.missing_iff.mpr rfl)] at hload
      cases hload
      rw [LoggedStore.load_of_none hsaved]
      exact ⟨h, rfl⟩
  | some vecs =>
      rw [hsaved] at hfiles
      have hpresent := mt hfiles.missing_iff.mp (Option.some_ne_none vecs)
      rw [if_neg hpresent, except_bind_eq_ok] at hload
      obtain ⟨restored, hrestore, hload⟩ := hload
      rw [except_bind_eq_ok] at hload
      obtain ⟨index, hreplay, hload⟩ := hload
      cases hload
      rw [h.replay_vecs] at hreplay
      have hstores := (hfiles.load_eq_ok hfresh hrestore).insertAll_eq_ok rt
        hreplay
      rw [LoggedStore.load_of_some hsaved]
      refine ⟨?_, rfl⟩
      exact {
        index := hstores
        log := h.log
        every := h.every
        mark := h.mark
        since := h.since
        since_lt := h.since_lt
        files := h.files }

theorem load_ok (rt : Runtime (Vec cfg.dim.toUInt32) D)
    (h : Represents cfg a ss) {rng : ℕ → ℕ}
    (hfresh : HNSWIndex.new cfg rng = .ok ss.index) (dataDir : String)
    (hroom : ∀ vecs, a.saved = some vecs →
      Storable cfg (vecs.length + a.log.length)) :
    ∃ ss', ss.load OS.reliable rt dataDir = .ok ss' := by
  unfold ShardState.load
  have hfiles := h.files
  cases hsaved : a.saved with
  | none =>
      rw [hsaved] at hfiles
      rw [if_pos (hfiles.missing_iff.mpr rfl)]
      exact ⟨ss, rfl⟩
  | some vecs =>
      rw [hsaved] at hfiles
      obtain ⟨restored, hrestore, hstores⟩ := hfiles.load_ok hfresh
        (makePaths dataDir ss.shardId)
      have hpresent := mt hfiles.missing_iff.mp (Option.some_ne_none vecs)
      have hlog : Storable cfg
          (vecs.length + (a.log.map Prod.snd).length) := by
        rw [List.length_map]
        exact hroom vecs hsaved
      obtain ⟨index, hreplay⟩ := hstores.insertAll_ok rt hlog
      rw [if_neg hpresent, hrestore, except_bind_ok, h.replay_vecs, hreplay]
      exact ⟨_, rfl⟩

/-! ## Steps that the system grants

File operations that can succeed do; ids, links and file sizes suffice. -/

theorem appendStep_ok (h : Represents cfg a ss)
    (hentry : WAL.entrySize cfg.dim.toUInt32 ≤ WAL.growSize)
    (hlog : a.log.length < 2 ^ 33) (vectorId : UInt64)
    (vec : Vec cfg.dim.toUInt32) :
    ∃ ss', ss.appendStep OS.reliable vectorId vec = .ok ss' := by
  unfold ShardState.appendStep
  rcases h.log.append_step hentry vectorId vec with
    ⟨hrun, _⟩ | ⟨w, _, hlarge⟩
  · rw [hrun]
    exact ⟨_, rfl⟩
  · have hptr : WAL.entryPtr cfg.dim.toUInt32 (a.log.length + 1) ≤
        WAL.headerSize + (a.log.length + 1) * WAL.growSize :=
      Nat.add_le_add_left (Nat.mul_le_mul_left _ hentry) _
    unfold WAL.headerSize WAL.growSize at hptr
    unfold WAL.growSize at hlarge
    omega

theorem indexStep_ok (rt : Runtime (Vec cfg.dim.toUInt32) D)
    (h : Represents cfg a ss) (hroom : Storable cfg (a.live.length + 1))
    (vec : Vec cfg.dim.toUInt32) :
    ∃ ss', ss.indexStep rt vec = .ok (a.live.length, ss') := by
  obtain ⟨index, hinsert, _⟩ := h.index.insert_ok rt hroom vec
  rw [ShardState.indexStep, hinsert]
  exact ⟨_, rfl⟩

theorem insert_ok (rt : Runtime (Vec cfg.dim.toUInt32) D)
    (h : Represents cfg a ss)
    (hentry : WAL.entrySize cfg.dim.toUInt32 ≤ WAL.growSize)
    (hlog : a.log.length < 2 ^ 33)
    (hroom : Storable cfg (a.live.length + 1)) (vectorId : UInt64)
    (vec : Vec cfg.dim.toUInt32) :
    ∃ ss', ss.insert OS.reliable rt vectorId vec =
      .ok (a.live.length, ss') := by
  obtain ⟨ss₁, happend⟩ := h.appendStep_ok hentry hlog vectorId vec
  obtain ⟨h₁, _⟩ := h.appendStep_eq_ok happend
  obtain ⟨ss₂, hindex⟩ := h₁.indexStep_ok rt (by simpa using hroom) vec
  rw [LoggedStore.append_live] at hindex
  rw [ShardState.insert_eq, happend]
  exact ⟨ss₂, hindex⟩

theorem truncateStep_ok (ss : ShardState cfg.dim.toUInt32) :
    ∃ ss', ss.truncateStep OS.reliable = .ok ss' := by
  unfold ShardState.truncateStep
  by_cases hcut : ss.wal.checkpointLsn < ss.wal.nextLsn
  · rw [WAL.truncate_of_next_le hcut le_rfl,
      if_neg (by simp [OS.reliable, WAL.headerSize]),
      if_neg (by simp [OS.reliable, WAL.initialSize]),
      if_neg (by simp [OS.reliable, WAL.initialSize])]
    exact ⟨_, rfl⟩
  · rw [WAL.truncate_of_le (not_lt.mp hcut)]
    exact ⟨_, rfl⟩

theorem saveStep_ok (h : Represents cfg a ss)
    (hrow : cfg.dim.toUInt32.toNat * 4 ≤ MmapStore.growBytes)
    (dataDir : String) (ns : ℕ) :
    ∃ ss', ss.saveStep OS.reliable dataDir ns = .ok ss' := by
  obtain ⟨layers, hrep⟩ := h.index.rep
  obtain ⟨files, hsave⟩ := Storage.save_ok hrep (by rw [h.index.cfg_eq])
    h.log.dim_ne_zero hrow (makePaths dataDir ss.shardId) ns
  refine ⟨{ ss with files := files }, ?_⟩
  rw [ShardState.saveStep, hsave]
  rfl

theorem snapshot_ok (h : Represents cfg a ss)
    (hrow : cfg.dim.toUInt32.toNat * 4 ≤ MmapStore.growBytes)
    (dataDir : String) (ns : ℕ) :
    ∃ ss', ss.snapshot OS.reliable dataDir ns = .ok ss' := by
  obtain ⟨ss₁, hsave⟩ := h.saveStep_ok hrow dataDir ns
  obtain ⟨ss', htruncate⟩ := truncateStep_ok ss₁
  rw [ShardState.snapshot_eq, hsave]
  exact ⟨ss', htruncate⟩

end Represents
end VecDB
