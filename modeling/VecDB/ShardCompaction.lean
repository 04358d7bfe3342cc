import VecDB.ShardRestarts
import Mathlib.Tactic

/-!
# What a snapshot discards

A snapshot empties the log of a shard, whatever part of it the index holds.
The index lacks exactly what was on disk when the manager was built and was
neither loaded nor inserted again.
-/

namespace VecDB
namespace Deployment

open LoggedStore

variable {D : Type} [Preorder D] [DecidableLT D] {dep : Deployment D}
  {os : OS} {rngs₀ : ℕ → ℕ → ℕ} {m m' : ShardManager dep.Dim}
  {before : List (ShardManager.Op dep.Dim)}

/-- A new index that loads the files has the vector. -/
def SavedVector (dep : Deployment D) (files : SnapshotFiles)
    (vec : Vec dep.Dim) : Prop :=
  ∀ paths rng fresh, HNSWIndex.new dep.cfg rng = .ok fresh →
    ∃ index, Storage.load OS.reliable paths files fresh = .ok index ∧
      vec ∈ index.vectors

/-- Every log entry that is in `m` but no longer in `m'` has its vector in the
files of its shard in `m'`. -/
def DiscardsSaved (dep : Deployment D) (m m' : ShardManager dep.Dim) : Prop :=
  ∀ (s : ℕ) ss ss', m.shards[s]? = some ss → m'.shards[s]? = some ss' →
    ∀ entry ∈ ss.wal.replay.1, entry ∉ ss'.wal.replay.1 →
      SavedVector dep ss'.files entry.vec

theorem savedVector_iff {files : SnapshotFiles} {vecs : List (Vec dep.Dim)}
    (hfiles : HeldFiles dep.cfg (some vecs) files) (vec : Vec dep.Dim) :
    SavedVector dep files vec ↔ vec ∈ vecs := by
  constructor
  · intro hsaved
    obtain ⟨saved, hstores, _⟩ := id hfiles
    obtain ⟨layers, hrep⟩ := hstores.rep
    have haccepted := hrep.accepted
    rw [hstores.cfg_eq] at haccepted
    obtain ⟨fresh, hnew⟩ := haccepted.new_ok fun _ => 0
    obtain ⟨index, hload, hmem⟩ :=
      hsaved (makePaths "" 0) (fun _ => 0) fresh hnew
    rwa [(hfiles.load_eq_ok hnew hload).vectors_eq] at hmem
  · intro hmem paths rng fresh hnew
    obtain ⟨index, hload, hstores⟩ := hfiles.load_ok hnew paths
    exact ⟨index, hload, by rwa [hstores.vectors_eq]⟩

theorem mem_replay_iff {cfg : HNSWConfig} {a : Stored cfg.dim.toUInt32}
    {ss : ShardState cfg.dim.toUInt32} (h : Represents cfg a ss)
    (P : Vec cfg.dim.toUInt32 → Prop) :
    (∀ entry ∈ ss.wal.replay.1, P entry.vec) ↔
      ∀ entry ∈ a.log, P entry.2 := by
  have hvecs := h.replay_vecs
  constructor
  · intro hall entry hentry
    have hmem : entry.2 ∈ ss.wal.replay.1.map WALEntry.vec := by
      rw [hvecs]
      exact List.mem_map_of_mem hentry
    obtain ⟨logged, hlogged, hvec⟩ := List.mem_map.mp hmem
    rw [← hvec]
    exact hall logged hlogged
  · intro hall entry hentry
    have hmem : entry.vec ∈ a.log.map Prod.snd := by
      rw [← hvecs]
      exact List.mem_map_of_mem hentry
    obtain ⟨logged, hlogged, hvec⟩ := List.mem_map.mp hmem
    rw [← hvec]
    exact hall logged hlogged

theorem discards_shard_iff {a : Stored dep.Dim}
    {ss ss' : ShardState dep.Dim} (h : Represents dep.cfg a ss)
    (h' : Represents dep.cfg a.save.truncate ss') :
    (∀ entry ∈ ss.wal.replay.1, entry ∉ ss'.wal.replay.1 →
        SavedVector dep ss'.files entry.vec) ↔
      (a.mark < a.log.length → ∀ entry ∈ a.log, entry.2 ∈ a.live) := by
  have hfiles := h'.files
  rw [truncate_saved] at hfiles
  simp only [savedVector_iff hfiles]
  by_cases hcut : a.mark < a.log.length
  · have hempty : ss'.wal.replay.1 = [] := by
      rw [h'.log.replay]
      unfold truncate save
      rw [if_pos hcut]
      rfl
    simp only [hempty, List.not_mem_nil, not_false_eq_true, true_imp_iff, hcut]
    exact mem_replay_iff h fun vec => vec ∈ a.live
  · have hkept : ss'.wal.replay.1 = ss.wal.replay.1 := by
      rw [h'.log.replay, h.log.replay]
      unfold truncate save
      rw [if_neg hcut]
    rw [hkept]
    constructor
    · intro _ hlt
      exact absurd hlt hcut
    · intro _ entry hentry hremoved
      exact absurd hentry hremoved

theorem Refines.discards_iff {ring : ConsistentHashRing}
    {states : ℕ → Stored dep.Dim} (h : Refines dep ring states m)
    {ns : ℕ → ℕ} (hsnap : m.snapshotAll os ns = .ok m') :
    DiscardsSaved dep m m' ↔ ∀ s < dep.shardCount.toNat,
      (states s).mark < (states s).log.length →
      ∀ entry ∈ (states s).log, entry.2 ∈ (states s).live := by
  obtain ⟨h', _⟩ := h.snapshotAll_eq_ok hsnap
  constructor
  · intro hdiscards s hs
    obtain ⟨ss, hss⟩ := h.getElem? hs
    obtain ⟨ss', hss'⟩ := h'.getElem? hs
    exact (discards_shard_iff (h.shard s ss hss).1 (h'.shard s ss' hss').1).mp
      (hdiscards s ss ss' hss hss')
  · intro hall s ss ss' hss hss'
    have hs := h.lt_shardCount hss
    exact (discards_shard_iff (h.shard s ss hss).1 (h'.shard s ss' hss').1).mpr
      (hall s hs)

/-- A snapshot discards only what it saves if and only if, on every shard
whose log it cuts, each entry that was there when the manager was built and
was not loaded has its vector in the index again. -/
theorem compaction_safe_iff {ns : ℕ → ℕ}
    (hrun : dep.runFresh os rngs₀ before = .ok m)
    (hsnap : m.snapshotAll os ns = .ok m') :
    DiscardsSaved dep m m' ↔ ∀ (s : ℕ) ss, m.shards[s]? = some ss →
      ss.wal.checkpointLsn < ss.wal.nextLsn →
      ∀ entry ∈ (history m.ring s before).unread,
        entry.2 ∈ ss.index.vectors := by
  have h := runFresh_eq_ok hrun
  rw [h.discards_iff hsnap]
  have hcovered : ∀ s, Covered Prod.snd (history m.ring s before) :=
    fun s => covered_empty.serve
  constructor
  · intro hall s ss hss hcut
    have hrep := (h.shard s ss hss).1
    have hs := h.lt_shardCount hss
    rw [hrep.mark, hrep.log.holds.next] at hcut
    rw [hrep.index.vectors_eq]
    exact (hcovered s).log_live.mp (hall s hs hcut)
  · intro hall s hs hcut
    obtain ⟨ss, hss⟩ := h.getElem? hs
    have hrep := (h.shard s ss hss).1
    have hunread := hall s ss hss (by
      rw [hrep.mark, hrep.log.holds.next]
      exact hcut)
    rw [hrep.index.vectors_eq] at hunread
    exact (hcovered s).log_live.mpr hunread

/-! ## A restart that does not load -/

def unloaded : List (ShardManager.Op oneShard.Dim) :=
  [.insert 7 (Vec.ofBytes _ [1, 0, 0, 0]), .restart false fun _ _ => 0,
    .insert 8 (Vec.ofBytes _ [2, 0, 0, 0])]

theorem unloaded_run (vectorId : UInt64) (vec : Vec oneShard.Dim) : ∃ m m',
    oneShard.runFresh OS.reliable (fun _ _ => 0)
        [.insert 7 (Vec.ofBytes _ [1, 0, 0, 0]), .restart false fun _ _ => 0,
          .insert vectorId vec] = .ok m ∧
      m.snapshotAll OS.reliable (fun _ => 0) = .ok m' := by
  obtain ⟨m₀, hstart⟩ := oneShard_start fun _ _ => 0
  have h₀ := start_fresh hstart
  obtain ⟨m₁, hfirst⟩ := h₀.insert_ok oneShard_entrySize
    (oneShard_getShard h₀ 7) (by simp [empty])
    ⟨by simp [empty], by simp [empty]⟩ (Vec.ofBytes _ [1, 0, 0, 0])
  have h₁ := (h₀.insert_eq_ok hfirst).2.2
  obtain ⟨m₂, hrestart⟩ := h₁.start_ok fun _ _ => 0
  have h₂ := (h₁.start_eq_ok hrestart).1
  obtain ⟨m₃, hsecond⟩ := h₂.insert_ok oneShard_entrySize
    (oneShard_getShard h₂ vectorId)
    (by simp [reopen, request, oneShard_getShard h₀, add, empty])
    ⟨by simp [reopen], by simp [reopen]⟩ vec
  have h₃ := (h₂.insert_eq_ok hsecond).2.2
  obtain ⟨m₄, hsnap⟩ := h₃.snapshotAll_ok (by decide) fun _ => 0
  refine ⟨m₃, m₄, ?_, hsnap⟩
  have hstep : oneShard.restart OS.reliable false (fun _ _ => 0) m₁ =
      .ok m₂ := by
    rw [restart, hrestart]
    rfl
  unfold runFresh
  rw [hstart, except_bind_ok, run, step_insert hfirst, except_bind_ok, run,
    step, hstep, except_bind_ok, run, step_insert hsecond, except_bind_ok]
  rfl

theorem unloaded_history {ring : ConsistentHashRing}
    (hroute : ∀ vectorId, ring.getShard vectorId = .ok 0) :
    (history ring 0 unloaded).live = [Vec.ofBytes _ [2, 0, 0, 0]] ∧
      (history ring 0 unloaded).log = [(7, Vec.ofBytes _ [1, 0, 0, 0]),
        (8, Vec.ofBytes _ [2, 0, 0, 0])] ∧
      (history ring 0 unloaded).mark = 0 := by
  unfold history unloaded requests
  simp only [List.filterMap_cons, request, hroute, if_true, List.filterMap_nil]
  exact ⟨rfl, rfl, rfl⟩

/-- The first vector is in neither file once its log entry is gone. -/
theorem unloaded_entry_discarded :
    ∃ m m', oneShard.runFresh OS.reliable (fun _ _ => 0) unloaded = .ok m ∧
      m.snapshotAll OS.reliable (fun _ => 0) = .ok m' ∧
      ¬ DiscardsSaved oneShard m m' := by
  obtain ⟨m, m', hrun, hsnap⟩ := unloaded_run 8 (Vec.ofBytes _ [2, 0, 0, 0])
  have h : Refines oneShard m.ring (fun s => history m.ring s unloaded) m :=
    runFresh_eq_ok hrun
  obtain ⟨hlive, hlog, hmark⟩ := unloaded_history (oneShard_getShard h)
  refine ⟨m, m', hrun, hsnap, ?_⟩
  rw [h.discards_iff hsnap]
  intro hall
  have hmem := hall 0 (by decide) (by rw [hmark, hlog]; decide)
    (7, Vec.ofBytes _ [1, 0, 0, 0]) (by rw [hlog]; simp)
  rw [hlive] at hmem
  exact absurd hmem (by decide)

/-- The vector that was not loaded is inserted once more. -/
def repeated : List (ShardManager.Op oneShard.Dim) :=
  [.insert 7 (Vec.ofBytes _ [1, 0, 0, 0]), .restart false fun _ _ => 0,
    .insert 8 (Vec.ofBytes _ [1, 0, 0, 0])]

/-- Both entries are cut, and both vectors are in the snapshot. -/
theorem compaction_safe_repeated :
    ∃ m m' ss, oneShard.runFresh OS.reliable (fun _ _ => 0) repeated = .ok m ∧
      m.snapshotAll OS.reliable (fun _ => 0) = .ok m' ∧
      m.shards[0]? = some ss ∧ ss.wal.checkpointLsn = 0 ∧
      ss.wal.nextLsn = 2 ∧ ss.index.vectors = [Vec.ofBytes _ [1, 0, 0, 0]] ∧
      DiscardsSaved oneShard m m' := by
  obtain ⟨m, m', hrun, hsnap⟩ := unloaded_run 8 (Vec.ofBytes _ [1, 0, 0, 0])
  have h : Refines oneShard m.ring (fun s => history m.ring s repeated) m :=
    runFresh_eq_ok hrun
  obtain ⟨hlive, hlog, hmark, hunread⟩ :
      (history m.ring 0 repeated).live = [Vec.ofBytes _ [1, 0, 0, 0]] ∧
        (history m.ring 0 repeated).log.length = 2 ∧
        (history m.ring 0 repeated).mark = 0 ∧
        (history m.ring 0 repeated).unread =
          [(7, Vec.ofBytes _ [1, 0, 0, 0])] := by
    unfold history repeated requests
    simp only [List.filterMap_cons, request, oneShard_getShard h, if_true,
      List.filterMap_nil]
    exact ⟨rfl, rfl, rfl, rfl⟩
  obtain ⟨ss, hss⟩ := h.getElem? (show 0 < oneShard.shardCount.toNat by decide)
  have hrep := (h.shard 0 ss hss).1
  have hvectors := hrep.index.vectors_eq.trans hlive
  refine ⟨m, m', ss, hrun, hsnap, hss, hrep.mark.trans hmark,
    hrep.log.holds.next.trans hlog, hvectors,
    (compaction_safe_iff hrun hsnap).mpr ?_⟩
  intro s other hother _ entry hentry
  obtain rfl : s = 0 := by
    have hlt : s < 1 := h.lt_shardCount hother
    omega
  cases hss.symm.trans hother
  change entry ∈ (history m.ring 0 repeated).unread at hentry
  rw [hunread, List.mem_singleton] at hentry
  rw [hvectors, hentry]
  exact List.mem_cons_self

end Deployment
end VecDB
