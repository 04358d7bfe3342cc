import VecDB.SearchNaming
import Mathlib.Tactic

/-!
# What holds of every index in a run

A run builds the indexes of its shards in three ways: a constructor makes an
empty one, an insertion adds a vector, and a restart reads what a snapshot saved
and replays the log on it.  What these keep holds of every shard at any point of
any run of calls and searches.
-/

namespace VecDB

open HNSWIndex

/-- What an empty index has, and an insertion and a reload keep. -/
structure IndexInvariant {D : Type} [Preorder D] [DecidableLT D]
    (cfg : HNSWConfig) (rt : Runtime (Vec cfg.dim.toUInt32) D)
    (P : HNSWIndex (Vec cfg.dim.toUInt32) → Prop) : Prop where
  new : ∀ {rng index}, HNSWIndex.new cfg rng = .ok index → P index
  insert : ∀ {index vecs vec id index'}, Stores index cfg vecs → P index →
    HNSWIndex.insert rt index vec = .ok (id, index') → P index'
  reloaded : ∀ {index vecs} (rng : ℕ → ℕ), Stores index cfg vecs → P index →
    P (index.reloaded rng)

/-- The index of a shard has the property, and so has the one whose snapshot is
on disk. -/
structure Keeping {cfg : HNSWConfig}
    (P : HNSWIndex (Vec cfg.dim.toUInt32) → Prop)
    (ss : ShardState cfg.dim.toUInt32) : Prop where
  index : P ss.index
  files : ¬ (ss.files.seg.isNone = true ∨ ss.files.graph.isNone = true) →
    ∃ saved vecs, Stores saved cfg vecs ∧ Storage.Saved ss.files saved ∧ P saved

section Shard

variable {D : Type} [Preorder D] [DecidableLT D] {cfg : HNSWConfig}
  {rt : Runtime (Vec cfg.dim.toUInt32) D}
  {P : HNSWIndex (Vec cfg.dim.toUInt32) → Prop}

theorem IndexInvariant.insertAll (h : IndexInvariant cfg rt P)
    {index index' : HNSWIndex (Vec cfg.dim.toUInt32)}
    {vecs more : List (Vec cfg.dim.toUInt32)} (hstores : Stores index cfg vecs)
    (hindex : P index) (hok : HNSWIndex.insertAll rt more index = .ok index') :
    P index' := by
  induction more generalizing index vecs with
  | nil =>
      cases hok
      exact hindex
  | cons vec more ih =>
      rw [HNSWIndex.insertAll, except_bind_eq_ok] at hok
      obtain ⟨⟨id, next⟩, hinsert, hok⟩ := hok
      exact ih (hstores.insert_eq_ok rt hinsert).2
        (h.insert hstores hindex hinsert) hok

namespace Keeping

variable {os : OS} {a : Stored cfg.dim.toUInt32}
  {ss ss' : ShardState cfg.dim.toUInt32}

theorem new (h : IndexInvariant cfg rt P) {rng : ℕ → ℕ} {disk : ShardFiles}
    {shardId : ℕ}
    (hdisk : ¬ (disk.snapshot.seg.isNone = true ∨
        disk.snapshot.graph.isNone = true) →
      ∃ saved vecs, Stores saved cfg vecs ∧
        Storage.Saved disk.snapshot saved ∧ P saved)
    (hnew : ShardState.new os cfg rng disk shardId = .ok ss) :
    Keeping P ss := by
  obtain ⟨index, wal, hindex, _, rfl⟩ := ShardState.new_eq_ok.mp hnew
  exact ⟨h.new hindex, hdisk⟩

theorem insert (h : IndexInvariant cfg rt P) (hrep : Represents cfg a ss)
    (hkeep : Keeping P ss) {vectorId : UInt64} {vec : Vec cfg.dim.toUInt32}
    {nodeId : ℕ} (hok : ss.insert os rt vectorId vec = .ok (nodeId, ss')) :
    Keeping P ss' := by
  unfold ShardState.insert at hok
  cases happend : (WAL.append os vectorId vec).run ss.wal with
  | error e wal =>
      rw [happend] at hok
      cases hok
  | ok lsn wal =>
      simp only [happend, except_bind_eq_ok] at hok
      obtain ⟨⟨id, index⟩, hinsert, hok⟩ := hok
      cases hok
      exact ⟨h.insert hrep.index hkeep.index hinsert, hkeep.files⟩

theorem snapshot (hrep : Represents cfg a ss) (hkeep : Keeping P ss)
    {dataDir : String} {ns : ℕ}
    (hok : ss.snapshot os dataDir ns = .ok ss') : Keeping P ss' := by
  rw [ShardState.snapshot_eq, except_bind_eq_ok] at hok
  obtain ⟨ss₁, hsave, htruncate⟩ := hok
  obtain ⟨hrep₁, hsaved, hindex₁, _⟩ := hrep.saveStep_eq_ok hsave
  obtain ⟨_, hindex, hfiles, _⟩ := hrep₁.truncateStep_eq_ok htruncate
  have hsame := hindex.trans hindex₁
  refine ⟨by rw [hsame]; exact hkeep.index, fun _ => ?_⟩
  rw [hfiles]
  exact ⟨ss.index, a.live, hrep.index, hsaved, hkeep.index⟩

theorem load (h : IndexInvariant cfg rt P) {rng : ℕ → ℕ}
    (hfresh : HNSWIndex.new cfg rng = .ok ss.index) (hkeep : Keeping P ss)
    {dataDir : String} (hload : ss.load os rt dataDir = .ok ss') :
    Keeping P ss' := by
  unfold ShardState.load at hload
  split_ifs at hload with hmissing
  · cases hload
    exact hkeep
  · rw [except_bind_eq_ok] at hload
    obtain ⟨restored, hrestore, hload⟩ := hload
    rw [except_bind_eq_ok] at hload
    obtain ⟨index, hreplay, hload⟩ := hload
    cases hload
    obtain ⟨saved, vecs, hstores, hsaved, hP⟩ := hkeep.files hmissing
    have hmmap : ∀ file, ss.files.seg = some file →
        os.mmap file.size = true := by
      intro file hfile
      have hfiles : ss.files = ⟨some file, ss.files.graph⟩ := by rw [← hfile]
      rw [hfiles] at hrestore
      exact Storage.mmap_of_load hrestore
    rw [hsaved.load_eq hstores hmmap hfresh] at hrestore
    cases hrestore
    exact ⟨h.insertAll (hstores.reloaded rng) (h.reloaded rng hstores hP)
      hreplay, hkeep.files⟩

end Keeping

end Shard

/-! ## The shards of a run -/

namespace Deployment

variable {D : Type} [Preorder D] [DecidableLT D] {dep : Deployment D}
  {P : HNSWIndex (Vec dep.Dim) → Prop} {os : OS} {ring : ConsistentHashRing}
  {states : ℕ → Stored dep.Dim} {m m' : ShardManager dep.Dim}

namespace Refines

theorem keeping_insert (hinv : IndexInvariant dep.cfg dep.rt P)
    (h : Refines dep ring states m) (hkeep : ∀ ss ∈ m.shards, Keeping P ss)
    {vectorId : UInt64} {vec : Vec dep.Dim} {out : ℕ × ℕ}
    (hok : m.insert os dep.rt vectorId vec = .ok (out, m')) :
    ∀ ss ∈ m'.shards, Keeping P ss := by
  rw [ShardManager.insert, except_bind_eq_ok] at hok
  obtain ⟨s, _, hok⟩ := hok
  cases hss : m.shards[s]? with
  | none =>
      rw [hss] at hok
      cases hok
  | some ss =>
      simp only [hss, except_bind_eq_ok] at hok
      obtain ⟨⟨nodeId, ss'⟩, hinsert, hok⟩ := hok
      cases hok
      intro st hst
      rcases List.mem_or_eq_of_mem_set hst with hold | rfl
      · exact hkeep st hold
      · exact (hkeep ss (List.mem_of_getElem? hss)).insert hinv
          (h.shard s ss hss).1 hinsert

theorem keeping_snapshotAll (h : Refines dep ring states m)
    (hkeep : ∀ ss ∈ m.shards, Keeping P ss) {ns : ℕ → ℕ}
    (hok : m.snapshotAll os ns = .ok m') :
    ∀ ss ∈ m'.shards, Keeping P ss := by
  rw [ShardManager.snapshotAll, except_bind_eq_ok] at hok
  obtain ⟨shards, hshards, hok⟩ := hok
  cases hok
  intro ss' hss'
  obtain ⟨s, hs⟩ := List.mem_iff_getElem?.mp hss'
  obtain ⟨ss, hss, hsnap⟩ := (mapM_eq_ok hshards).2 s ss' hs
  exact (hkeep ss (List.mem_of_getElem? hss)).snapshot (h.shard s ss hss).1 hsnap

theorem keeping_start (hinv : IndexInvariant dep.cfg dep.rt P)
    (h : Refines dep ring states m) (hkeep : ∀ ss ∈ m.shards, Keeping P ss)
    {rngs : ℕ → ℕ → ℕ} (hstart : dep.start os rngs m.close = .ok m') :
    ∀ ss ∈ m'.shards, Keeping P ss := by
  obtain ⟨_, _, _, _, hlength, hshard⟩ := Deployment.start_eq_ok hstart
  intro ss' hss'
  obtain ⟨s, hs⟩ := List.mem_iff_getElem?.mp hss'
  have hlt := (List.getElem?_eq_some_iff.mp hs).1
  obtain ⟨ss, hss⟩ := h.getElem? (hlength ▸ hlt)
  have hnew := hshard s ss' hs
  rw [ShardManager.close, hss] at hnew
  exact Keeping.new hinv (hkeep ss (List.mem_of_getElem? hss)).files hnew

theorem keeping_restart (hinv : IndexInvariant dep.cfg dep.rt P)
    (h : Refines dep ring states m) (hkeep : ∀ ss ∈ m.shards, Keeping P ss)
    {load : Bool} {rngs : ℕ → ℕ → ℕ}
    (hok : dep.restart os load rngs m = .ok m') :
    ∀ ss ∈ m'.shards, Keeping P ss := by
  rw [restart, except_bind_eq_ok] at hok
  obtain ⟨m₁, hstart, hok⟩ := hok
  have hkeep₁ := h.keeping_start hinv hkeep hstart
  cases load with
  | false =>
      cases hok
      exact hkeep₁
  | true =>
      obtain ⟨_, _, hall⟩ := loadAll_shards hok
      intro ss' hss'
      obtain ⟨s, hs⟩ := List.mem_iff_getElem?.mp hss'
      obtain ⟨ss, hss, hload⟩ := hall s ss' hs
      exact (hkeep₁ ss (List.mem_of_getElem? hss)).load hinv
        ((h.start_eq_ok hstart).2 s ss hss) hload

theorem keeping_step (hinv : IndexInvariant dep.cfg dep.rt P)
    (h : Refines dep ring states m) (hkeep : ∀ ss ∈ m.shards, Keeping P ss)
    {op : ShardManager.Op dep.Dim} (hok : dep.step os op m = .ok m') :
    ∀ ss ∈ m'.shards, Keeping P ss := by
  cases op with
  | insert vectorId vec =>
      rw [step, except_bind_eq_ok] at hok
      obtain ⟨⟨out, m₁⟩, hinsert, hok⟩ := hok
      cases hok
      exact h.keeping_insert hinv hkeep hinsert
  | snapshotAll ns => exact h.keeping_snapshotAll hkeep hok
  | restart load rngs => exact h.keeping_restart hinv hkeep hok

theorem keeping_searchStep (hkeep : ∀ ss ∈ m.shards, Keeping P ss)
    {ps : PartialSorter (HNSWSearchResult D)}
    {event : ShardManager.SearchEvent dep.Dim}
    (hok : ShardManager.searchStep dep.rt ps event m = .ok m') :
    ∀ ss ∈ m'.shards, Keeping P ss := by
  intro ss' hss'
  obtain ⟨s, hs⟩ := List.mem_iff_getElem?.mp hss'
  obtain ⟨ss, hss, hself, _⟩ := ShardManager.searchStep_eq_ok hok hs
  have hold := hkeep ss (List.mem_of_getElem? hss)
  rw [hself]
  exact ⟨hold.index, hold.files⟩

theorem keeping_eventRun (hinv : IndexInvariant dep.cfg dep.rt P)
    {ps : PartialSorter (HNSWSearchResult D)} {events : List (Event dep.Dim)}
    (h : Refines dep ring states m) (hkeep : ∀ ss ∈ m.shards, Keeping P ss)
    (hok : dep.eventRun os ps events m = .ok m') :
    ∀ ss ∈ m'.shards, Keeping P ss := by
  induction events generalizing m states with
  | nil =>
      cases hok
      exact hkeep
  | cons event events ih =>
      rw [eventRun, except_bind_eq_ok] at hok
      obtain ⟨m₁, hstep, hok⟩ := hok
      cases event with
      | call op =>
          exact ih (h.step_eq_ok hstep) (h.keeping_step hinv hkeep hstep) hok
      | search event =>
          exact ih (h.searchStep_eq_ok hstep) (keeping_searchStep hkeep hstep)
            hok

end Refines

/-- The store that a run of calls and searches makes from an empty
directory. -/
def Reached (dep : Deployment D) (os : OS)
    (ps : PartialSorter (HNSWSearchResult D)) (events : List (Event dep.Dim))
    (m : ShardManager dep.Dim) : Prop :=
  ∃ rngs m₀, dep.start os rngs (fun _ => ShardState.noFiles) = .ok m₀ ∧
    dep.eventRun os ps events m₀ = .ok m

/-- The vectors of shard `s` after the calls of a run, in node order. -/
def vectorsOf (ring : ConsistentHashRing) (events : List (Event dep.Dim))
    (s : ℕ) : List (Vec dep.Dim) :=
  (history ring s (events.filterMap Event.op?)).live

namespace Reached

variable {ps : PartialSorter (HNSWSearchResult D)}
  {events : List (Event dep.Dim)}

theorem refines (h : Reached dep os ps events m) :
    Refines dep m.ring
      (fun s => history m.ring s (events.filterMap Event.op?)) m := by
  obtain ⟨rngs, m₀, hstart, hrun⟩ := h
  have hrefines := (start_fresh hstart).eventRun_eq_ok hrun
  rw [← hrefines.ring_eq] at hrefines
  exact hrefines

theorem stores (h : Reached dep os ps events m) {s : ℕ}
    {ss : ShardState dep.Dim} (hss : m.shards[s]? = some ss) :
    Stores ss.index dep.cfg (vectorsOf m.ring events s) :=
  (h.refines.shard s ss hss).1.index

/-- What the steps keep holds of every index. -/
theorem index (hinv : IndexInvariant dep.cfg dep.rt P)
    (h : Reached dep os ps events m) {ss : ShardState dep.Dim}
    (hss : ss ∈ m.shards) : P ss.index := by
  obtain ⟨rngs, m₀, hstart, hrun⟩ := h
  refine ((start_fresh hstart).keeping_eventRun hinv ?_ hrun ss hss).index
  obtain ⟨_, _, _, _, _, hshard⟩ := Deployment.start_eq_ok hstart
  intro ss₀ hss₀
  obtain ⟨s, hs⟩ := List.mem_iff_getElem?.mp hss₀
  exact Keeping.new hinv (fun hpresent => absurd (Or.inl rfl) hpresent)
    (hshard s ss₀ hs)

end Reached

end Deployment
end VecDB
