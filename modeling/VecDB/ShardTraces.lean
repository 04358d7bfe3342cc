import VecDB.ShardFailedInsert
import VecDB.ShardSearch
import Mathlib.Tactic

/-!
# The traces of a failed insert

An insert that throws in the append leaves nothing that a search or a recovery
sees.  An insertion that throws behind the append leaves the entry in the log
and an id in the index.  Which of the two it is depends on whether the log of
the owning shard has room for the entry.
-/

namespace VecDB

open StateRules Running

/-! ## What a failed insert leaves -/

namespace Deployment

variable {D : Type} [Preorder D] [DecidableLT D] (dep : Deployment D)

/-- What recovery brings back on every shard. -/
def recovered (m : ShardManager dep.Dim) :
    List (HNSWIndex (Vec dep.Dim) × List (WALEntry dep.Dim) × ℕ) :=
  m.shards.map fun ss => (ss.index, ss.wal.replay)

/-- Nothing that is seen of a store tells `m'` from `m`: its sizes, the answers
of its searches, and what a restart recovers from its files. -/
structure NoTrace (m m' : ShardManager dep.Dim) : Prop where
  total : m'.totalVectors = m.totalVectors
  size : ∀ shardId, m'.shardSize shardId = m.shardSize shardId
  search : ∀ ps query topK ef throws,
    (m'.search dep.rt ps query topK ef throws).1 =
      (m.search dep.rt ps query topK ef throws).1
  recovery : ∀ system load rngs r r',
    dep.restart system load rngs m = .ok r →
      dep.restart system load rngs m' = .ok r' →
        dep.recovered r' = dep.recovered r

end Deployment

namespace ShardManager

variable {dim : UInt32}

/-- The log of the owning shard has room for the entry. -/
def LogAccepts (os : OS) (vectorId : UInt64) (m : ShardManager dim) : Prop :=
  ∃ shardId ss, m.Owns vectorId shardId ss ∧ WAL.HasRoom os ss.wal

/-- The same shards, but for the log of one. -/
def withWal (m : ShardManager dim) (shardId : ℕ) (ss : ShardState dim)
    (wal : WAL dim) : ShardManager dim :=
  { m with shards := m.shards.set shardId { ss with wal := wal } }

theorem sum_set_add {sizes : List ℕ} {i size : ℕ}
    (hsize : sizes[i]? = some size) (other : ℕ) :
    (sizes.set i other).sum + size = sizes.sum + other := by
  induction sizes generalizing i with
  | nil => simp at hsize
  | cons first sizes ih =>
      cases i with
      | zero =>
          obtain rfl : first = size := by simpa using hsize
          simp only [List.set_cons_zero, List.sum_cons]
          omega
      | succ i =>
          have hrest := ih (by simpa using hsize)
          simp only [List.set_cons_succ, List.sum_cons]
          omega

section Shards

variable {α : Type} {m : ShardManager dim} {shardId : ℕ}
  {ss ss' : ShardState dim}

theorem map_set_shard (hss : m.shards[shardId]? = some ss)
    {f : ShardState dim → α} (hf : f ss' = f ss) :
    (m.shards.set shardId ss').map f = m.shards.map f := by
  apply List.ext_getElem?
  intro i
  rw [List.getElem?_map, List.getElem?_map]
  by_cases hi : shardId = i
  · subst hi
    have hlt := (List.getElem?_eq_some_iff.mp hss).1
    rw [List.getElem?_set_self hlt, hss, Option.map_some, Option.map_some, hf]
  · rw [List.getElem?_set_ne hi]

theorem totalVectors_set (hss : m.shards[shardId]? = some ss) :
    totalVectors { m with shards := m.shards.set shardId ss' } +
        ss.index.size = m.totalVectors + ss'.index.size := by
  unfold totalVectors
  dsimp only
  rw [List.map_set]
  refine sum_set_add ?_ _
  rw [List.getElem?_map, hss]
  rfl

end Shards

section WithWal

variable {D : Type} [Preorder D] [DecidableLT D] {m : ShardManager dim}
  {shardId : ℕ} {ss : ShardState dim}

theorem withWal_totalVectors (hss : m.shards[shardId]? = some ss)
    (wal : WAL dim) :
    (m.withWal shardId ss wal).totalVectors = m.totalVectors :=
  congrArg List.sum (map_set_shard hss rfl)

theorem withWal_shardSize (hss : m.shards[shardId]? = some ss) (wal : WAL dim)
    (other : ℕ) :
    (m.withWal shardId ss wal).shardSize other = m.shardSize other := by
  unfold shardSize withWal
  by_cases hother : shardId = other
  · subst hother
    have hlt := (List.getElem?_eq_some_iff.mp hss).1
    dsimp only
    rw [List.getElem?_set_self hlt, hss]
  · dsimp only
    rw [List.getElem?_set_ne hother]

/-- What a search returns depends on the shards through their tasks. -/
theorem search_fst (rt : Runtime (Vec dim) D)
    (ps : PartialSorter (HNSWSearchResult D)) (query : Vec dim)
    (topK ef : Int32) (throws : ℕ → Bool) (m : ShardManager dim) :
    (m.search rt ps query topK ef throws).1 =
      (mergeResults ps ((m.shards.map
          (m.searchTasks rt query topK ef throws)).map fun answer =>
            match answer with
            | .ok answer => answer
            | .error _ => []) topK).map fun results =>
        let answers := m.shards.map (m.searchTasks rt query topK ef throws)
        { results := results
          degraded := answers.any fun answer => !answer.isOk
          shardsOk := answers.countP fun answer => answer.isOk
          shardsErr := answers.countP fun answer => !answer.isOk } := by
  unfold search
  dsimp only
  rw [gather_eq, List.map_map]
  dsimp only
  rw [List.any_map, List.countP_map, List.countP_map]
  have hmap : m.shards.map (contribution
      (m.searchTasks rt query topK ef throws)) = m.shards.map ((fun answer =>
        match answer with
        | .ok answer => answer
        | .error _ => []) ∘ m.searchTasks rt query topK ef throws) :=
    List.map_congr_left fun ss _ => rfl
  rw [hmap]
  rfl

theorem withWal_search (hss : m.shards[shardId]? = some ss) (wal : WAL dim)
    (rt : Runtime (Vec dim) D) (ps : PartialSorter (HNSWSearchResult D))
    (query : Vec dim) (topK ef : Int32) (throws : ℕ → Bool) :
    ((m.withWal shardId ss wal).search rt ps query topK ef throws).1 =
      (m.search rt ps query topK ef throws).1 := by
  have htasks : (m.withWal shardId ss wal).shards.map
      ((m.withWal shardId ss wal).searchTasks rt query topK ef throws) =
      m.shards.map (m.searchTasks rt query topK ef throws) :=
    map_set_shard hss rfl
  rw [search_fst, search_fst, htasks]

end WithWal

section Thrown

variable {D : Type} [Preorder D] [DecidableLT D] {os : OS}
  {rt : Runtime (Vec dim) D} {vectorId : UInt64} {vec : Vec dim}
  {m : ShardManager dim} {memory : ℕ → Bool} {s : Running (ShardManager dim)}

/-- An insert that throws has changed nothing, or it throws in the append. -/
inductive Refusal (os : OS) (vectorId : UInt64) (vec : Vec dim) (e : Failure)
    (m : ShardManager dim) : ShardManager dim → Prop
  | before : Refusal os vectorId vec e m m
  | append {shardId : ℕ} {ss : ShardState dim} {wal : WAL dim}
      (howns : m.Owns vectorId shardId ss) (hgrow : e ∈ WAL.growFailures)
      (happend : (WAL.append os vectorId vec).run ss.wal = .error e wal) :
      Refusal os vectorId vec e m (m.withWal shardId ss wal)

theorem tryInsert_thrown {e : Failure}
    (hrun : (tryInsert os rt vectorId vec).run ⟨m, memory⟩ = .error e s)
    (hthrown : e.Thrown) :
    (¬ m.LogAccepts os vectorId ∧ Refusal os vectorId vec e m s.obj) ∨
      (m.LogAccepts os vectorId ∧ ∃ shardId ss ss',
        m.shards[shardId]? = some ss ∧ ss.Entered ss' ∧
        s.obj = { m with shards := m.shards.set shardId ss' }) := by
  rcases tryInsert_eq_error hrun with
    ⟨hnone, rfl⟩ | ⟨shardId, ss, t, howns, hshard, rfl⟩
  · refine Or.inl ⟨?_, .before⟩
    rintro ⟨shardId, ss, howns, _⟩
    exact hnone shardId ss howns
  rcases ShardState.tryInsert_eq_error hshard with
    ⟨wal, happend, ht⟩ | ⟨hentered, lsn, happend⟩
  · obtain ⟨hroom, hgrow⟩ := WAL.append_thrown hthrown happend
    refine Or.inl ⟨?_, ?_⟩
    · rintro ⟨other, ss', howns', hroom'⟩
      rw [howns.unique howns'] at hroom'
      exact hroom hroom'
    · rw [ht]
      exact .append howns hgrow happend
  · exact Or.inr ⟨⟨shardId, ss, howns, WAL.hasRoom_of_append happend⟩,
      shardId, ss, t.obj, howns.2, hentered, rfl⟩

theorem totalVectors_entered {shardId : ℕ} {ss ss' : ShardState dim}
    (hss : m.shards[shardId]? = some ss) (hentered : ss.Entered ss') :
    totalVectors { m with shards := m.shards.set shardId ss' } +
        ss.index.size = m.totalVectors + (ss.index.size + 1) % 2 ^ 32 := by
  rw [totalVectors_set hss]
  exact congrArg (m.totalVectors + ·) hentered.nextId

theorem Refusal.totalVectors_eq {e : Failure} {m' : ShardManager dim}
    (h : Refusal os vectorId vec e m m') :
    m'.totalVectors = m.totalVectors := by
  cases h with
  | before => rfl
  | append howns _ _ => exact withWal_totalVectors howns.2 _

/-- The count of the vectors tells whether the log had accepted the entry. -/
theorem totalVectors_iff {e : Failure}
    (hrun : (tryInsert os rt vectorId vec).run ⟨m, memory⟩ = .error e s)
    (hthrown : e.Thrown) :
    s.obj.totalVectors = m.totalVectors ↔ ¬ m.LogAccepts os vectorId := by
  rcases tryInsert_thrown hrun hthrown with
    ⟨hlog, hleft⟩ | ⟨hlog, shardId, ss, ss', hss, hentered, hobj⟩
  · exact iff_of_true hleft.totalVectors_eq hlog
  · refine iff_of_false (fun htotal => ?_) (not_not.mpr hlog)
    have hcount := totalVectors_entered hss hentered
    rw [← hobj, htotal] at hcount
    omega

end Thrown

end ShardManager

/-! ## Recovery -/

section Recovery

variable {cfg : HNSWConfig} {D : Type} [Preorder D] [DecidableLT D] {os : OS}

/-- The second files are the first ones, or the log is longer by zeros. -/
structure ShardFiles.Extends (dim : UInt32) (disk disk' : ShardFiles) :
    Prop where
  snapshot : disk'.snapshot = disk.snapshot
  wal : disk'.wal = disk.wal ∨ ∃ file file' : ByteFile,
    disk.wal = some file ∧ disk'.wal = some file' ∧ WAL.Sealed dim file ∧
      file.size ≤ file'.size ∧ file'.byte = file.byte

/-- Two shards that recover the same. -/
structure ShardState.Alike {dim : UInt32} (ss ss' : ShardState dim) :
    Prop where
  index : ss'.index = ss.index
  files : ss'.files = ss.files
  shardId : ss'.shardId = ss.shardId
  replay : ss'.wal.replay = ss.wal.replay

theorem ShardFiles.Extends.new_alike {disk disk' : ShardFiles}
    (h : ShardFiles.Extends cfg.dim.toUInt32 disk disk') {rng : ℕ → ℕ}
    {shardId : ℕ} {ss ss' : ShardState cfg.dim.toUInt32}
    (hnew : ShardState.new os cfg rng disk shardId = .ok ss)
    (hnew' : ShardState.new os cfg rng disk' shardId = .ok ss') :
    ss.Alike ss' := by
  obtain ⟨index, wal, hindex, hwal, rfl⟩ := ShardState.new_eq_ok.mp hnew
  obtain ⟨index', wal', hindex', hwal', rfl⟩ := ShardState.new_eq_ok.mp hnew'
  rw [hindex] at hindex'
  cases hindex'
  refine ⟨rfl, h.snapshot, rfl, ?_⟩
  rcases h.wal with hsame | ⟨file, file', hfile, hfile', hsealed, hsize, hbyte⟩
  · rw [hsame, hwal] at hwal'
    cases hwal'
    rfl
  · rw [hfile] at hwal
    rw [hfile'] at hwal'
    exact hsealed.new_replay hsize hbyte hwal hwal'

theorem ShardState.Alike.load {dim : UInt32} {ss ss' r r' : ShardState dim}
    (h : ss.Alike ss') {rt : Runtime (Vec dim) D} {dataDir : String}
    (hload : ss.load os rt dataDir = .ok r)
    (hload' : ss'.load os rt dataDir = .ok r') : r.Alike r' := by
  unfold ShardState.load at hload hload'
  rw [h.files, h.shardId, h.index, h.replay] at hload'
  by_cases hmissing : ss.files.seg.isNone = true ∨ ss.files.graph.isNone = true
  · rw [if_pos hmissing] at hload hload'
    cases hload
    cases hload'
    exact h
  · rw [if_neg hmissing, except_bind_eq_ok] at hload hload'
    obtain ⟨index, hindex, hload⟩ := hload
    obtain ⟨index', hindex', hload'⟩ := hload'
    rw [hindex] at hindex'
    cases hindex'
    rw [except_bind_eq_ok] at hload hload'
    obtain ⟨all, hall, hload⟩ := hload
    obtain ⟨all', hall', hload'⟩ := hload'
    rw [hall] at hall'
    cases hall'
    cases hload
    cases hload'
    exact ⟨rfl, rfl, rfl, h.replay⟩

end Recovery

namespace Deployment

variable {D : Type} [Preorder D] [DecidableLT D] {dep : Deployment D}
  {os : OS}

structure Alike (m m' : ShardManager dep.Dim) : Prop where
  length : m'.shards.length = m.shards.length
  dataDir : m'.dataDir = m.dataDir
  shard : ∀ (s : ℕ) ss ss', m.shards[s]? = some ss →
    m'.shards[s]? = some ss' → ss.Alike ss'

theorem Alike.recovered_eq {m m' : ShardManager dep.Dim} (h : Alike m m') :
    dep.recovered m' = dep.recovered m := by
  unfold recovered
  apply List.ext_getElem
  · simp [h.length]
  · intro s hs hs'
    rw [List.getElem_map, List.getElem_map]
    have hlt : s < m.shards.length := by simpa using hs'
    have hlt' : s < m'.shards.length := by simpa using hs
    have halike := h.shard s _ _ (List.getElem?_eq_getElem hlt)
      (List.getElem?_eq_getElem hlt')
    rw [halike.index, halike.replay]

theorem restart_recovered {m m' r r' : ShardManager dep.Dim}
    (hfiles : ∀ s < dep.shardCount.toNat,
      ShardFiles.Extends dep.Dim (m.close s) (m'.close s))
    {load : Bool} {rngs : ℕ → ℕ → ℕ}
    (hrestart : dep.restart os load rngs m = .ok r)
    (hrestart' : dep.restart os load rngs m' = .ok r') :
    dep.recovered r' = dep.recovered r := by
  rw [restart, except_bind_eq_ok] at hrestart hrestart'
  obtain ⟨m₁, hstart, hload⟩ := hrestart
  obtain ⟨m₁', hstart', hload'⟩ := hrestart'
  obtain ⟨_, _, _, hdir, hlength, hshard⟩ := start_eq_ok hstart
  obtain ⟨_, _, _, hdir', hlength', hshard'⟩ := start_eq_ok hstart'
  have halike : Alike m₁ m₁' := by
    refine ⟨hlength'.trans hlength.symm, hdir'.trans hdir.symm, ?_⟩
    intro s ss ss' hss hss'
    have hs : s < dep.shardCount.toNat := by
      rw [← hlength]
      exact (List.getElem?_eq_some_iff.mp hss).1
    exact (hfiles s hs).new_alike (hshard s ss hss) (hshard' s ss' hss')
  cases load with
  | false =>
      cases hload
      cases hload'
      exact halike.recovered_eq
  | true =>
      obtain ⟨heq, hcount, hloaded⟩ := loadAll_shards hload
      obtain ⟨heq', hcount', hloaded'⟩ := loadAll_shards hload'
      have hafter : Alike r r' := by
        refine ⟨hcount'.trans (halike.length.trans hcount.symm), ?_, ?_⟩
        · rw [heq, heq']
          exact halike.dataDir
        · intro s ss ss' hss hss'
          obtain ⟨before, hbefore, hone⟩ := hloaded s ss hss
          obtain ⟨before', hbefore', hone'⟩ := hloaded' s ss' hss'
          rw [halike.dataDir] at hone'
          exact (halike.shard s before before' hbefore hbefore').load hone hone'
      exact hafter.recovered_eq

end Deployment

/-! ## The states of a running store -/

/-- What `snapshot_all` leaves of a shard, wherever it returns or throws. -/
def ShardState.SnapshotLeft {dim : UInt32} (os : OS) (ss ss' : ShardState dim) :
    Prop :=
  ∃ files, ss' = { ss with files := files } ∨
    ss' = { ss with
      files := files
      wal := after (WAL.truncate os ss.wal.nextLsn) ss.wal }

theorem ShardState.snapshotLeft_of_ok {dim : UInt32} {os : OS}
    {dataDir : String} {ns : ℕ} {ss ss' : ShardState dim}
    (hok : ss.snapshot os dataDir ns = .ok ss') : SnapshotLeft os ss ss' := by
  rw [snapshot_eq, except_bind_eq_ok] at hok
  obtain ⟨saved, hsave, htruncate⟩ := hok
  unfold saveStep at hsave
  rw [except_bind_eq_ok] at hsave
  obtain ⟨files, _, hsave⟩ := hsave
  cases hsave
  unfold truncateStep at htruncate
  dsimp only at htruncate
  cases hrun : (WAL.truncate os ss.wal.nextLsn).run ss.wal with
  | error e wal =>
      rw [hrun] at htruncate
      cases htruncate
  | ok u wal =>
      rw [hrun] at htruncate
      refine ⟨files, Or.inr ?_⟩
      rw [after_of_ok hrun]
      exact (Except.ok.inj htruncate).symm

namespace Deployment

variable {D : Type} [Preorder D] [DecidableLT D]

/-- The states between two calls, from a start on an empty directory on.  An
insert counts also where it threw. -/
inductive Reaches (dep : Deployment D) : ShardManager dep.Dim → Prop
  | start {os : OS} {rngs : ℕ → ℕ → ℕ} {m : ShardManager dep.Dim}
      (hstart : dep.start os rngs (fun _ => ShardState.noFiles) = .ok m) :
      Reaches dep m
  | insert {m : ShardManager dep.Dim} {os : OS} {vectorId : UInt64}
      {vec : Vec dep.Dim} {memory : ℕ → Bool} {out : ℕ × ℕ}
      {s : Running (ShardManager dep.Dim)} (h : Reaches dep m)
      (hrun : (ShardManager.tryInsert os dep.rt vectorId vec).run ⟨m, memory⟩ =
        .ok out s) : Reaches dep s.obj
  | failedInsert {m : ShardManager dep.Dim} {os : OS} {vectorId : UInt64}
      {vec : Vec dep.Dim} {memory : ℕ → Bool} {e : Failure}
      {s : Running (ShardManager dep.Dim)} (h : Reaches dep m)
      (hrun : (ShardManager.tryInsert os dep.rt vectorId vec).run ⟨m, memory⟩ =
        .error e s) (hthrown : e.Thrown) : Reaches dep s.obj
  | search {m m' : ShardManager dep.Dim}
      {ps : PartialSorter (HNSWSearchResult D)} {query : Vec dep.Dim}
      {topK ef : Int32} {throws : ℕ → Bool} {result : ShardSearchResult D}
      (h : Reaches dep m)
      (hsearch : m.search dep.rt ps query topK ef throws =
        (.ok result, m')) : Reaches dep m'
  | snapshotAll {m : ShardManager dep.Dim} {os : OS}
      {shards : List (ShardState dep.Dim)} (h : Reaches dep m)
      (hleft : List.Forall₂ (ShardState.SnapshotLeft os) m.shards shards) :
      Reaches dep { m with shards := shards }
  | loadAll {m m' : ShardManager dep.Dim} {os : OS} (h : Reaches dep m)
      (hload : m.loadAll os dep.rt = .ok m') : Reaches dep m'
  | restart {m m' : ShardManager dep.Dim} {os : OS} {load : Bool}
      {rngs : ℕ → ℕ → ℕ} (h : Reaches dep m)
      (hrestart : dep.restart os load rngs m = .ok m') : Reaches dep m'

/-- Every log is tidy. -/
def Tidied {dim : UInt32} (m : ShardManager dim) : Prop :=
  ∀ ss ∈ m.shards, ss.wal.Tidy

variable {dep : Deployment D} {os : OS} {m m' : ShardManager dep.Dim}

theorem Tidied.set (h : Tidied m) {shardId : ℕ} {ss : ShardState dep.Dim}
    (hss : ss.wal.Tidy) :
    Tidied { m with shards := m.shards.set shardId ss } := by
  intro st hst
  rcases List.mem_or_eq_of_mem_set hst with hold | rfl
  · exact h st hold
  · exact hss

theorem Tidied.of_owns (h : Tidied m) {vectorId : UInt64} {shardId : ℕ}
    {ss : ShardState dep.Dim} (howns : m.Owns vectorId shardId ss) :
    ss.wal.Tidy :=
  h ss (List.mem_of_getElem? howns.2)

theorem start_tidied {rngs : ℕ → ℕ → ℕ} {disk : ℕ → ShardFiles}
    (hdisk : ∀ s < dep.shardCount.toNat, ∀ file, (disk s).wal = some file →
      WAL.Sealed dep.Dim file)
    (hstart : dep.start os rngs disk = .ok m) : Tidied m := by
  obtain ⟨_, _, _, _, hlength, hshard⟩ := start_eq_ok hstart
  intro ss hmem
  obtain ⟨s, hss⟩ := List.mem_iff_getElem?.mp hmem
  have hs : s < dep.shardCount.toNat := by
    rw [← hlength]
    exact (List.getElem?_eq_some_iff.mp hss).1
  obtain ⟨index, wal, _, hwal, rfl⟩ :=
    ShardState.new_eq_ok.mp (hshard s ss hss)
  exact WAL.new_tidy hwal (hdisk s hs)

theorem load_wal {dim : UInt32} {ss ss' : ShardState dim}
    {rt : Runtime (Vec dim) D} {dataDir : String}
    (hload : ss.load os rt dataDir = .ok ss') : ss'.wal = ss.wal := by
  unfold ShardState.load at hload
  by_cases hmissing : ss.files.seg.isNone = true ∨ ss.files.graph.isNone = true
  · rw [if_pos hmissing] at hload
    cases hload
    rfl
  · rw [if_neg hmissing, except_bind_eq_ok] at hload
    obtain ⟨index, _, hload⟩ := hload
    rw [except_bind_eq_ok] at hload
    obtain ⟨all, _, hload⟩ := hload
    cases hload
    rfl

theorem Tidied.loadAll (h : Tidied m) (hload : m.loadAll os dep.rt = .ok m') :
    Tidied m' := by
  obtain ⟨_, _, hloaded⟩ := loadAll_shards hload
  intro ss' hmem
  obtain ⟨s, hss'⟩ := List.mem_iff_getElem?.mp hmem
  obtain ⟨ss, hss, hone⟩ := hloaded s ss' hss'
  rw [load_wal hone]
  exact h ss (List.mem_of_getElem? hss)

theorem Tidied.close_sealed (h : Tidied m) (s : ℕ) {file : ByteFile}
    (hfile : (m.close s).wal = some file) : WAL.Sealed dep.Dim file := by
  unfold ShardManager.close at hfile
  cases hss : m.shards[s]? with
  | none =>
      rw [hss] at hfile
      cases hfile
  | some ss =>
      rw [hss] at hfile
      cases hfile
      exact (h ss (List.mem_of_getElem? hss)).sealed

theorem Tidied.restart (h : Tidied m) {load : Bool} {rngs : ℕ → ℕ → ℕ}
    (hrestart : dep.restart os load rngs m = .ok m') : Tidied m' := by
  rw [Deployment.restart, except_bind_eq_ok] at hrestart
  obtain ⟨m₁, hstart, hload⟩ := hrestart
  have h₁ : Tidied m₁ :=
    start_tidied (fun s _ file => h.close_sealed s) hstart
  cases load with
  | false =>
      cases hload
      exact h₁
  | true => exact h₁.loadAll hload

theorem Tidied.snapshotLeft (h : Tidied m) {shards : List (ShardState dep.Dim)}
    (hleft : List.Forall₂ (ShardState.SnapshotLeft os) m.shards shards) :
    Tidied { m with shards := shards } := by
  have hall : ∀ ss ∈ m.shards, ss.wal.Tidy := h
  change ∀ ss ∈ shards, ss.wal.Tidy
  clear h
  generalize m.shards = before at hall hleft
  induction hleft with
  | nil => simp
  | cons hone _ ih =>
      rw [List.forall_mem_cons] at hall ⊢
      refine ⟨?_, ih hall.2⟩
      obtain ⟨files, rfl | rfl⟩ := hone
      · exact hall.1
      · exact hall.1.after_truncate os

/-- A `snapshot_all` that returned. -/
theorem Reaches.snapshotAll_ok (h : dep.Reaches m) {ns : ℕ → ℕ}
    (hok : m.snapshotAll os ns = .ok m') : dep.Reaches m' := by
  rw [ShardManager.snapshotAll, except_bind_eq_ok] at hok
  obtain ⟨shards, hshards, hok⟩ := hok
  cases hok
  have hleft : List.Forall₂ (ShardState.SnapshotLeft os) m.shards shards := by
    obtain ⟨hlength, hall⟩ := mapM_eq_ok hshards
    refine List.forall₂_iff_get.mpr ⟨hlength.symm, fun i hi hi' => ?_⟩
    obtain ⟨ss, hss, hsnap⟩ := hall i _ (List.getElem?_eq_getElem hi')
    obtain rfl : ss = m.shards.get ⟨i, hi⟩ := by
      rw [List.getElem?_eq_getElem hi] at hss
      exact (Option.some.inj hss).symm
    exact ShardState.snapshotLeft_of_ok hsnap
  exact h.snapshotAll hleft

theorem Reaches.tidied (h : dep.Reaches m) : Tidied m := by
  induction h with
  | start hstart => exact start_tidied (fun _ _ _ hfile => by cases hfile) hstart
  | insert h hrun ih =>
      obtain ⟨ss, t, howns, hshard, rfl⟩ := ShardManager.tryInsert_eq_ok hrun
      obtain ⟨_, lsn, happend⟩ := ShardState.tryInsert_eq_ok hshard
      exact ih.set ((ih.of_owns howns).append_eq_ok happend)
  | failedInsert h hrun hthrown ih =>
      rcases ShardManager.tryInsert_eq_error hrun with
        ⟨_, rfl⟩ | ⟨shardId, ss, t, howns, hshard, rfl⟩
      · exact ih
      · have htidy := ih.of_owns howns
        apply ih.set
        rcases ShardState.tryInsert_eq_error hshard with
          ⟨wal, happend, ht⟩ | ⟨_, lsn, happend⟩
        · rw [ht]
          have hgrow := (WAL.append_thrown hthrown happend).2
          exact (htidy.append_eq_error hgrow happend).1
        · exact htidy.append_eq_ok happend
  | search h hsearch ih =>
      obtain ⟨_, _, _, _, rfl⟩ := ShardManager.search_eq_ok hsearch
      intro ss' hmem
      obtain ⟨ss, hss, rfl⟩ := List.mem_map.mp hmem
      unfold settled
      split_ifs
      · exact ih ss hss
      · exact ih ss hss
  | snapshotAll h hleft ih => exact ih.snapshotLeft hleft
  | loadAll h hload ih => exact ih.loadAll hload
  | restart h hrestart ih => exact ih.restart hrestart

/-! ## One call -/

theorem NoTrace.refl (m : ShardManager dep.Dim) : dep.NoTrace m m where
  total := rfl
  size := fun _ => rfl
  search := fun _ _ _ _ _ => rfl
  recovery := by
    intro system load rngs r r' hr hr'
    rw [hr] at hr'
    cases hr'
    rfl

theorem Reaches.noTrace (h : dep.Reaches m) {vectorId : UInt64}
    {vec : Vec dep.Dim} {e : Failure}
    (hthrown : ShardManager.Refusal os vectorId vec e m m') :
    dep.NoTrace m m' := by
  cases hthrown with
  | before => exact NoTrace.refl m
  | @append shardId ss wal howns hgrow happend =>
      have htidy := h.tidied.of_owns howns
      obtain ⟨_, hsize, hbyte⟩ := htidy.append_eq_error hgrow happend
      refine {
        total := ShardManager.withWal_totalVectors howns.2 wal
        size := ShardManager.withWal_shardSize howns.2 wal
        search := ShardManager.withWal_search howns.2 wal dep.rt
        recovery := fun system load rngs r r' =>
          restart_recovered fun s _ => ?_ }
      have hlt := (List.getElem?_eq_some_iff.mp howns.2).1
      unfold ShardManager.close ShardManager.withWal
      by_cases hs : shardId = s
      · subst hs
        dsimp only
        rw [List.getElem?_set_self hlt, howns.2]
        exact ⟨rfl, Or.inr ⟨_, _, rfl, rfl, htidy.sealed, hsize, hbyte⟩⟩
      · dsimp only
        rw [List.getElem?_set_ne hs]
        exact ⟨rfl, Or.inl rfl⟩

/-- A failed insert leaves no trace exactly where the log refused it. -/
theorem Reaches.noTrace_iff (h : dep.Reaches m) {vectorId : UInt64}
    {vec : Vec dep.Dim} {memory : ℕ → Bool} {e : Failure}
    {s : Running (ShardManager dep.Dim)}
    (hrun : (ShardManager.tryInsert os dep.rt vectorId vec).run ⟨m, memory⟩ =
      .error e s) (hthrown : e.Thrown) :
    dep.NoTrace m s.obj ↔ ¬ m.LogAccepts os vectorId := by
  constructor
  · intro hno
    exact (ShardManager.totalVectors_iff hrun hthrown).mp hno.total
  · intro hlog
    rcases ShardManager.tryInsert_thrown hrun hthrown with
      ⟨_, hleft⟩ | ⟨haccepts, _⟩
    · exact h.noTrace hleft
    · exact (hlog haccepts).elim

end Deployment
end VecDB
