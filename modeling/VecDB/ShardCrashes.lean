import VecDB.LoggedCrashes
import VecDB.ShardRouting
import VecDB.ShardSwept
import VecDB.ShardTraces
import Mathlib.Tactic

/-!
# Killing a store

A process is killed inside `insert`, at any byte of the entry it logs, and
started again, any number of times.  The store still refines the logged stores
of its shards, so what `insert` answered is never lost.  A kill inside a
checkpoint or a snapshot is not part of these runs.
-/

namespace VecDB

open LoggedStore

/-! ## Runs in which the process is killed -/

/-- A call that returned, the end of the process and its next start, or a kill
when `count` bytes of the entry of an insert are logged, and the next start. -/
inductive ShardManager.CrashOp (dim : UInt32) where
  | insert (vectorId : UInt64) (vec : Vec dim) (out : ℕ × ℕ)
  | snapshotAll (ns : ℕ → ℕ)
  | restart (load : Bool) (rngs : ℕ → ℕ → ℕ)
  | kill (vectorId : UInt64) (vec : Vec dim) (count : ℕ) (load : Bool)
      (rngs : ℕ → ℕ → ℕ)

namespace ShardManager.CrashOp

variable {dim : UInt32}

/-- The insert that was answered. -/
def acknowledged? : CrashOp dim → Option (UInt64 × Vec dim)
  | .insert vectorId vec _ => some (vectorId, vec)
  | _ => none

/-- The insert that was begun. -/
def offered? : CrashOp dim → Option (UInt64 × Vec dim)
  | .insert vectorId vec _ => some (vectorId, vec)
  | .kill vectorId vec _ _ _ => some (vectorId, vec)
  | _ => none

/-- Whether the process that is started loads. -/
def start? : CrashOp dim → Option Bool
  | .restart load _ => some load
  | .kill _ _ _ load _ => some load
  | _ => none

end ShardManager.CrashOp

namespace Deployment

open ShardManager (CrashOp)

section Runs

variable {D : Type} [Preorder D] [DecidableLT D] (dep : Deployment D)

/-- The runs from an empty data directory, whatever the system grants at each
step, in which no checksum fits a torn entry by accident. -/
inductive CrashRun : List (CrashOp dep.Dim) → ShardManager dep.Dim → Prop
  | start {os : OS} {rngs : ℕ → ℕ → ℕ} {m : ShardManager dep.Dim}
      (hstart : dep.start os rngs (fun _ => ShardState.noFiles) = .ok m) :
      CrashRun [] m
  | insert {os : OS} {ops : List (CrashOp dep.Dim)}
      {m m' : ShardManager dep.Dim} {vectorId : UInt64} {vec : Vec dep.Dim}
      {out : ℕ × ℕ} (hrun : CrashRun ops m)
      (hinsert : m.insert os dep.rt vectorId vec = .ok (out, m')) :
      CrashRun (ops ++ [.insert vectorId vec out]) m'
  | snapshotAll {os : OS} {ops : List (CrashOp dep.Dim)}
      {m m' : ShardManager dep.Dim} {ns : ℕ → ℕ} (hrun : CrashRun ops m)
      (hsnap : m.snapshotAll os ns = .ok m') :
      CrashRun (ops ++ [.snapshotAll ns]) m'
  | restart {os : OS} {ops : List (CrashOp dep.Dim)}
      {m m' : ShardManager dep.Dim} {load : Bool} {rngs : ℕ → ℕ → ℕ}
      (hrun : CrashRun ops m)
      (hrestart : dep.restart os load rngs m = .ok m') :
      CrashRun (ops ++ [.restart load rngs]) m'
  | kill {os os' : OS} {ops : List (CrashOp dep.Dim)}
      {m m' : ShardManager dep.Dim} {vectorId : UInt64} {vec : Vec dep.Dim}
      {count shardId : ℕ} {ss : ShardState dep.Dim} {wal : WAL dep.Dim}
      {load : Bool} {rngs : ℕ → ℕ → ℕ} (hrun : CrashRun ops m)
      (howns : m.Owns vectorId shardId ss)
      (hreserve : (WAL.reserve os).run ss.wal = .ok () wal)
      (hcrc : WAL.NoCollision dep.Dim (WAL.crashImage wal vectorId vec count)
        wal.nextLsn vec)
      (hrestart : dep.restart os' load rngs
        (m.withWal shardId ss (wal.killed vectorId vec count)) = .ok m') :
      CrashRun (ops ++ [.kill vectorId vec count load rngs]) m'

/-- Every process that is started loads, and comes after a snapshot. -/
def LoadsSaved (ops : List (CrashOp dep.Dim)) : Prop :=
  ∀ before op after load, ops = before ++ op :: after →
    op.start? = some load →
    load = true ∧ ∃ ns, .snapshotAll ns ∈ before

/-- Every snapshot finds each log empty, or with entries behind its
checkpoint. -/
def CutsLogs (ops : List (CrashOp dep.Dim)) : Prop :=
  ∀ before ns after m, ops = before ++ .snapshotAll ns :: after →
    dep.CrashRun before m →
    ∀ ss ∈ m.shards,
      ss.wal.nextLsn = 0 ∨ ss.wal.checkpointLsn < ss.wal.nextLsn

/-- What a run has made of the shards. -/
structure Recovers (ops : List (CrashOp dep.Dim))
    (states : ℕ → Stored dep.Dim) (m : ShardManager dep.Dim) : Prop where
  refines : Refines dep m.ring states m.swept
  sweepable : m.Sweepable
  saved : (∃ ns, .snapshotAll ns ∈ ops) → ∀ s, (states s).saved.isSome = true
  safe : dep.LoadsSaved ops → ∀ s, Safe Prod.snd
    (routedTo m.ring s (ops.filterMap CrashOp.acknowledged?))
    (routedTo m.ring s (ops.filterMap CrashOp.offered?)) (states s)
  tight : dep.LoadsSaved ops → dep.CutsLogs ops →
    ∀ s < dep.shardCount.toNat, Tight Prod.snd
      (routedTo m.ring s (ops.filterMap CrashOp.offered?)) (states s)
  named : dep.LoadsSaved ops → dep.CutsLogs ops → ∀ vectorId vec s nodeId,
    .insert vectorId vec (s, nodeId) ∈ ops →
      s < dep.shardCount.toNat ∧ (states s).live[nodeId]? = some vec

end Runs

/-! ### One step -/

section Steps

variable {D : Type} [Preorder D] [DecidableLT D] {dep : Deployment D}
  {ops : List (CrashOp dep.Dim)} {states : ℕ → Stored dep.Dim}
  {m m' : ShardManager dep.Dim} {os : OS}

theorem LoadsSaved.init {op : CrashOp dep.Dim}
    (h : dep.LoadsSaved (ops ++ [op])) : dep.LoadsSaved ops := by
  intro before op' after load hsplit
  apply h before op' (after ++ [op]) load
  simp [hsplit]

theorem CutsLogs.init {op : CrashOp dep.Dim} (h : dep.CutsLogs (ops ++ [op])) :
    dep.CutsLogs ops := by
  intro before ns after m hsplit
  apply h before ns (after ++ [op]) m
  simp [hsplit]

theorem getElem?_append_of_eq_some {α : Type} {l : List α} {i : ℕ} {a : α}
    (hget : l[i]? = some a) (more : List α) : (l ++ more)[i]? = some a :=
  (List.getElem?_append_left (List.getElem?_eq_some_iff.mp hget).1).trans hget

/-- What one step adds to the calls of a shard. -/
theorem routedTo_step {ring : ConsistentHashRing}
    (f : CrashOp dep.Dim → Option (UInt64 × Vec dep.Dim))
    (ops : List (CrashOp dep.Dim)) (op : CrashOp dep.Dim) (s : ℕ) :
    routedTo ring s ((ops ++ [op]).filterMap f) =
      routedTo ring s (ops.filterMap f) ++ routedTo ring s (f op).toList := by
  rw [List.filterMap_append, routedTo_append]
  cases hf : f op <;> simp [hf]

/-- An insert concerns the shard that owns its id, and no other. -/
theorem request_insert_cases {ring : ConsistentHashRing} {vectorId : UInt64}
    {owner : ℕ} (hroute : ring.getShard vectorId = .ok owner)
    (vec : Vec dep.Dim) (s : ℕ) :
    (request ring s (.insert vectorId vec)).toList =
        [.insert (vectorId, vec)] ∧
      routedTo ring s [(vectorId, vec)] = [(vectorId, vec)] ∧ s = owner ∨
    (request ring s (.insert vectorId vec)).toList = [] ∧
      routedTo ring s [(vectorId, vec)] = [] ∧ s ≠ owner := by
  by_cases hs : s = owner
  · left
    subst hs
    simp [request, routedTo, hroute]
  · right
    simp [request, routedTo, hroute, Ne.symm hs, hs]

namespace Recovers

theorem start {rngs : ℕ → ℕ → ℕ}
    (hstart : dep.start os rngs (fun _ => ShardState.noFiles) = .ok m) :
    dep.Recovers [] (fun _ => empty) m where
  refines := by
    have h := start_fresh hstart
    rwa [h.swept_eq.1]
  sweepable := (start_fresh hstart).swept_eq.2
  saved := by simp
  safe := fun _ _ => Safe.empty
  tight := fun _ _ _ _ => Tight.empty
  named := by simp

theorem crashed (h : dep.Recovers ops states m) {s : ℕ}
    {ss : ShardState dep.Dim} (hss : m.shards[s]? = some ss) :
    WAL.Crashed (states s).log ss.wal := by
  obtain ⟨entries, hlog⟩ := h.sweepable ss (List.mem_of_getElem? hss)
  have hrep := (h.refines.shard s _ (ShardManager.swept_getElem? hss)).1
  rwa [hlog.swept.holds.unique hrep.log.holds] at hlog

theorem length_eq (h : dep.Recovers ops states m) :
    m.shards.length = dep.shardCount.toNat := by
  have hlength : m.swept.shards.length = _ := h.refines.length_eq
  unfold ShardManager.swept at hlength
  rwa [List.length_map] at hlength

theorem getElem? (h : dep.Recovers ops states m) {s : ℕ}
    (hs : s < dep.shardCount.toNat) : ∃ ss, m.shards[s]? = some ss :=
  ⟨_, List.getElem?_eq_getElem (by rwa [h.length_eq])⟩

theorem cuts (h : dep.Recovers ops states m) {s : ℕ}
    (hs : s < dep.shardCount.toNat)
    (hfound : ∀ ss ∈ m.shards,
      ss.wal.nextLsn = 0 ∨ ss.wal.checkpointLsn < ss.wal.nextLsn) :
    (states s).Cuts := by
  obtain ⟨ss, hss⟩ := h.getElem? hs
  have hrep := (h.refines.shard s _ (ShardManager.swept_getElem? hss)).1
  have hmark : ss.wal.checkpointLsn = (states s).mark := hrep.mark
  have hcut := hfound ss (List.mem_of_getElem? hss)
  rw [(h.crashed hss).holds.next, hmark] at hcut
  exact hcut.imp List.length_eq_zero_iff.mp id

theorem insert (h : dep.Recovers ops states m) {vectorId : UInt64}
    {vec : Vec dep.Dim} {out : ℕ × ℕ}
    (hok : m.insert os dep.rt vectorId vec = .ok (out, m')) :
    dep.Recovers (ops ++ [.insert vectorId vec out])
      (fun s => serve 1000 Prod.snd
        (request m.ring s (.insert vectorId vec)).toList (states s)) m' := by
  obtain ⟨hswept, hsweepable⟩ := ShardManager.insert_swept h.sweepable hok
  obtain ⟨hroute, hnode, hrefines⟩ := h.refines.insert_eq_ok hswept
  have hring : m'.ring = m.ring := hrefines.ring_eq
  -- the history of the owner grows by this insert, the others stay
  have hcases := request_insert_cases hroute vec
  constructor
  · rwa [hring]
  · exact hsweepable
  · intro hsnap s
    have hold := h.saved (by simpa using hsnap) s
    rcases hcases s with ⟨hone, _⟩ | ⟨hnone, _⟩
    · rw [hone]
      simpa [add] using hold
    · rwa [hnone]
  · intro hloads s
    have hold := h.safe hloads.init s
    rw [hring, routedTo_step, routedTo_step]
    rcases hcases s with ⟨hone, hrouted, _⟩ | ⟨hnone, hrouted, _⟩
    · rw [hone]
      simpa only [CrashOp.acknowledged?, CrashOp.offered?,
        Option.toList_some, hrouted] using hold.insert (vectorId, vec)
    · rw [hnone, serve_nil]
      simpa only [CrashOp.acknowledged?, CrashOp.offered?,
        Option.toList_some, hrouted, List.append_nil] using hold
  · intro hloads hcuts s hs
    have hold := h.tight hloads.init hcuts.init s hs
    rw [hring, routedTo_step]
    rcases hcases s with ⟨hone, hrouted, _⟩ | ⟨hnone, hrouted, _⟩
    · rw [hone]
      simpa only [CrashOp.offered?, Option.toList_some, hrouted] using
        hold.insert (vectorId, vec)
    · rw [hnone, serve_nil]
      simpa only [CrashOp.offered?, Option.toList_some, hrouted,
        List.append_nil] using hold
  · intro hloads hcuts vectorId' vec' s nodeId hmem
    rcases List.mem_append.mp hmem with hold | hlast
    · obtain ⟨hs, hget⟩ :=
        h.named hloads.init hcuts.init vectorId' vec' s nodeId hold
      refine ⟨hs, ?_⟩
      rcases hcases s with ⟨hone, _⟩ | ⟨hnone, _⟩
      · rw [hone, insert_live]
        exact getElem?_append_of_eq_some hget _
      · rwa [hnone]
    · have heq := List.mem_singleton.mp hlast
      cases heq
      obtain ⟨_, hlt, hs⟩ := h.refines.getShard_lt vectorId
      rw [hroute] at hlt
      cases hlt
      refine ⟨hs, ?_⟩
      rcases hcases s with ⟨hone, _⟩ | ⟨_, _, hne⟩
      · dsimp only at hnode
        rw [hone, insert_live, hnode]
        simp
      · exact absurd rfl hne

theorem snapshotAll (h : dep.Recovers ops states m) {ns : ℕ → ℕ}
    (hrun : dep.CrashRun ops m) (hok : m.snapshotAll os ns = .ok m') :
    dep.Recovers (ops ++ [.snapshotAll ns])
      (fun s => serve 1000 Prod.snd [.compact] (states s)) m' := by
  obtain ⟨hswept, hsweepable⟩ := ShardManager.snapshotAll_swept h.sweepable hok
  obtain ⟨hrefines, _⟩ := h.refines.snapshotAll_eq_ok hswept
  have hring : m'.ring = m.ring := hrefines.ring_eq
  have hnone (f : CrashOp dep.Dim → Option (UInt64 × Vec dep.Dim))
      (hf : f (.snapshotAll ns) = none) :
      (ops ++ [CrashOp.snapshotAll ns]).filterMap f = ops.filterMap f := by
    simp [hf]
  constructor
  · rwa [hring]
  · exact hsweepable
  · intro _ s
    simp [save]
  · intro hloads s
    rw [hring, hnone CrashOp.acknowledged? rfl, hnone CrashOp.offered? rfl]
    exact (h.safe hloads.init s).compact
  · intro hloads hcuts s hs
    rw [hring, hnone CrashOp.offered? rfl]
    have hcut := h.cuts hs fun ss hss => hcuts ops ns [] m rfl hrun ss hss
    exact (h.tight hloads.init hcuts.init s hs).compact hcut
  · intro hloads hcuts vectorId vec s nodeId hmem
    rw [compact_live]
    exact h.named hloads.init hcuts.init vectorId vec s nodeId
      (by simpa using hmem)

/-- A new process, after a kill or not. -/
theorem restarted (h : dep.Recovers ops states m) {op : CrashOp dep.Dim}
    {load : Bool} (hstart : op.start? = some load)
    (hnone : op.acknowledged? = none)
    (more : ℕ → List (UInt64 × Vec dep.Dim))
    (hmore : ∀ s, (more s).Sublist (routedTo m.ring s op.offered?.toList))
    (hrefines : Refines dep m.ring (fun s => serve 1000 Prod.snd
      [.restart load] ((states s).tear (more s))) m'.swept)
    (hsweepable : m'.Sweepable) :
    dep.Recovers (ops ++ [op]) (fun s => serve 1000 Prod.snd
      [.restart load] ((states s).tear (more s))) m' := by
  have hring : m'.ring = m.ring := hrefines.ring_eq
  have hloaded : dep.LoadsSaved (ops ++ [op]) → load = true ∧
      ∀ s, (states s).saved.isSome = true := by
    intro hloads
    obtain ⟨hload, hsnap⟩ := hloads ops op [] load rfl hstart
    exact ⟨hload, h.saved hsnap⟩
  constructor
  · rwa [hring]
  · exact hsweepable
  · rintro ⟨ns, hsnap⟩ s
    rw [restart_saved]
    apply h.saved
    rcases List.mem_append.mp hsnap with hold | hlast
    · exact ⟨ns, hold⟩
    · rw [← List.mem_singleton.mp hlast] at hstart
      cases hstart
  · intro hloads s
    obtain ⟨rfl, hsaved⟩ := hloaded hloads
    rw [hring, routedTo_step, routedTo_step, hnone,
      show routedTo m.ring s (none : Option _).toList = [] from rfl,
      List.append_nil]
    exact ((h.safe hloads.init s).restart (hsaved s) (more s)).mono
      ((List.Sublist.refl _).append (hmore s))
  · intro hloads hcuts s hs
    obtain ⟨rfl, hsaved⟩ := hloaded hloads
    rw [hring, routedTo_step]
    exact ((h.tight hloads.init hcuts.init s hs).restart (hsaved s)
      (more s)).mono ((List.Sublist.refl _).append (hmore s))
  · intro hloads hcuts vectorId vec s nodeId hmem
    obtain ⟨rfl, hsaved⟩ := hloaded hloads
    rcases List.mem_append.mp hmem with hold | hlast
    · obtain ⟨hs, hget⟩ :=
        h.named hloads.init hcuts.init vectorId vec s nodeId hold
      refine ⟨hs, ?_⟩
      rw [(h.tight hloads.init hcuts.init s hs).restart_live (hsaved s)]
      exact getElem?_append_of_eq_some hget _
    · rw [← List.mem_singleton.mp hlast] at hnone
      cases hnone

theorem restart (h : dep.Recovers ops states m) {load : Bool}
    {rngs : ℕ → ℕ → ℕ} (hok : dep.restart os load rngs m = .ok m') :
    dep.Recovers (ops ++ [.restart load rngs])
      (fun s => serve 1000 Prod.snd [.restart load] (states s)) m' := by
  obtain ⟨hswept, hsweepable⟩ := restart_swept h.sweepable h.length_eq hok
  have hrefines := h.refines.restart_eq_ok hswept
  have hnothing : ∀ s, (states s).tear [] = states s := fun s => tear_nil _
  have hop : (CrashOp.restart load rngs : CrashOp dep.Dim).start? =
      some load := rfl
  have hnew := h.restarted hop rfl (fun _ => []) (fun s => List.nil_sublist _)
    (by simpa only [hnothing] using hrefines) hsweepable
  simpa only [hnothing] using hnew

/-- A log that differs in what was logged last. -/
theorem withWal (h : dep.Recovers ops states m) {shardId : ℕ}
    {ss : ShardState dep.Dim} (hss : m.shards[shardId]? = some ss)
    {wal : WAL dep.Dim} {logged : List (UInt64 × Vec dep.Dim)}
    (hcrashed : WAL.Crashed ((states shardId).log ++ logged) wal)
    (hmark : wal.checkpointLsn = ss.wal.checkpointLsn)
    (hevery : wal.checkpointEvery = ss.wal.checkpointEvery)
    (hsince : wal.appendsSinceCkpt = ss.wal.appendsSinceCkpt) :
    Refines dep m.ring
      (fun s => (states s).tear (if s = shardId then logged else []))
      (m.withWal shardId ss wal).swept := by
  have hss' := ShardManager.swept_getElem? hss
  have hrep := (h.refines.shard shardId _ hss').1
  have hid : ShardState.shardId (ShardState.swept { ss with wal := wal }) =
      ss.swept.shardId := rfl
  have hself : Represents dep.cfg ((states shardId).tear logged)
      (ShardState.swept { ss with wal := wal }) := {
    index := hrep.index
    log := hcrashed.swept
    every := hevery.trans hrep.every
    mark := hmark.trans hrep.mark
    since := hsince.trans hrep.since
    since_lt := hrep.since_lt
    files := hrep.files }
  unfold ShardManager.withWal
  rw [ShardManager.swept_set]
  apply h.refines.setShard hss' hid
  · rwa [if_pos rfl]
  · intro t hts
    rw [if_neg hts, tear_nil]

/-- The number of entries is not on disk. -/
theorem withWal_close {shardId nextLsn : ℕ} {ss : ShardState dep.Dim}
    (wal : WAL dep.Dim) :
    (m.withWal shardId ss { wal with nextLsn := nextLsn }).close =
      (m.withWal shardId ss wal).close := by
  funext s
  unfold ShardManager.close ShardManager.withWal
  dsimp only
  by_cases hs : shardId = s
  · subst hs
    by_cases hlt : shardId < m.shards.length
    · rw [List.getElem?_set_self hlt, List.getElem?_set_self hlt]
      rfl
    · rw [List.set_eq_of_length_le (not_lt.mp hlt),
        List.set_eq_of_length_le (not_lt.mp hlt)]
  · rw [List.getElem?_set_ne hs, List.getElem?_set_ne hs]

/-- The entry of the killed insert is logged, or nothing has happened. -/
theorem killed (h : dep.Recovers ops states m)
    (hentry : WAL.entrySize dep.Dim ≤ WAL.growSize) {vectorId : UInt64}
    {vec : Vec dep.Dim} {count shardId : ℕ} {ss : ShardState dep.Dim}
    {wal : WAL dep.Dim} (howns : m.Owns vectorId shardId ss)
    (hreserve : (WAL.reserve os).run ss.wal = .ok () wal)
    (hcrc : WAL.NoCollision dep.Dim (WAL.crashImage wal vectorId vec count)
      wal.nextLsn vec) :
    ∃ (more : ℕ → List (UInt64 × Vec dep.Dim)) (torn : ShardManager dep.Dim),
      (∀ s, (more s).Sublist (routedTo m.ring s [(vectorId, vec)])) ∧
      torn.close = (m.withWal shardId ss
        (wal.killed vectorId vec count)).close ∧
      torn.Sweepable ∧ torn.shards.length = dep.shardCount.toNat ∧
      Refines dep m.ring (fun s => (states s).tear (more s)) torn.swept := by
  obtain ⟨hroute, hss⟩ := howns
  obtain ⟨hmark, hevery, hsince, logged, hlogged, hcrashed⟩ :=
    (h.crashed hss).killed hentry hreserve hcrc
  refine ⟨fun s => if s = shardId then logged else [], _, ?_,
    withWal_close _, h.sweepable.set ⟨_, hcrashed⟩, ?_,
    h.withWal hss hcrashed hmark hevery hsince⟩
  · intro s
    dsimp only
    split_ifs with hs
    · subst hs
      simpa [routedTo, hroute] using hlogged
    · exact List.nil_sublist _
  · exact (List.length_set ..).trans h.length_eq

theorem kill (h : dep.Recovers ops states m)
    (hentry : WAL.entrySize dep.Dim ≤ WAL.growSize) {os' : OS}
    {vectorId : UInt64} {vec : Vec dep.Dim} {count shardId : ℕ}
    {ss : ShardState dep.Dim} {wal : WAL dep.Dim} {load : Bool}
    {rngs : ℕ → ℕ → ℕ} (howns : m.Owns vectorId shardId ss)
    (hreserve : (WAL.reserve os).run ss.wal = .ok () wal)
    (hcrc : WAL.NoCollision dep.Dim (WAL.crashImage wal vectorId vec count)
      wal.nextLsn vec)
    (hrestart : dep.restart os' load rngs
      (m.withWal shardId ss (wal.killed vectorId vec count)) = .ok m') :
    ∃ states', dep.Recovers (ops ++ [.kill vectorId vec count load rngs])
      states' m' := by
  obtain ⟨more, torn, hmore, hclose, hsweepable, hlength, hrefines⟩ :=
    h.killed hentry howns hreserve hcrc
  rw [← restart_congr hclose] at hrestart
  obtain ⟨hswept, hsweepable'⟩ := restart_swept hsweepable hlength hrestart
  have hop : (CrashOp.kill vectorId vec count load rngs :
      CrashOp dep.Dim).start? = some load := rfl
  exact ⟨_, h.restarted hop rfl more hmore (hrefines.restart_eq_ok hswept)
    hsweepable'⟩

end Recovers

theorem CrashRun.recovers (hentry : WAL.entrySize dep.Dim ≤ WAL.growSize)
    (hrun : dep.CrashRun ops m) : ∃ states, dep.Recovers ops states m := by
  induction hrun with
  | start hstart => exact ⟨_, .start hstart⟩
  | insert hrun hinsert ih =>
      obtain ⟨states, h⟩ := ih
      exact ⟨_, h.insert hinsert⟩
  | snapshotAll hrun hsnap ih =>
      obtain ⟨states, h⟩ := ih
      exact ⟨_, h.snapshotAll hrun hsnap⟩
  | restart hrun hrestart ih =>
      obtain ⟨states, h⟩ := ih
      exact ⟨_, h.restart hrestart⟩
  | kill hrun howns hreserve hcrc hrestart ih =>
      obtain ⟨states, h⟩ := ih
      exact h.kill hentry howns hreserve hcrc hrestart

end Steps

/-! ### Whole runs -/

section Results

variable {D : Type} [Preorder D] [DecidableLT D] {dep : Deployment D}
  {ops : List (CrashOp dep.Dim)} {states : ℕ → Stored dep.Dim}
  {m : ShardManager dep.Dim}

theorem Recovers.vectors_eq (h : dep.Recovers ops states m) {s : ℕ}
    {ss : ShardState dep.Dim} (hss : m.shards[s]? = some ss) :
    ss.index.vectors = (states s).live :=
  (h.refines.shard s _ (ShardManager.swept_getElem? hss)).1.index.vectors_eq

theorem Recovers.totalVectors_eq (h : dep.Recovers ops states m) :
    m.totalVectors = ((List.range dep.shardCount.toNat).map fun s =>
      (states s).live.length).sum := by
  unfold ShardManager.totalVectors
  congr 1
  apply List.ext_getElem
  · simp [h.length_eq]
  · intro s hs _
    rw [List.length_map] at hs
    have hss := ShardManager.swept_getElem? (List.getElem?_eq_getElem hs)
    rw [List.getElem_map, List.getElem_map, List.getElem_range]
    exact (h.refines.shard s _ hss).1.index.size_eq

/-- What is on disk is no more than what was asked. -/
theorem Recovers.disk_le (h : dep.Recovers ops states m)
    (hloads : dep.LoadsSaved ops) (hcuts : dep.CutsLogs ops) {s : ℕ}
    (hs : s < dep.shardCount.toNat) {vecs : List (Vec dep.Dim)}
    (hvecs : (states s).saved = some vecs) :
    vecs.length + (states s).log.length ≤
      (ops.filterMap CrashOp.offered?).length := by
  have htight := h.tight hloads hcuts s hs
  have hlength := htight.offered.length_le
  have hrouted : (routedTo m.ring s
      (ops.filterMap CrashOp.offered?)).length ≤ _ := List.length_filter_le _ _
  rw [htight.disk, List.length_map] at hlength
  unfold onDisk at hlength
  rw [hvecs, Option.getD_some, List.length_append, List.length_map] at hlength
  omega

/-- What a kill leaves comes up again. -/
theorem Recovers.kill_ok (h : dep.Recovers ops states m)
    (hentry : WAL.entrySize dep.Dim ≤ WAL.growSize)
    (hloads : dep.LoadsSaved ops) (hcuts : dep.CutsLogs ops)
    (hroom : HNSWIndex.Storable dep.cfg
      ((ops.filterMap CrashOp.offered?).length + 1)) {os : OS}
    {vectorId : UInt64} {vec : Vec dep.Dim} {count shardId : ℕ}
    {ss : ShardState dep.Dim} {wal : WAL dep.Dim}
    (howns : m.Owns vectorId shardId ss)
    (hreserve : (WAL.reserve os).run ss.wal = .ok () wal)
    (hcrc : WAL.NoCollision dep.Dim (WAL.crashImage wal vectorId vec count)
      wal.nextLsn vec) (rngs : ℕ → ℕ → ℕ) :
    ∃ m', dep.restart OS.reliable true rngs
      (m.withWal shardId ss (wal.killed vectorId vec count)) = .ok m' := by
  obtain ⟨more, torn, hmore, hclose, hsweepable, hlength, hrefines⟩ :=
    h.killed hentry howns hreserve hcrc
  rw [← restart_congr hclose]
  apply hrefines.restart_of_swept hsweepable hlength
  intro s hs vecs hvecs
  apply hroom.mono
  have hdisk := h.disk_le hloads hcuts hs hvecs
  have hone := (hmore s).length_le
  have hrouted : (routedTo m.ring s [(vectorId, vec)]).length ≤ 1 :=
    List.length_filter_le _ _
  have hlog : ((states s).tear (more s)).log.length =
      (states s).log.length + (more s).length := List.length_append
  omega

end Results

/-! ### A run of one shard -/

theorem CrashRun.start_of_nil {D : Type} [Preorder D] [DecidableLT D]
    {dep : Deployment D} {ops : List (CrashOp dep.Dim)}
    {m : ShardManager dep.Dim} (hrun : dep.CrashRun ops m) (hnil : ops = []) :
    ∃ os rngs, dep.start os rngs (fun _ => ShardState.noFiles) = .ok m := by
  cases hrun with
  | start hstart => exact ⟨_, _, hstart⟩
  | insert => simp at hnil
  | snapshotAll => simp at hnil
  | restart => simp at hnil
  | kill => simp at hnil

/-- A snapshot and an insert. -/
def insertedOps (out : ℕ × ℕ) : List (CrashOp oneShard.Dim) :=
  [.snapshotAll fun _ => 0, .insert 7 (Vec.ofBytes _ [1, 0, 0, 0]) out]

/-- And an insert that is killed when its number and its id are stored. -/
def killedOps (out : ℕ × ℕ) : List (CrashOp oneShard.Dim) :=
  insertedOps out ++ [.kill 8 (Vec.ofBytes _ [2, 0, 0, 0]) 16 true
    fun _ _ => 0]

theorem killedOps_loadsSaved (out : ℕ × ℕ) :
    oneShard.LoadsSaved (killedOps out) := by
  intro before op after load hsplit hstart
  unfold killedOps insertedOps at hsplit
  rcases before with _ | ⟨first, _ | ⟨second, _ | ⟨third, before⟩⟩⟩
  · cases hsplit
    cases hstart
  · cases hsplit
    cases hstart
  · cases hsplit
    cases hstart
    exact ⟨rfl, _, List.mem_cons_self⟩
  · have hlength := congrArg List.length hsplit
    simp at hlength

theorem killedOps_cutsLogs (out : ℕ × ℕ) :
    oneShard.CutsLogs (killedOps out) := by
  intro before ns after m hsplit hrun ss hmem
  unfold killedOps insertedOps at hsplit
  rcases before with _ | ⟨first, _ | ⟨second, _ | ⟨third, before⟩⟩⟩
  · obtain ⟨os, rngs, hstart⟩ := hrun.start_of_nil rfl
    obtain ⟨s, hss⟩ := List.mem_iff_getElem?.mp hmem
    exact Or.inl ((start_fresh hstart).shard s ss hss).1.log.holds.next
  · cases hsplit
  · cases hsplit
  · have hlength := congrArg List.length hsplit
    simp at hlength

/-- Sixteen bytes of an entry are stored behind a clean log. -/
theorem noCollision_sixteen {w : WAL oneShard.Dim}
    {entries : List (UInt64 × Vec oneShard.Dim)} (h : WAL.Clean entries w)
    (vectorId : UInt64) (vec : Vec oneShard.Dim) :
    WAL.NoCollision oneShard.Dim (WAL.crashImage w vectorId vec 16) w.nextLsn
      vec := by
  have hzero : ∀ i, WAL.entryPtr oneShard.Dim w.nextLsn + 16 ≤ i →
      (WAL.torn w vectorId vec 16).file.byte i = 0 := by
    intro i hi
    rw [WAL.torn_byte_of_not_mem w vectorId vec 16 (Or.inr (Or.inl hi))]
    exact h.tail i (by rw [← h.holds.next]; omega)
  intro hfit
  exfalso
  rw [WAL.crashImage_eq] at hfit
  unfold WAL.storedCrc WAL.storedPayload at hfit
  rw [ByteFile.read_eq_replicate_zero fun i hi _ => hzero i
      (by unfold WAL.crcOff at hi; omega),
    ByteFile.read_eq_replicate_zero fun i hi _ => hzero i
      (by unfold WAL.dataOff at hi; omega)] at hfit
  exact absurd hfit (by decide +kernel)

theorem killedOps_run : ∃ out m, oneShard.CrashRun (killedOps out) m := by
  obtain ⟨m₀, hstart⟩ := oneShard_start fun _ _ => 0
  have h₀ := start_fresh hstart
  obtain ⟨m₁, hsnap⟩ := h₀.snapshotAll_ok (by decide) fun _ => 0
  have h₁ := (h₀.snapshotAll_eq_ok hsnap).1
  have hroom : HNSWIndex.Storable oneShard.cfg 2 :=
    ⟨by norm_num, fun _ => by decide⟩
  obtain ⟨m₂, hinsert⟩ := h₁.insert_ok oneShard_entrySize
    (oneShard_getShard h₁ 7)
    (show ([] : List (UInt64 × Vec oneShard.Dim)).length < 2 ^ 33 by norm_num)
    (hroom.mono one_le_two) (Vec.ofBytes _ [1, 0, 0, 0])
  have h₂ := (h₁.insert_eq_ok hinsert).2.2
  have hrun : oneShard.CrashRun (insertedOps (0, _)) m₂ :=
    ((CrashRun.start hstart).snapshotAll hsnap).insert hinsert
  obtain ⟨states, h⟩ := hrun.recovers oneShard_entrySize
  obtain ⟨ss, hss⟩ := h₂.getElem? (show 0 < oneShard.shardCount.toNat by decide)
  have hlog := (h₂.shard 0 ss hss).1.log
  have hone : (serve 1000 Prod.snd (request m₀.ring 0
      (.insert 7 (Vec.ofBytes _ [1, 0, 0, 0]))).toList
        (serve 1000 Prod.snd [.compact] (empty : Stored oneShard.Dim))).log =
      [(7, Vec.ofBytes _ [1, 0, 0, 0])] := by
    simp only [request, oneShard_getShard h₁, if_true, Option.toList_some]
    rfl
  rw [hone] at hlog
  have hnext : ss.wal.nextLsn = 1 := hlog.holds.next
  have hreserve : (WAL.reserve OS.reliable).run ss.wal = .ok () ss.wal := by
    apply WAL.reserve_of_fits
    rw [hnext]
    exact le_trans (by decide) hlog.holds.initial_le
  have howns : m₂.Owns 8 0 ss := by
    refine ⟨?_, hss⟩
    rw [h₂.ring_eq]
    exact oneShard_getShard h₂ 8
  have hcrc := noCollision_sixteen hlog 8 (Vec.ofBytes _ [2, 0, 0, 0])
  obtain ⟨m, hrestart⟩ := h.kill_ok oneShard_entrySize
    (killedOps_loadsSaved _).init (killedOps_cutsLogs _).init hroom howns
    hreserve hcrc fun _ _ => 0
  exact ⟨_, m, hrun.kill howns hreserve hcrc hrestart⟩

/-! ### What is kept -/

section Kept

variable {D : Type} [Preorder D] [DecidableLT D] {dep : Deployment D}
  {ops : List (CrashOp dep.Dim)} {m : ShardManager dep.Dim}

/-- However often the process is killed inside an insert and started again, no
insert that was answered is lost, and nothing is stored that was not asked. -/
theorem crashes_keep_acknowledged
    (hentry : WAL.entrySize dep.Dim ≤ WAL.growSize)
    (hrun : dep.CrashRun ops m) (hloads : dep.LoadsSaved ops) :
    (∀ (s : ℕ) ss, m.shards[s]? = some ss →
      ((routedTo m.ring s (ops.filterMap CrashOp.acknowledged?)).map
        Prod.snd).Sublist ss.index.vectors ∧
      ∀ vec ∈ ss.index.vectors, vec ∈
        (routedTo m.ring s (ops.filterMap CrashOp.offered?)).map Prod.snd) ∧
    (ops.filterMap CrashOp.acknowledged?).length ≤ m.totalVectors := by
  obtain ⟨states, h⟩ := hrun.recovers hentry
  constructor
  · intro s ss hss
    have hsafe := h.safe hloads s
    rw [h.vectors_eq hss]
    exact ⟨hsafe.live, fun vec hvec =>
      hsafe.offered vec (hsafe.disk.subset hvec)⟩
  · rw [h.totalVectors_eq, ← h.refines.sum_routedTo]
    apply List.sum_le_sum
    intro s _
    have hlength := (h.safe hloads s).live.length_le
    rwa [List.length_map] at hlength

theorem crashes_keep_acknowledged_oneShard : ∃ out m,
    oneShard.CrashRun (killedOps out) m ∧ 1 ≤ m.totalVectors := by
  obtain ⟨out, m, hrun⟩ := killedOps_run
  have hkept := (crashes_keep_acknowledged oneShard_entrySize hrun
    (killedOps_loadsSaved out)).2
  exact ⟨out, m, hrun, hkept⟩

/-- If every snapshot cuts the logs, an answer names its vector for ever,
nothing is stored twice, and what the next kill leaves comes up again. -/
theorem crashes_keep_ids (hentry : WAL.entrySize dep.Dim ≤ WAL.growSize)
    (hrun : dep.CrashRun ops m) (hloads : dep.LoadsSaved ops)
    (hcuts : dep.CutsLogs ops) :
    (∀ vectorId vec s nodeId, .insert vectorId vec (s, nodeId) ∈ ops →
      ∃ ss, m.shards[s]? = some ss ∧
        ss.index.vectors[nodeId]? = some vec) ∧
    (∀ (s : ℕ) ss, m.shards[s]? = some ss → ss.index.vectors.Sublist
      ((routedTo m.ring s (ops.filterMap CrashOp.offered?)).map Prod.snd)) ∧
    (HNSWIndex.Storable dep.cfg
        ((ops.filterMap CrashOp.offered?).length + 1) →
      ∀ os vectorId vec count shardId ss wal rngs,
        m.Owns vectorId shardId ss →
        (WAL.reserve os).run ss.wal = .ok () wal →
        WAL.NoCollision dep.Dim (WAL.crashImage wal vectorId vec count)
          wal.nextLsn vec →
        ∃ m', dep.restart OS.reliable true rngs
          (m.withWal shardId ss (wal.killed vectorId vec count)) = .ok m') := by
  obtain ⟨states, h⟩ := hrun.recovers hentry
  refine ⟨?_, ?_, ?_⟩
  · intro vectorId vec s nodeId hmem
    obtain ⟨hs, hget⟩ := h.named hloads hcuts vectorId vec s nodeId hmem
    obtain ⟨ss, hss⟩ := h.getElem? hs
    exact ⟨ss, hss, by rwa [h.vectors_eq hss]⟩
  · intro s ss hss
    have hs : s < dep.shardCount.toNat := by
      rw [← h.length_eq]
      exact (List.getElem?_eq_some_iff.mp hss).1
    rw [h.vectors_eq hss]
    exact (h.tight hloads hcuts s hs).offered
  · intro hroom os vectorId vec count shardId ss wal rngs howns hreserve hcrc
    exact h.kill_ok hentry hloads hcuts hroom howns hreserve hcrc rngs

theorem crashes_keep_ids_oneShard : ∃ out m ss,
    oneShard.CrashRun (killedOps out) m ∧ m.shards[out.1]? = some ss ∧
      ss.index.vectors[out.2]? = some (Vec.ofBytes _ [1, 0, 0, 0]) := by
  obtain ⟨out, m, hrun⟩ := killedOps_run
  obtain ⟨hnamed, _⟩ := crashes_keep_ids oneShard_entrySize hrun
    (killedOps_loadsSaved out) (killedOps_cutsLogs out)
  obtain ⟨ss, hss, hvec⟩ := hnamed 7 (Vec.ofBytes _ [1, 0, 0, 0]) out.1 out.2
    (List.mem_cons_of_mem _ List.mem_cons_self)
  exact ⟨out, m, ss, hrun, hss, hvec⟩

end Kept

end Deployment
end VecDB
