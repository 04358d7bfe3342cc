import VecDB.ConsistentHash
import VecDB.HnswRuns
import VecDB.Snapshot
import Mathlib.Tactic

/-!
# The shard manager

The `ShardManager` class: a ring, and for every shard an index, a log and the
two snapshot files.  A manager is built on what is on disk and leaves its
files behind when it is destroyed or killed.  The state that a call leaves
when it throws is not part of the model.
-/

namespace VecDB

/-- `files` are the snapshot files of the shard in `data_dir`. -/
structure ShardState (dim : UInt32) where
  index : HNSWIndex (Vec dim)
  wal : WAL dim
  files : SnapshotFiles
  shardId : ℕ
  healthy : Bool

/-- The files of one shard on disk. -/
structure ShardFiles where
  wal : Option ByteFile
  snapshot : SnapshotFiles

structure ShardManager (dim : UInt32) where
  cfg : HNSWConfig
  shardCount : UInt32
  dataDir : String
  ring : ConsistentHashRing
  shards : List (ShardState dim)

/-! ## One shard -/

namespace ShardState

variable {dim : UInt32} {D : Type} [Preorder D] [DecidableLT D]

/-- The body of the constructor's loop. -/
def new (os : OS) (cfg : HNSWConfig) (rng : ℕ → ℕ) (disk : ShardFiles)
    (shardId : ℕ) : Except Failure (ShardState cfg.dim.toUInt32) := do
  let index ← HNSWIndex.new cfg rng
  let wal ← WAL.new os cfg.dim.toUInt32 1000 disk.wal
  return {
    index := index
    wal := wal
    files := disk.snapshot
    shardId := shardId
    healthy := true }

def insert (os : OS) (rt : Runtime (Vec dim) D) (vectorId : UInt64)
    (vec : Vec dim) (ss : ShardState dim) :
    Except Failure (ℕ × ShardState dim) :=
  match (WAL.append os vectorId vec).run ss.wal with
  | .error e _ => .error e
  | .ok _ wal => do
      let (nodeId, index) ← ss.index.insert rt vec
      return (nodeId, { ss with wal := wal, index := index })

/-- The body of the loop of `snapshot_all`. -/
def snapshot (os : OS) (dataDir : String) (ns : ℕ) (ss : ShardState dim) :
    Except Failure (ShardState dim) := do
  let (files, wal) ← Storage.saveAndTruncateWal os
    (makePaths dataDir ss.shardId) ns ss.index ss.wal
  return { ss with files := files, wal := wal }

/-- The body of the loop of `load_all`. -/
def load (os : OS) (rt : Runtime (Vec dim) D) (dataDir : String)
    (ss : ShardState dim) : Except Failure (ShardState dim) :=
  if ss.files.seg.isNone = true ∨ ss.files.graph.isNone = true then .ok ss
  else do
    let index ← Storage.load os (makePaths dataDir ss.shardId) ss.files ss.index
    let index ← HNSWIndex.insertAll rt (ss.wal.replay.1.map WALEntry.vec) index
    return { ss with index := index }

def close (ss : ShardState dim) : ShardFiles where
  wal := some ss.wal.close
  snapshot := ss.files

/-! ### The steps of a call

`insert` and `snapshot` take two steps each, and other calls may come between
them. -/

def appendStep (os : OS) (vectorId : UInt64) (vec : Vec dim)
    (ss : ShardState dim) : Except Failure (ShardState dim) :=
  match (WAL.append os vectorId vec).run ss.wal with
  | .error e _ => .error e
  | .ok _ wal => .ok { ss with wal := wal }

def indexStep (rt : Runtime (Vec dim) D) (vec : Vec dim)
    (ss : ShardState dim) : Except Failure (ℕ × ShardState dim) := do
  let (nodeId, index) ← ss.index.insert rt vec
  return (nodeId, { ss with index := index })

def saveStep (os : OS) (dataDir : String) (ns : ℕ) (ss : ShardState dim) :
    Except Failure (ShardState dim) := do
  let files ← Storage.save os (makePaths dataDir ss.shardId) ns ss.index
  return { ss with files := files }

def truncateStep (os : OS) (ss : ShardState dim) :
    Except Failure (ShardState dim) :=
  match (WAL.truncate os ss.wal.nextLsn).run ss.wal with
  | .error e _ => .error e
  | .ok _ wal => .ok { ss with wal := wal }

theorem insert_eq (os : OS) (rt : Runtime (Vec dim) D) (vectorId : UInt64)
    (vec : Vec dim) (ss : ShardState dim) :
    ss.insert os rt vectorId vec =
      ss.appendStep os vectorId vec >>= indexStep rt vec := by
  unfold insert appendStep
  cases (WAL.append os vectorId vec).run ss.wal with
  | error e w => rfl
  | ok lsn w => rfl

theorem snapshot_eq (os : OS) (dataDir : String) (ns : ℕ)
    (ss : ShardState dim) :
    ss.snapshot os dataDir ns =
      ss.saveStep os dataDir ns >>= truncateStep os := by
  unfold snapshot saveStep Storage.saveAndTruncateWal
  cases Storage.save os (makePaths dataDir ss.shardId) ns ss.index with
  | error e => rfl
  | ok files =>
      simp only [except_bind_ok, pure, Except.pure, truncateStep]
      cases (WAL.truncate os ss.wal.nextLsn).run ss.wal with
      | error e w => rfl
      | ok u w => rfl

end ShardState

/-! ## The manager -/

namespace ShardManager

variable {dim : UInt32} {D : Type} [Preorder D] [DecidableLT D]

/-- The constructor; `disk` is what is in `data_dir` for every shard, and
`rngs` the random generators of the indexes. -/
def new (os : OS) (sorter : Sorter VNode) (cfg : HNSWConfig)
    (shardCount : UInt32) (dataDir : String) (virtualNodes : UInt32)
    (rngs : ℕ → ℕ → ℕ) (disk : ℕ → ShardFiles) :
    Except Failure (ShardManager cfg.dim.toUInt32) := do
  let ring ← ConsistentHashRing.new sorter shardCount virtualNodes
  if shardCount = 0 then
    throw (.invalidArgument "ShardManager: shard_count must be > 0")
  let shards ← (List.range shardCount.toNat).mapM fun s =>
    ShardState.new os cfg (rngs s) (disk s) s
  return {
    cfg := cfg
    shardCount := shardCount
    dataDir := dataDir
    ring := ring
    shards := shards }

/-- The owning shard, the node id there, and the manager afterwards. -/
def insert (os : OS) (rt : Runtime (Vec dim) D) (vectorId : UInt64)
    (vec : Vec dim) (m : ShardManager dim) :
    Except Failure ((ℕ × ℕ) × ShardManager dim) := do
  let shardId ← m.ring.getShard vectorId
  match m.shards[shardId]? with
  | none => throw .accessViolation
  | some ss =>
      let (nodeId, ss) ← ss.insert os rt vectorId vec
      return ((shardId, nodeId), { m with shards := m.shards.set shardId ss })

def snapshotAll (os : OS) (ns : ℕ → ℕ) (m : ShardManager dim) :
    Except Failure (ShardManager dim) := do
  let shards ← m.shards.mapM fun ss => ss.snapshot os m.dataDir (ns ss.shardId)
  return { m with shards := shards }

def loadAll (os : OS) (rt : Runtime (Vec dim) D) (m : ShardManager dim) :
    Except Failure (ShardManager dim) := do
  let shards ← m.shards.mapM fun ss => ss.load os rt m.dataDir
  return { m with shards := shards }

def totalVectors (m : ShardManager dim) : ℕ :=
  (m.shards.map fun ss => ss.index.size).sum

def shardSize (m : ShardManager dim) (shardId : ℕ) : Except Failure ℕ :=
  if m.shardCount.toNat ≤ shardId then
    .error (.outOfRange "ShardManager::shard_size: invalid shard_id")
  else
    match m.shards[shardId]? with
    | some ss => .ok ss.index.size
    | none => .error .accessViolation

def loadDistribution (m : ShardManager dim) : List ℕ :=
  m.shards.map fun ss => ss.index.size

/-- What a manager that is destroyed or killed leaves in `data_dir`. -/
def close (m : ShardManager dim) (s : ℕ) : ShardFiles :=
  match m.shards[s]? with
  | some ss => ss.close
  | none => { wal := none, snapshot := { seg := none, graph := none } }

end ShardManager

end VecDB
