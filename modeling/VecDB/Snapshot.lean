import VecDB.GraphText
import VecDB.MmapStore
import VecDB.WalModel
import Mathlib.Tactic

/-!
# Snapshots

`save`, `load` and `save_and_truncate_wal` over the two files of a snapshot.
What a `save` that throws leaves of the files is not part of the model; what a
process leaves that stops inside one is.
-/

namespace VecDB

structure SnapshotPaths where
  seg : String
  graph : String
  deriving DecidableEq, Repr

def makePaths (dir : String) (shardId : ℕ) : SnapshotPaths :=
  let base := dir ++ "/shard_" ++ toString shardId
  { seg := base ++ ".seg", graph := base ++ ".graph" }

/-- What is at the two paths. -/
structure SnapshotFiles where
  seg : Option ByteFile
  graph : Option (List Char)

/-! ## Loading into an index -/

namespace HNSWIndex

variable {dim : UInt32}

/-- The inner loop of step 2, from layer `l` on. -/
def restoreLists (node : ℕ) :
    ℕ → List (List UInt32) → NeighbourStore → Except Failure NeighbourStore
  | _, [], adj => .ok adj
  | l, list :: lists, adj => do
      let adj ← adj.setNeighbours node l (list.map UInt32.toNat)
      restoreLists node (l + 1) lists adj

/-- The outer loop of step 2, from `node` on. -/
def restoreNodes : ℕ → List (List (List UInt32)) → NeighbourStore →
    Except Failure NeighbourStore
  | _, [], adj => .ok adj
  | node, lists :: rest, adj => do
      let adj ← restoreLists node 0 lists adj
      restoreNodes (node + 1) rest adj

def copyVector (dim : UInt32) (seg : MmapStore) (i : ℕ) :
    Except Failure (Vec dim) := do
  let src ← seg.get i
  let bytes ← seg.readAt src (dim.toNat * 4)
  return Vec.ofBytes dim bytes

def loadFromSnapshot (index : HNSWIndex (Vec dim)) (seg : MmapStore)
    (adj : List (List (List UInt32))) (entryPoint : UInt32)
    (maxLayer : Int32) : Except Failure (HNSWIndex (Vec dim)) := do
  let n := seg.vecCount
  let vectors ← (List.range n).mapM (copyVector dim seg)
  let neighbours ← restoreNodes 0 (adj.take n)
    (index.neighbours.resize n index.cfg.maxLayers)
  return { index with
    vectors := vectors
    neighbours := neighbours
    nextId := n
    entryPoint := entryPoint.toNat
    maxLayer := maxLayer.toInt }

end HNSWIndex

/-! ## Saving and loading -/

namespace Storage

variable {dim : UInt32}

def appendVectors (os : OS) : List (Vec dim) → EStateM Failure MmapStore Unit
  | [] => pure ()
  | vec :: vecs => do
      let _ ← MmapStore.append os vec.bytes
      appendVectors os vecs

/-- Step 1 of `save`, the old segment being removed already. -/
def writeSegment (os : OS) (path : String) (ns : ℕ)
    (index : HNSWIndex (Vec dim)) : Except Failure ByteFile := do
  let seg ← MmapStore.create os path none index.cfg.dim.toUInt32 ns
  let vecs ← (List.range index.size).mapM index.getVector
  match (appendVectors os vecs).run seg with
  | .ok _ seg => .ok seg.close
  | .error e _ => .error e

def save (os : OS) (paths : SnapshotPaths) (ns : ℕ)
    (index : HNSWIndex (Vec dim)) : Except Failure SnapshotFiles := do
  let seg ← writeSegment os paths.seg ns index
  return { seg := some seg, graph := some (GraphText.writeJsonGraph index) }

/-- `load` into `index`, which is fresh. -/
def load (os : OS) (paths : SnapshotPaths) (files : SnapshotFiles)
    (index : HNSWIndex (Vec dim)) : Except Failure (HNSWIndex (Vec dim)) := do
  let g ← GraphText.parseJsonGraph paths.graph files.graph
  if g.version ≠ 1 then
    .error (.runtimeError "Snapshot: unsupported graph version")
  else if g.dim ≠ index.cfg.dim then
    .error (.runtimeError "Snapshot: dim mismatch")
  else do
    let seg ← MmapStore.openFile os paths.seg files.seg
    if seg.dim ≠ g.dim.toUInt32 then
      .error (.runtimeError "Snapshot: seg/graph dim mismatch")
    else if seg.vecCount ≠ g.vecCount.toNat then
      .error (.runtimeError "Snapshot: seg/graph vec_count mismatch")
    else index.loadFromSnapshot seg g.adj g.entryPoint g.maxLayer

/-- The files and the log after `save_and_truncate_wal`. -/
def saveAndTruncateWal (os : OS) (paths : SnapshotPaths) (ns : ℕ)
    (index : HNSWIndex (Vec dim)) (wal : WAL dim) :
    Except Failure (SnapshotFiles × WAL dim) := do
  let files ← save os paths ns index
  match (WAL.truncate os wal.nextLsn).run wal with
  | .ok _ wal => .ok (files, wal)
  | .error e _ => .error e

end Storage

end VecDB
