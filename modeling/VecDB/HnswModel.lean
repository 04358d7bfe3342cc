import VecDB.Platform
import VecDB.PriorityQueue
import Mathlib.Tactic

/-!
# The HNSW index

The `HNSWIndex` class over vectors of a type `V` whose distances lie in a
type `D`.  Node ids are naturals below `2 ^ 32`, and `next_id_` wraps there.
An access outside `vectors_`, `visited` or the adjacency store is a failure
of the model, so that a call which returns made none.

The memory of the arena and the locks are left out, and the random generator
is the stream of layers it will give before they are clamped.
-/

namespace VecDB

structure HNSWConfig where
  dim : Int32 := 128
  M : Int32 := 16
  Mmax0 : Int32 := 32
  efConstruction : Int32 := 200
  efSearch : Int32 := 50
  maxLayers : Int32 := 6
  deriving DecidableEq, Repr

structure HNSWSearchResult (D : Type) where
  dist : D
  nodeId : ℕ
  deriving DecidableEq, Repr

/-- The distance kernel, and what the index uses of the standard library:
`std::priority_queue` with `std::greater` and `std::less`, and `std::sort`. -/
structure Runtime (V D : Type) [LT D] [DecidableLT D] where
  l2sq : V → V → D
  minHeap : PriorityQueue (HNSWSearchResult D) fun a b => decide (b.dist < a.dist)
  maxHeap : PriorityQueue (HNSWSearchResult D) fun a b => decide (a.dist < b.dist)
  sorter : Sorter (HNSWSearchResult D)
  pairSorter : Sorter (D × ℕ)

/-- A `static_cast<size_t>` of an `int`. -/
def toSizeT (i : Int32) : ℕ := (i.toInt % 2 ^ 64).toNat

/-! ## Adjacency lists -/

abbrev NeighbourStore := List (List (List ℕ))

namespace NeighbourStore

def resize (adj : NeighbourStore) (newSize : ℕ) (maxLayers : Int32) :
    NeighbourStore :=
  if newSize ≤ adj.length then adj
  else adj ++ List.replicate (newSize - adj.length)
    (List.replicate maxLayers.toInt.toNat [])

def setNeighbours (adj : NeighbourStore) (nodeId layer : ℕ)
    (neighbours : List ℕ) : Except Failure NeighbourStore :=
  if nodeId < adj.length ∧ layer < (adj.getD nodeId []).length then
    .ok (adj.modify nodeId fun lists => lists.set layer neighbours)
  else .error .accessViolation

def addNeighbour (adj : NeighbourStore) (nodeId layer neighbour : ℕ) :
    Except Failure NeighbourStore :=
  if nodeId < adj.length ∧ layer < (adj.getD nodeId []).length then
    .ok (adj.modify nodeId fun lists =>
      lists.modify layer fun list => list ++ [neighbour])
  else .error .accessViolation

def getNeighbours (adj : NeighbourStore) (nodeId layer : ℕ) : List ℕ :=
  (adj.getD nodeId []).getD layer []

def layerCount (adj : NeighbourStore) (nodeId : ℕ) : ℕ :=
  (adj.getD nodeId []).length

end NeighbourStore

/-! ## The index -/

structure HNSWIndex (V : Type) where
  cfg : HNSWConfig
  vectors : List V
  neighbours : NeighbourStore
  entryPoint : ℕ
  maxLayer : ℤ
  nextId : ℕ
  rng : ℕ → ℕ

namespace HNSWIndex

variable {V D : Type} [LT D] [DecidableLT D] (rt : Runtime V D)

/-- The constructor. -/
def new (cfg : HNSWConfig) (rng : ℕ → ℕ) : Except Failure (HNSWIndex V) :=
  if cfg.dim ≤ 0 then .error (.invalidArgument "dim must be > 0")
  else if cfg.M < 2 then .error (.invalidArgument "M must be >= 2")
  else if cfg.efConstruction < 1 then
    .error (.invalidArgument "ef_construction must be >= 1")
  else if cfg.maxLayers < 1 then
    .error (.invalidArgument "max_layers must be >= 1")
  else .ok {
    cfg := cfg
    vectors := []
    neighbours := []
    entryPoint := 0
    maxLayer := -1
    nextId := 0
    rng := rng }

def size (index : HNSWIndex V) : ℕ := index.nextId

def getVector (index : HNSWIndex V) (nodeId : ℕ) : Except Failure V :=
  match index.vectors[nodeId]? with
  | some vec => .ok vec
  | none => .error .accessViolation

def sampleLayer (index : HNSWIndex V) : ℕ :=
  min (index.rng 0) (index.cfg.maxLayers.toInt - 1).toNat

/-! ### Greedy descent -/

/-- The `for` loop of `greedy_search_layer`: the closest node so far, its
distance, and whether it changed. -/
def greedyPass (index : HNSWIndex V) (query : V) :
    List ℕ → ℕ × D × Bool → Except Failure (ℕ × D × Bool)
  | [], best => .ok best
  | nbr :: nbrs, (current, currentDist, improved) => do
      let vec ← index.getVector nbr
      let d := rt.l2sq vec query
      if d < currentDist then greedyPass index query nbrs (nbr, d, true)
      else greedyPass index query nbrs (current, currentDist, improved)

def greedyLoop (index : HNSWIndex V) (query : V) (layer : ℕ) :
    ℕ → ℕ → D → Except Failure ℕ
  | 0, _, _ => .error .nonTermination
  | fuel + 1, current, currentDist => do
      let (current, currentDist, improved) ←
        greedyPass rt index query (index.neighbours.getNeighbours current layer)
          (current, currentDist, false)
      if improved then greedyLoop index query layer fuel current currentDist
      else .ok current

def greedySearchLayer (index : HNSWIndex V) (ep : ℕ) (query : V)
    (layer : ℕ) : Except Failure ℕ := do
  let vec ← index.getVector ep
  greedyLoop rt index query layer (index.vectors.length + 1) ep
    (rt.l2sq vec query)

/-- The descent through the layers from `bottom + steps` down to
`bottom + 1`. -/
def greedyDescent (index : HNSWIndex V) (query : V) (bottom : ℕ) :
    ℕ → ℕ → Except Failure ℕ
  | 0, ep => .ok ep
  | steps + 1, ep => do
      let ep ← greedySearchLayer rt index ep query (bottom + (steps + 1))
      greedyDescent index query bottom steps ep

/-! ### Beam search -/

structure Beam where
  visited : List Bool
  candidates : rt.minHeap.Queue
  results : rt.maxHeap.Queue

/-- The distance of `results.top()`. -/
def worst (results : rt.maxHeap.Queue) : Except Failure D :=
  match rt.maxHeap.top results with
  | some result => .ok result.dist
  | none => .error .accessViolation

/-- The body of the neighbour loop behind the visited test. -/
def offer (ef : ℕ) (result : HNSWSearchResult D) (beam : Beam rt) :
    Except Failure (Beam rt) := do
  let admitted ←
    if rt.maxHeap.size beam.results < ef then pure true
    else do
      let dist ← worst rt beam.results
      pure (decide (result.dist < dist))
  if admitted then
    let results := rt.maxHeap.push result beam.results
    return { beam with
      candidates := rt.minHeap.push result beam.candidates
      results :=
        if ef < rt.maxHeap.size results then rt.maxHeap.pop results
        else results }
  else return beam

/-- The neighbour loop of `search_layer`. -/
def expand (index : HNSWIndex V) (query : V) (n ef : ℕ) :
    List ℕ → Beam rt → Except Failure (Beam rt)
  | [], beam => .ok beam
  | nbr :: nbrs, beam =>
      if n ≤ nbr ∨ beam.visited.getD nbr false = true then
        expand index query n ef nbrs beam
      else do
        let beam := { beam with visited := beam.visited.set nbr true }
        let vec ← index.getVector nbr
        let beam ← offer rt ef ⟨rt.l2sq vec query, nbr⟩ beam
        expand index query n ef nbrs beam

def searchLoop (index : HNSWIndex V) (query : V) (n ef layer : ℕ) :
    ℕ → Beam rt → Except Failure rt.maxHeap.Queue
  | 0, _ => .error .nonTermination
  | fuel + 1, beam =>
      match rt.minHeap.top beam.candidates with
      | none => .ok beam.results
      | some c => do
          let beam := { beam with candidates := rt.minHeap.pop beam.candidates }
          let stop ←
            if ef ≤ rt.maxHeap.size beam.results then do
              let dist ← worst rt beam.results
              pure (decide (dist < c.dist))
            else pure false
          if stop then return beam.results
          else
            let beam ← expand rt index query n ef
              (index.neighbours.getNeighbours c.nodeId layer) beam
            searchLoop index query n ef layer fuel beam

def searchLayer (index : HNSWIndex V) (ep : ℕ) (query : V) (ef : Int32)
    (layer : ℕ) : Except Failure (List (HNSWSearchResult D)) := do
  let n := index.nextId
  let vec ← index.getVector ep
  let start : HNSWSearchResult D := ⟨rt.l2sq vec query, ep⟩
  if n ≤ ep then throw .accessViolation
  let results ← searchLoop rt index query n (toSizeT ef) layer (n + 1) {
    visited := (List.replicate n false).set ep true
    candidates := rt.minHeap.push start rt.minHeap.empty
    results := rt.maxHeap.push start rt.maxHeap.empty }
  return rt.sorter.sort (fun a b => decide (a.dist < b.dist))
    (rt.maxHeap.drain results)

def selectNeighbours (candidates : List (HNSWSearchResult D)) (M : Int32) :
    Except Failure (List ℕ) :=
  let take := min M.toInt candidates.length
  if take < 0 then .error .lengthError
  else .ok ((candidates.take take.toNat).map HNSWSearchResult.nodeId)

/-! ### Insertion -/

/-- `operator<` of `std::pair`. -/
def pairLess (a b : D × ℕ) : Bool :=
  decide (a.1 < b.1) || (!decide (b.1 < a.1) && decide (a.2 < b.2))

def distNbr (index : HNSWIndex V) (v : V) (nbr : ℕ) :
    Except Failure (D × ℕ) := do
  let vec ← index.getVector nbr
  return (rt.l2sq v vec, nbr)

def pruneConnections (index : HNSWIndex V) (nodeId layer : ℕ)
    (Mmax : Int32) : Except Failure (HNSWIndex V) := do
  let nbrs := index.neighbours.getNeighbours nodeId layer
  if (nbrs.length : ℤ) ≤ Mmax.toInt then return index
  let v ← index.getVector nodeId
  let distNbrs ← nbrs.mapM (distNbr rt index v)
  if Mmax.toInt < 0 then throw .lengthError
  let pruned := ((rt.pairSorter.sort pairLess distNbrs).take
    Mmax.toInt.toNat).map Prod.snd
  let adj ← index.neighbours.setNeighbours nodeId layer pruned
  return { index with neighbours := adj }

/-- The back links of a new node, each followed by its pruning. -/
def linkBack (id layer : ℕ) (Mmax : Int32) :
    List ℕ → HNSWIndex V → Except Failure (HNSWIndex V)
  | [], index => .ok index
  | nbr :: nbrs, index => do
      let adj ← index.neighbours.addNeighbour nbr layer id
      let index ← pruneConnections rt { index with neighbours := adj } nbr
        layer Mmax
      linkBack id layer Mmax nbrs index

/-- The `M` of a layer. -/
def layerM (cfg : HNSWConfig) (layer : ℕ) : Int32 :=
  if layer = 0 then cfg.Mmax0 else cfg.M

/-- The body of step 5: one layer of the new node, and the entry point of the
next. -/
def linkLayer (index : HNSWIndex V) (vec : V) (id ep layer : ℕ) :
    Except Failure (HNSWIndex V × ℕ) := do
  let candidates ← searchLayer rt index ep vec index.cfg.efConstruction layer
  let selected ← selectNeighbours candidates (layerM index.cfg layer)
  let adj ← index.neighbours.setNeighbours id layer selected
  let index ← linkBack rt id layer (layerM index.cfg layer) selected
    { index with neighbours := adj }
  match candidates with
  | [] => return (index, ep)
  | closest :: _ => return (index, closest.nodeId)

/-- The layers below `layers`, from the top down. -/
def linkLayers (vec : V) (id : ℕ) :
    ℕ → HNSWIndex V → ℕ → Except Failure (HNSWIndex V)
  | 0, index, _ => .ok index
  | layers + 1, index, ep => do
      let (index, ep) ← linkLayer rt index vec id ep layers
      linkLayers vec id layers index ep

/-- Step 1 and 2: the new id, its vector and its empty lists. -/
def allocate (index : HNSWIndex V) (vec : V) : HNSWIndex V := { index with
  vectors := index.vectors.take index.nextId ++ [vec]
  neighbours :=
    index.neighbours.resize ((index.nextId + 1) % 2 ^ 32) index.cfg.maxLayers
  nextId := (index.nextId + 1) % 2 ^ 32
  rng := fun i => index.rng (i + 1) }

def insert (index : HNSWIndex V) (vec : V) :
    Except Failure (ℕ × HNSWIndex V) := do
  let id := index.nextId
  let nodeLayer := index.sampleLayer
  let curMax := index.maxLayer
  let index := index.allocate vec
  if curMax < 0 then
    return (id, { index with entryPoint := id, maxLayer := nodeLayer })
  let ep ← greedyDescent rt index vec nodeLayer (curMax.toNat - nodeLayer)
    index.entryPoint
  let index ← linkLayers rt vec id (min nodeLayer curMax.toNat + 1) index ep
  if curMax < nodeLayer then
    return (id, { index with entryPoint := id, maxLayer := nodeLayer })
  return (id, index)

/-! ### Search -/

def search (index : HNSWIndex V) (query : V) (topK ef : Int32) :
    Except Failure (List (HNSWSearchResult D)) := do
  if index.maxLayer < 0 then return []
  let efActual := if ef < topK then topK else ef
  let ep ← greedyDescent rt index query 0 index.maxLayer.toNat index.entryPoint
  let candidates ← searchLayer rt index ep query efActual 0
  if topK.toInt < candidates.length then
    if topK.toInt < 0 then throw .lengthError
    return candidates.take topK.toInt.toNat
  return candidates

/-- `search` with the configured `ef_search`. -/
def searchDefault (index : HNSWIndex V) (query : V) (topK : Int32) :
    Except Failure (List (HNSWSearchResult D)) :=
  search rt index query topK index.cfg.efSearch

end HNSWIndex

end VecDB
