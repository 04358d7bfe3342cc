import VecDB.HnswContents
import VecDB.StateRules
import Mathlib.Tactic

/-!
# Insertion when memory runs out

`HNSWIndex::insert` as a call that keeps what it has changed when one of its
statements throws.  A statement that allocates does so before it changes the
object, but for two: `NeighbourStore::resize` fills the new slots one after
another, and `set_neighbours` clears the list first.

With enough memory the call is the insertion of the model.  However it ends,
the id it took stays taken.
-/

namespace VecDB

/-- An object, and whether each of the next statements that allocate gets
what it asks for. -/
structure Running (σ : Type) where
  obj : σ
  memory : ℕ → Bool

namespace Running

variable {σ τ α : Type}

def request : EStateM Failure (Running σ) Unit := fun s =>
  if s.memory 0 = true then
    .ok () { s with memory := fun i => s.memory (i + 1) }
  else .error .badAlloc { s with memory := fun i => s.memory (i + 1) }

def update (f : σ → σ) : EStateM Failure (Running σ) PUnit :=
  modify fun s => { s with obj := f s.obj }

/-- What a statement reads off the object. -/
def compute (f : σ → Except Failure α) : EStateM Failure (Running σ) α := do
  let s ← get
  ofExcept (f s.obj)

/-- Memory that does not run out. -/
def ample : ℕ → Bool := fun _ => true

theorem request_run (s : Running σ) :
    (request : EStateM Failure (Running σ) Unit).run s =
      if s.memory 0 = true then
        .ok () { s with memory := fun i => s.memory (i + 1) }
      else .error .badAlloc { s with memory := fun i => s.memory (i + 1) } :=
  rfl

@[simp] theorem request_ample (obj : σ) :
    (request : EStateM Failure (Running σ) Unit).run ⟨obj, ample⟩ =
      .ok () ⟨obj, ample⟩ := rfl

@[simp] theorem update_run (f : σ → σ) (s : Running σ) :
    (update f).run s = .ok ⟨⟩ { s with obj := f s.obj } := rfl

theorem compute_run (f : σ → Except Failure α) (s : Running σ) :
    (compute f).run s =
      match f s.obj with
      | .ok a => .ok a s
      | .error e => .error e s := by
  unfold compute
  rw [run_get_bind, run_ofExcept]
  cases f s.obj with
  | ok a => rfl
  | error e => rfl

theorem compute_eq_ok {f : σ → Except Failure α} {s t : Running σ} {a : α} :
    (compute f).run s = .ok a t ↔ f s.obj = .ok a ∧ t = s := by
  rw [compute_run]
  cases f s.obj with
  | ok b => simp [eq_comm]
  | error e => simp

theorem compute_eq_error {f : σ → Except Failure α} {s t : Running σ}
    {e : Failure} :
    (compute f).run s = .error e t ↔ f s.obj = .error e ∧ t = s := by
  rw [compute_run]
  cases f s.obj with
  | ok b => simp
  | error e' => simp [eq_comm]

/-! ### Calls with enough memory -/

/-- With enough memory the call does what the function says. -/
def Agrees (x : EStateM Failure (Running σ) α) (obj : σ) :
    Except Failure (α × σ) → Prop
  | .ok (a, obj') => x.run ⟨obj, ample⟩ = .ok a ⟨obj', ample⟩
  | .error e => ∃ s, x.run ⟨obj, ample⟩ = .error e s

section Agrees

variable {β : Type} {x : EStateM Failure (Running σ) α} {obj : σ}
  {f : α → EStateM Failure (Running σ) β} {y : Except Failure (β × σ)}

theorem Agrees.bind_ok {a : α} {obj' : σ} (hx : Agrees x obj (.ok (a, obj')))
    (hf : Agrees (f a) obj' y) : Agrees (x >>= f) obj y := by
  have hrun : (x >>= f).run ⟨obj, ample⟩ = (f a).run ⟨obj', ample⟩ :=
    bind_of_ok hx
  unfold Agrees at hf ⊢
  rw [hrun]
  exact hf

theorem Agrees.bind_error {e : Failure} (hx : Agrees x obj (.error e)) :
    Agrees (x >>= f) obj (.error e) :=
  hx.elim fun s hs => ⟨s, bind_of_error hs⟩

theorem agrees_pure (a : α) :
    Agrees (pure a : EStateM Failure (Running σ) α) obj (.ok (a, obj)) := rfl

theorem agrees_request_bind {f : Unit → EStateM Failure (Running σ) β}
    (hf : Agrees (f ()) obj y) : Agrees (request >>= f) obj y :=
  Agrees.bind_ok (request_ample obj) hf

theorem agrees_update_bind {g : σ → σ}
    {f : PUnit → EStateM Failure (Running σ) β}
    (hf : Agrees (f ⟨⟩) (g obj) y) : Agrees (update g >>= f) obj y :=
  Agrees.bind_ok (update_run g ⟨obj, ample⟩) hf

theorem agrees_compute {g : σ → Except Failure α} :
    Agrees (compute g) obj ((g obj).map fun a => (a, obj)) := by
  have hrun := compute_run g ⟨obj, ample⟩
  cases hg : g obj with
  | ok a => simpa [Agrees, Except.map, hg] using hrun
  | error e => exact ⟨_, by simpa [hg] using hrun⟩

theorem agrees_compute_bind {g : σ → Except Failure α} {a : α}
    (hg : g obj = .ok a) (hf : Agrees (f a) obj y) :
    Agrees (compute g >>= f) obj y := by
  have hcompute : Agrees (compute g) obj _ := agrees_compute
  rw [hg] at hcompute
  exact hcompute.bind_ok hf

theorem agrees_compute_error {g : σ → Except Failure α} {e : Failure}
    (hg : g obj = .error e) : Agrees (compute g >>= f) obj (.error e) := by
  have hcompute : Agrees (compute g) obj _ := agrees_compute
  rw [hg] at hcompute
  exact hcompute.bind_error

end Agrees

/-! ### What every outcome keeps -/

section Keeps

open StateRules

variable {P : σ → Prop}

/-- The object satisfies `P`. -/
def On (P : σ → Prop) (s : Running σ) : Prop := P s.obj

theorem keeps_request :
    Keeps (On P) (request : EStateM Failure (Running σ) Unit) := by
  intro s hs
  unfold after
  rw [request_run]
  split_ifs
  · exact hs
  · exact hs

/-- Reading changes nothing. -/
theorem after_compute (f : σ → Except Failure α) (s : Running σ) :
    after (compute f) s = s := by
  unfold after
  rw [compute_run]
  cases f s.obj with
  | ok a => rfl
  | error e => rfl

theorem keeps_compute (f : σ → Except Failure α) :
    Keeps (On P) (compute f) := by
  intro s hs
  rwa [after_compute]

theorem keeps_update {f : σ → σ} (hf : ∀ obj, P obj → P (f obj)) :
    Keeps (On P) (update f) :=
  keeps_modify fun s hs => hf s.obj hs

end Keeps

end Running

namespace NeighbourStore

/-- A list that was cleared first ends up the same. -/
theorem setNeighbours_cleared {adj cleared : NeighbourStore}
    {nodeId layer : ℕ} (hclear : adj.setNeighbours nodeId layer [] = .ok cleared)
    (neighbours : List ℕ) :
    cleared.setNeighbours nodeId layer neighbours =
      adj.setNeighbours nodeId layer neighbours := by
  unfold setNeighbours at hclear ⊢
  split_ifs at hclear with hin
  cases hclear
  have hlists : (adj.modify nodeId fun lists => lists.set layer []).getD
      nodeId [] = (adj.getD nodeId []).set layer [] := by
    have hget := List.getD_eq_getElem adj [] hin.1
    rw [hget, List.getD_eq_getElem _ _ (by simpa using hin.1)]
    simp
  have hin' : nodeId < (adj.modify nodeId fun lists =>
      lists.set layer []).length ∧ layer < ((adj.modify nodeId fun lists =>
        lists.set layer []).getD nodeId []).length := by
    rw [hlists]
    simpa using hin
  rw [if_pos hin', if_pos hin]
  congr 1
  rw [List.modify_modify_eq]
  congr 1
  funext lists
  simp

end NeighbourStore

namespace HNSWIndex

open Running

variable {V D : Type} [Preorder D] [DecidableLT D] (rt : Runtime V D)

/-! ## The statements -/

/-- The loop of `resize` over the new slots. -/
def tryFillSlots (maxLayers : Int32) :
    List ℕ → EStateM Failure (Running (HNSWIndex V)) PUnit
  | [] => pure ⟨⟩
  | i :: slots => do
      request
      update fun index => { index with
        neighbours :=
          index.neighbours.set i (List.replicate maxLayers.toInt.toNat []) }
      tryFillSlots maxLayers slots

def tryResize (newSize : ℕ) (maxLayers : Int32) :
    EStateM Failure (Running (HNSWIndex V)) PUnit := do
  let oldSize ← compute fun index => .ok index.neighbours.length
  if newSize ≤ oldSize then return
  request
  update fun index => { index with
    neighbours := index.neighbours ++ List.replicate (newSize - oldSize) [] }
  tryFillSlots maxLayers (List.range' oldSize (newSize - oldSize))

def trySetNeighbours (nodeId layer : ℕ) (neighbours : List ℕ) :
    EStateM Failure (Running (HNSWIndex V)) PUnit := do
  let cleared ← compute fun index =>
    index.neighbours.setNeighbours nodeId layer []
  update fun index => { index with neighbours := cleared }
  request
  let adj ← compute fun index =>
    index.neighbours.setNeighbours nodeId layer neighbours
  update fun index => { index with neighbours := adj }

def tryAddNeighbour (nodeId layer neighbour : ℕ) :
    EStateM Failure (Running (HNSWIndex V)) PUnit := do
  let adj ← compute fun index =>
    index.neighbours.addNeighbour nodeId layer neighbour
  request
  update fun index => { index with neighbours := adj }

/-- The list only shrinks, so that its own statement allocates nothing. -/
def tryPruneConnections (nodeId layer : ℕ) (Mmax : Int32) :
    EStateM Failure (Running (HNSWIndex V)) PUnit := do
  let nbrs ← compute fun index =>
    .ok (index.neighbours.getNeighbours nodeId layer)
  if (nbrs.length : ℤ) ≤ Mmax.toInt then return
  request
  let pruned ← compute fun index => pruneConnections rt index nodeId layer Mmax
  update fun index => { index with neighbours := pruned.neighbours }

def tryLinkBack (id layer : ℕ) (Mmax : Int32) :
    List ℕ → EStateM Failure (Running (HNSWIndex V)) PUnit
  | [] => pure ⟨⟩
  | nbr :: nbrs => do
      tryAddNeighbour nbr layer id
      tryPruneConnections rt nbr layer Mmax
      tryLinkBack id layer Mmax nbrs

def tryLinkLayer (vec : V) (id ep layer : ℕ) :
    EStateM Failure (Running (HNSWIndex V)) ℕ := do
  request
  let candidates ← compute fun index =>
    searchLayer rt index ep vec index.cfg.efConstruction layer
  let M ← compute fun index => .ok (layerM index.cfg layer)
  let selected ← compute fun _ => selectNeighbours candidates M
  request
  trySetNeighbours id layer selected
  tryLinkBack rt id layer M selected
  match candidates with
  | [] => return ep
  | closest :: _ => return closest.nodeId

def tryLinkLayers (vec : V) (id : ℕ) :
    ℕ → ℕ → EStateM Failure (Running (HNSWIndex V)) PUnit
  | 0, _ => pure ⟨⟩
  | layers + 1, ep => do
      let ep ← tryLinkLayer rt vec id ep layers
      tryLinkLayers vec id layers ep

/-- The vectors that the constructor reserves room for. -/
def reservedVectors : ℕ := 1024

/-- `vectors_.resize` allocates nothing up to the reserved room, or the room
that is in use.  Beyond that it may have to. -/
def tryGrow (id : ℕ) : EStateM Failure (Running (HNSWIndex V)) PUnit := do
  let room ← compute fun index =>
    .ok (max reservedVectors index.vectors.length)
  if id < room then return
  request

/-- The id is taken before anything is allocated.  `vectors_.resize` puts
`zero` where an earlier insertion has left no vector. -/
def tryInsert (zero vec : V) : EStateM Failure (Running (HNSWIndex V)) ℕ := do
  let id ← compute fun index => .ok index.nextId
  update fun index => { index with nextId := (id + 1) % 2 ^ 32 }
  tryGrow id
  update fun index => { index with
    vectors := (index.vectors ++
      List.replicate (id - index.vectors.length) zero).take id ++ [vec] }
  let maxLayers ← compute fun index => .ok index.cfg.maxLayers
  tryResize ((id + 1) % 2 ^ 32) maxLayers
  let nodeLayer ← compute fun index => .ok index.sampleLayer
  update fun index => { index with rng := fun i => index.rng (i + 1) }
  let curMax ← compute fun index => .ok index.maxLayer
  if curMax < 0 then
    update fun index => { index with entryPoint := id, maxLayer := nodeLayer }
    return id
  let ep ← compute fun index => greedyDescent rt index vec nodeLayer
    (curMax.toNat - nodeLayer) index.entryPoint
  tryLinkLayers rt vec id (min nodeLayer curMax.toNat + 1) ep
  if curMax < nodeLayer then
    update fun index => { index with entryPoint := id, maxLayer := nodeLayer }
    return id
  return id

/-- The statements behind that of the new vector. -/
def tryLinkNew (vec : V) (id : ℕ) :
    EStateM Failure (Running (HNSWIndex V)) ℕ := do
  let maxLayers ← compute fun index => .ok index.cfg.maxLayers
  tryResize ((id + 1) % 2 ^ 32) maxLayers
  let nodeLayer ← compute fun index => .ok index.sampleLayer
  update fun index => { index with rng := fun i => index.rng (i + 1) }
  let curMax ← compute fun index => .ok index.maxLayer
  if curMax < 0 then
    update fun index => { index with entryPoint := id, maxLayer := nodeLayer }
    return id
  let ep ← compute fun index => greedyDescent rt index vec nodeLayer
    (curMax.toNat - nodeLayer) index.entryPoint
  tryLinkLayers rt vec id (min nodeLayer curMax.toNat + 1) ep
  if curMax < nodeLayer then
    update fun index => { index with entryPoint := id, maxLayer := nodeLayer }
    return id
  return id

theorem tryInsert_eq (zero vec : V) : tryInsert rt zero vec = (do
    let id ← compute fun index => .ok index.nextId
    update fun index => { index with nextId := (id + 1) % 2 ^ 32 }
    tryGrow id
    update fun index => { index with
      vectors := (index.vectors ++
        List.replicate (id - index.vectors.length) zero).take id ++ [vec] }
    tryLinkNew rt vec id) := rfl

/-! ## What the links leave alone -/

section Keeps

open StateRules

/-- The number of ids that are taken. -/
def Taken (count : ℕ) : Running (HNSWIndex V) → Prop :=
  On fun index => index.nextId = count

/-- `P` is not about the lists, the entry point or the random layers. -/
structure GraphFree (P : HNSWIndex V → Prop) : Prop where
  lists : ∀ index adj, P index → P { index with neighbours := adj }
  entry : ∀ index id top, P index →
    P { index with entryPoint := id, maxLayer := top }
  layers : ∀ index rng, P index → P { index with rng := rng }

variable {P : HNSWIndex V → Prop}

theorem GraphFree.setLists (hP : GraphFree P)
    (f : HNSWIndex V → NeighbourStore) : Keeps (On P)
      (update fun index => { index with neighbours := f index }) :=
  keeps_update fun index h => hP.lists index (f index) h

theorem GraphFree.setEntry (hP : GraphFree P) (id : ℕ) (top : ℤ) :
    Keeps (On P)
      (update fun index => { index with entryPoint := id, maxLayer := top }) :=
  keeps_update fun index h => hP.entry index id top h

theorem tryGrow_keeps (P : HNSWIndex V → Prop) (id : ℕ) :
    Keeps (On P) (tryGrow id) :=
  (keeps_compute _).bind fun _ => Keeps.ite (keeps_pure _) keeps_request

theorem tryFillSlots_keeps (hP : GraphFree P) (maxLayers : Int32)
    (slots : List ℕ) : Keeps (On P) (tryFillSlots maxLayers slots) := by
  induction slots with
  | nil => exact keeps_pure _
  | cons i slots ih =>
      exact keeps_request.bind fun _ =>
        (hP.setLists _).bind fun _ => ih

theorem tryResize_keeps (hP : GraphFree P) (newSize : ℕ) (maxLayers : Int32) :
    Keeps (On P) (tryResize newSize maxLayers) := by
  refine (keeps_compute _).bind fun oldSize => Keeps.ite (keeps_pure _) ?_
  exact keeps_request.bind fun _ => (hP.setLists _).bind fun _ =>
    tryFillSlots_keeps hP _ _

theorem trySetNeighbours_keeps (hP : GraphFree P) (nodeId layer : ℕ)
    (neighbours : List ℕ) :
    Keeps (On P) (trySetNeighbours nodeId layer neighbours) := by
  refine (keeps_compute _).bind fun cleared =>
    (hP.setLists _).bind fun _ => keeps_request.bind fun _ => ?_
  exact (keeps_compute _).bind fun adj => hP.setLists _

theorem tryAddNeighbour_keeps (hP : GraphFree P)
    (nodeId layer neighbour : ℕ) :
    Keeps (On P) (tryAddNeighbour nodeId layer neighbour) :=
  (keeps_compute _).bind fun _ => keeps_request.bind fun _ =>
    hP.setLists _

theorem tryPruneConnections_keeps (hP : GraphFree P) (nodeId layer : ℕ)
    (Mmax : Int32) :
    Keeps (On P) (tryPruneConnections rt nodeId layer Mmax) := by
  refine (keeps_compute _).bind fun nbrs => Keeps.ite (keeps_pure _) ?_
  exact keeps_request.bind fun _ => (keeps_compute _).bind fun pruned =>
    hP.setLists _

theorem tryLinkBack_keeps (hP : GraphFree P) (id layer : ℕ) (Mmax : Int32)
    (nbrs : List ℕ) :
    Keeps (On P) (tryLinkBack rt id layer Mmax nbrs) := by
  induction nbrs with
  | nil => exact keeps_pure _
  | cons nbr nbrs ih =>
      exact (tryAddNeighbour_keeps hP _ _ _).bind fun _ =>
        (tryPruneConnections_keeps rt hP _ _ _).bind fun _ => ih

theorem tryLinkLayer_keeps (hP : GraphFree P) (vec : V) (id ep layer : ℕ) :
    Keeps (On P) (tryLinkLayer rt vec id ep layer) := by
  refine keeps_request.bind fun _ => (keeps_compute _).bind fun candidates =>
    (keeps_compute _).bind fun M => (keeps_compute _).bind fun selected => ?_
  refine keeps_request.bind fun _ => (trySetNeighbours_keeps hP _ _ _).bind
    fun _ => (tryLinkBack_keeps rt hP _ _ _ _).bind fun _ => ?_
  cases candidates with
  | nil => exact keeps_pure _
  | cons closest rest => exact keeps_pure _

theorem tryLinkLayers_keeps (hP : GraphFree P) (vec : V) (id layers ep : ℕ) :
    Keeps (On P) (tryLinkLayers rt vec id layers ep) := by
  induction layers generalizing ep with
  | zero => exact keeps_pure _
  | succ layers ih =>
      exact (tryLinkLayer_keeps rt hP _ _ _ _).bind fun ep => ih ep

theorem tryLinkNew_keeps (hP : GraphFree P) (vec : V) (id : ℕ) :
    Keeps (On P) (tryLinkNew rt vec id) := by
  refine (keeps_compute _).bind fun maxLayers =>
    (tryResize_keeps hP _ _).bind fun _ => (keeps_compute _).bind
    fun nodeLayer => Keeps.bind (keeps_update ?_) fun _ =>
    (keeps_compute _).bind fun curMax =>
    Keeps.ite ((hP.setEntry _ _).bind fun _ => keeps_pure _) ?_
  · exact fun index h => hP.layers index _ h
  · refine (keeps_compute _).bind fun ep =>
      (tryLinkLayers_keeps rt hP _ _ _ _).bind fun _ => ?_
    exact Keeps.ite ((hP.setEntry _ _).bind fun _ => keeps_pure _)
      (keeps_pure _)

theorem graphFree_nextId (count : ℕ) :
    GraphFree fun index : HNSWIndex V => index.nextId = count where
  lists := fun _ _ h => h
  entry := fun _ _ _ h => h
  layers := fun _ _ h => h

/-- The id stays taken, whether the insertion returns or throws, and wherever
it throws. -/
theorem after_tryInsert (zero vec : V) (s : Running (HNSWIndex V)) :
    (after (tryInsert rt zero vec) s).obj.nextId =
      (s.obj.nextId + 1) % 2 ^ 32 := by
  rw [tryInsert_eq, after_bind_of_ok (compute_run _ s),
    after_bind_of_ok (update_run _ _)]
  have hrest : ∀ {x : EStateM Failure (Running (HNSWIndex V)) ℕ} {s' count},
      Keeps (Taken count) x → Taken count s' →
        (after x s').obj.nextId = count := fun hx hs' => hx _ hs'
  refine hrest ?_ rfl
  exact (tryGrow_keeps _ _).bind fun _ => Keeps.bind
    (keeps_update fun _ h => h) fun _ =>
      tryLinkNew_keeps rt (graphFree_nextId _) _ _

/-- Every vector of the index has the property. -/
def AllVectors (P : V → Prop) (index : HNSWIndex V) : Prop :=
  ∀ vec ∈ index.vectors, P vec

theorem tryInsert_allVectors {P : V → Prop} {zero vec : V} (hzero : P zero)
    (hvec : P vec) : Keeps (On (AllVectors P)) (tryInsert rt zero vec) := by
  have hfree : GraphFree (AllVectors P) :=
    ⟨fun _ _ h => h, fun _ _ _ h => h, fun _ _ h => h⟩
  rw [tryInsert_eq]
  refine (keeps_compute _).bind fun id =>
    Keeps.bind (keeps_update fun _ h => h) fun _ => (tryGrow_keeps _ _).bind
    fun _ => Keeps.bind (keeps_update ?_) fun _ => tryLinkNew_keeps rt hfree _ _
  intro index hall other hother
  rcases List.mem_append.mp hother with hold | hnew
  · rcases List.mem_append.mp (List.mem_of_mem_take hold) with hold | hgap
    · exact hall other hold
    · rwa [List.eq_of_mem_replicate hgap]
  · rwa [List.mem_singleton.mp hnew]

theorem tryGrow_run_reserved {id : ℕ} (hid : id < reservedVectors)
    (s : Running (HNSWIndex V)) : (tryGrow id).run s = .ok ⟨⟩ s := by
  unfold tryGrow
  rw [bind_of_ok (compute_run _ s), if_pos (lt_max_of_lt_left hid)]
  rfl

theorem tryResize_out_of_memory (newSize : ℕ) (maxLayers : Int32)
    {s : Running (HNSWIndex V)} (hgrows : s.obj.neighbours.length < newSize)
    (hmemory : s.memory 0 = false) :
    ∃ t, (tryResize newSize maxLayers).run s = .error .badAlloc t ∧
      t.obj = s.obj := by
  unfold tryResize
  rw [bind_of_ok (compute_run _ s), if_neg (not_le.mpr hgrows)]
  have hrequest := request_run s
  rw [if_neg (by simp [hmemory])] at hrequest
  exact ⟨_, bind_of_error hrequest, rfl⟩

/-- As long as the vectors have their reserved room, the first allocation is
that of the adjacency store; the vector is in its place by then. -/
theorem tryInsert_out_of_memory (zero vec : V) {s : Running (HNSWIndex V)}
    (hroom : s.obj.nextId < reservedVectors)
    (hlists : s.obj.neighbours.length ≤ s.obj.nextId)
    (hmemory : s.memory 0 = false) :
    ∃ t, (tryInsert rt zero vec).run s = .error .badAlloc t ∧
      t.obj.vectors[s.obj.nextId]? = some vec := by
  have hid : (s.obj.nextId + 1) % 2 ^ 32 = s.obj.nextId + 1 := by
    rw [reservedVectors] at hroom
    omega
  rw [tryInsert_eq, bind_of_ok (compute_run _ s), bind_of_ok (update_run _ _),
    bind_of_ok (tryGrow_run_reserved hroom _), bind_of_ok (update_run _ _),
    tryLinkNew, bind_of_ok (compute_run _ _), hid]
  obtain ⟨t, hresize, hobj⟩ := tryResize_out_of_memory
    (s.obj.nextId + 1) s.obj.cfg.maxLayers (s := ⟨{ s.obj with
      nextId := s.obj.nextId + 1
      vectors := (s.obj.vectors ++ List.replicate
        (s.obj.nextId - s.obj.vectors.length) zero).take s.obj.nextId ++
          [vec] }, s.memory⟩) (Nat.lt_succ_of_le hlists) hmemory
  refine ⟨t, bind_of_error hresize, ?_⟩
  rw [hobj]
  have hlength : ((s.obj.vectors ++ List.replicate
      (s.obj.nextId - s.obj.vectors.length) zero).take
        s.obj.nextId).length = s.obj.nextId := by
    rw [List.length_take, List.length_append, List.length_replicate]
    omega
  dsimp only
  rw [List.getElem?_append_right hlength.le, hlength, Nat.sub_self]
  rfl

end Keeps

/-! ## Enough memory -/

theorem tryGrow_agrees (id : ℕ) (index : HNSWIndex V) :
    Agrees (tryGrow id) index (.ok (⟨⟩, index)) := by
  unfold tryGrow
  refine agrees_compute_bind rfl ?_
  split_ifs
  · exact agrees_pure _
  · exact request_ample index

theorem tryFillSlots_agrees (maxLayers : Int32) (adj : NeighbourStore)
    (count : ℕ) (index : HNSWIndex V) :
    Agrees (tryFillSlots maxLayers (List.range' adj.length count))
      { index with neighbours := adj ++ List.replicate count [] }
      (.ok (⟨⟩, { index with
        neighbours := adj ++ List.replicate count
          (List.replicate maxLayers.toInt.toNat []) })) := by
  induction count generalizing adj with
  | zero => exact agrees_pure _
  | succ count ih =>
      have hnext := ih (adj ++ [List.replicate maxLayers.toInt.toNat []])
      rw [List.length_append, List.length_singleton, List.append_assoc,
        List.append_assoc, List.singleton_append, List.singleton_append,
        ← List.replicate_succ] at hnext
      rw [List.range'_succ, tryFillSlots]
      refine agrees_request_bind (agrees_update_bind ?_)
      have hset : (adj ++ List.replicate (count + 1) []).set adj.length
          (List.replicate maxLayers.toInt.toNat []) =
          adj ++ List.replicate maxLayers.toInt.toNat [] ::
            List.replicate count [] := by
        rw [List.set_append_right _ _ le_rfl, Nat.sub_self,
          List.replicate_succ, List.set_cons_zero]
      dsimp only
      rw [hset]
      exact hnext

theorem tryResize_agrees (newSize : ℕ) (maxLayers : Int32)
    (index : HNSWIndex V) :
    Agrees (tryResize newSize maxLayers) index (.ok (⟨⟩, { index with
      neighbours := index.neighbours.resize newSize maxLayers })) := by
  unfold tryResize NeighbourStore.resize
  refine agrees_compute_bind rfl ?_
  by_cases hle : newSize ≤ index.neighbours.length
  · rw [if_pos hle, if_pos hle]
    exact agrees_pure _
  · rw [if_neg hle, if_neg hle]
    refine agrees_request_bind (agrees_update_bind ?_)
    exact tryFillSlots_agrees maxLayers index.neighbours _ index

theorem trySetNeighbours_agrees (nodeId layer : ℕ) (neighbours : List ℕ)
    (index : HNSWIndex V) :
    Agrees (trySetNeighbours nodeId layer neighbours) index
      ((index.neighbours.setNeighbours nodeId layer neighbours).map fun adj =>
        (⟨⟩, { index with neighbours := adj })) := by
  unfold trySetNeighbours
  cases hclear : index.neighbours.setNeighbours nodeId layer [] with
  | error e =>
      have herr : index.neighbours.setNeighbours nodeId layer neighbours =
          .error e := by
        unfold NeighbourStore.setNeighbours at hclear ⊢
        split_ifs at hclear ⊢
        exact hclear
      rw [herr]
      exact agrees_compute_error hclear
  | ok cleared =>
      refine agrees_compute_bind hclear (agrees_update_bind
        (agrees_request_bind ?_))
      have hsame := NeighbourStore.setNeighbours_cleared hclear neighbours
      cases hset : index.neighbours.setNeighbours nodeId layer neighbours with
      | error e => exact agrees_compute_error (hsame.trans hset)
      | ok adj => exact agrees_compute_bind (hsame.trans hset) (agrees_pure _)

theorem tryAddNeighbour_agrees (nodeId layer neighbour : ℕ)
    (index : HNSWIndex V) :
    Agrees (tryAddNeighbour nodeId layer neighbour) index
      ((index.neighbours.addNeighbour nodeId layer neighbour).map fun adj =>
        (⟨⟩, { index with neighbours := adj })) := by
  unfold tryAddNeighbour
  cases hadd : index.neighbours.addNeighbour nodeId layer neighbour with
  | error e => exact agrees_compute_error hadd
  | ok adj =>
      exact agrees_compute_bind hadd (agrees_request_bind (agrees_pure _))

theorem tryPruneConnections_agrees (nodeId layer : ℕ) (Mmax : Int32)
    (index : HNSWIndex V) :
    Agrees (tryPruneConnections rt nodeId layer Mmax) index
      ((pruneConnections rt index nodeId layer Mmax).map fun pruned =>
        (⟨⟩, pruned)) := by
  unfold tryPruneConnections
  refine agrees_compute_bind rfl ?_
  by_cases hshort : ((index.neighbours.getNeighbours nodeId layer).length : ℤ) ≤
      Mmax.toInt
  · have hsame : pruneConnections rt index nodeId layer Mmax = .ok index := by
      unfold pruneConnections
      exact if_pos hshort
    rw [if_pos hshort, hsame]
    exact agrees_pure _
  · rw [if_neg hshort]
    refine agrees_request_bind ?_
    cases hprune : pruneConnections rt index nodeId layer Mmax with
    | error e => exact agrees_compute_error hprune
    | ok pruned =>
        refine agrees_compute_bind hprune ?_
        rw [pruneConnections_eq rt hprune]
        exact agrees_pure _

theorem tryLinkBack_agrees (id layer : ℕ) (Mmax : Int32) (nbrs : List ℕ)
    (index : HNSWIndex V) :
    Agrees (tryLinkBack rt id layer Mmax nbrs) index
      ((linkBack rt id layer Mmax nbrs index).map fun linked =>
        (⟨⟩, linked)) := by
  induction nbrs generalizing index with
  | nil => exact agrees_pure _
  | cons nbr nbrs ih =>
      have hadd := tryAddNeighbour_agrees nbr layer id index
      rw [linkBack, tryLinkBack]
      cases hadj : index.neighbours.addNeighbour nbr layer id with
      | error e =>
          rw [hadj] at hadd
          exact hadd.bind_error
      | ok adj =>
          rw [hadj] at hadd
          refine hadd.bind_ok ?_
          have hprune := tryPruneConnections_agrees rt nbr layer Mmax
            { index with neighbours := adj }
          rw [except_bind_ok]
          cases hnext : pruneConnections rt { index with neighbours := adj }
              nbr layer Mmax with
          | error e =>
              rw [hnext] at hprune
              exact hprune.bind_error
          | ok next =>
              rw [hnext] at hprune
              exact hprune.bind_ok (ih next)

theorem tryLinkLayer_agrees (vec : V) (id ep layer : ℕ)
    (index : HNSWIndex V) :
    Agrees (tryLinkLayer rt vec id ep layer) index
      ((linkLayer rt index vec id ep layer).map Prod.swap) := by
  unfold tryLinkLayer linkLayer
  refine agrees_request_bind ?_
  cases hsearch : searchLayer rt index ep vec index.cfg.efConstruction layer with
  | error e => exact agrees_compute_error hsearch
  | ok candidates =>
      refine agrees_compute_bind hsearch (agrees_compute_bind rfl ?_)
      rw [except_bind_ok]
      cases selectNeighbours candidates (layerM index.cfg layer) with
      | error e => exact agrees_compute_error rfl
      | ok selected =>
          refine agrees_compute_bind rfl (agrees_request_bind ?_)
          have hlists := trySetNeighbours_agrees id layer selected index
          rw [except_bind_ok]
          cases hset : index.neighbours.setNeighbours id layer selected with
          | error e =>
              rw [hset] at hlists
              exact hlists.bind_error
          | ok adj =>
              rw [hset] at hlists
              refine hlists.bind_ok ?_
              have hback := tryLinkBack_agrees rt id layer
                (layerM index.cfg layer) selected
                { index with neighbours := adj }
              rw [except_bind_ok]
              cases hlink : linkBack rt id layer (layerM index.cfg layer)
                  selected { index with neighbours := adj } with
              | error e =>
                  rw [hlink] at hback
                  exact hback.bind_error
              | ok linked =>
                  rw [hlink] at hback
                  refine hback.bind_ok ?_
                  cases candidates with
                  | nil => exact agrees_pure _
                  | cons closest rest => exact agrees_pure _

theorem tryLinkLayers_agrees (vec : V) (id layers ep : ℕ)
    (index : HNSWIndex V) :
    Agrees (tryLinkLayers rt vec id layers ep) index
      ((linkLayers rt vec id layers index ep).map fun linked =>
        (⟨⟩, linked)) := by
  induction layers generalizing index ep with
  | zero => exact agrees_pure _
  | succ layers ih =>
      have hlayer := tryLinkLayer_agrees rt vec id ep layers index
      rw [linkLayers, tryLinkLayers]
      cases hlink : linkLayer rt index vec id ep layers with
      | error e =>
          rw [hlink] at hlayer
          exact hlayer.bind_error
      | ok next =>
          obtain ⟨linked, ep'⟩ := next
          rw [hlink] at hlayer
          exact hlayer.bind_ok (ih ep' linked)

/-- An insertion that has the memory it asks for, into an index that holds the
vector of every id. -/
theorem tryInsert_agrees (zero vec : V) {index : HNSWIndex V}
    (hvectors : index.nextId ≤ index.vectors.length) :
    Agrees (tryInsert rt zero vec) index (index.insert rt vec) := by
  have hfilled : (index.vectors ++ List.replicate
      (index.nextId - index.vectors.length) zero).take index.nextId ++ [vec] =
      index.vectors.take index.nextId ++ [vec] := by
    rw [Nat.sub_eq_zero_of_le hvectors, List.replicate_zero, List.append_nil]
  unfold tryInsert insert
  refine agrees_compute_bind rfl (agrees_update_bind
    ((tryGrow_agrees _ _).bind_ok (agrees_update_bind
      (agrees_compute_bind rfl ?_))))
  dsimp only
  rw [hfilled]
  refine (tryResize_agrees _ _ _).bind_ok ?_
  refine agrees_compute_bind rfl (agrees_update_bind
    (agrees_compute_bind rfl ?_))
  have hdone : ∀ linked : HNSWIndex V, Agrees
      (if index.maxLayer < index.sampleLayer then do
        update fun index' => { index' with
          entryPoint := index.nextId
          maxLayer := index.sampleLayer }
        return index.nextId
      else return index.nextId) linked
      (if index.maxLayer < index.sampleLayer then
        .ok (index.nextId, { linked with
          entryPoint := index.nextId
          maxLayer := index.sampleLayer })
      else .ok (index.nextId, linked)) := by
    intro linked
    split_ifs
    · exact agrees_update_bind (agrees_pure _)
    · exact agrees_pure _
  by_cases hempty : index.maxLayer < 0
  · dsimp only
    rw [if_pos hempty, if_pos hempty]
    exact agrees_update_bind (agrees_pure _)
  · dsimp only
    rw [if_neg hempty, if_neg hempty]
    cases hdescent : greedyDescent rt (index.allocate vec) vec
        index.sampleLayer (index.maxLayer.toNat - index.sampleLayer)
        (index.allocate vec).entryPoint with
    | error e => exact agrees_compute_error hdescent
    | ok ep =>
        refine agrees_compute_bind hdescent ?_
        have hlayers := tryLinkLayers_agrees rt vec index.nextId
          (min index.sampleLayer index.maxLayer.toNat + 1) ep
          (index.allocate vec)
        rw [except_bind_ok]
        cases hlink : linkLayers rt vec index.nextId
            (min index.sampleLayer index.maxLayer.toNat + 1)
            (index.allocate vec) ep with
        | error e =>
            rw [hlink] at hlayers
            exact hlayers.bind_error
        | ok linked =>
            rw [hlink] at hlayers
            exact hlayers.bind_ok (hdone linked)

end HNSWIndex

end VecDB
