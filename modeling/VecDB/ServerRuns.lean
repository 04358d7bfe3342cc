import VecDB.BulkInsert
import VecDB.HttpApi
import Mathlib.Tactic

/-!
# Requests to the server

The gRPC service and the HTTP API work on one manager.  Of their calls, five
take vectors: two insert one, one inserts a stream of them, and two search.
Whatever holds of the vectors that they pass on, and of the zeros that a failed
insert may leave, holds of every vector that is stored.
-/

namespace VecDB

open StateRules Running

namespace VectorDBService

variable {dim : UInt32} {D : Type} [Preorder D] [DecidableLT D]
  (rt : Runtime (Vec dim) D)

/-- The response has the shard and the node id. -/
def insert (ctx : ServerContext) (os : OS) (req : InsertRequest) :
    EStateM Failure (Running (VectorDBService dim))
      (Status × Option (ℕ × ℕ)) := do
  let gs ← compute fun svc => .ok (svc.gate ctx).1
  update fun svc => (svc.gate ctx).2
  if gs.isOk = false then return (gs, none)
  match decodeVector dim req.vector with
  | none => return (⟨.invalidArgument,
      "vector bytes size must be dim * 4 (float32)"⟩, none)
  | some vec => do
      request
      let out ← onManager (ShardManager.tryInsert os rt req.vectorId vec)
      return (.ok, some out)

theorem insert_open {ctx : ServerContext} {os : OS} {req : InsertRequest}
    {svc : VectorDBService dim} {vec : Vec dim} {out : ℕ × ℕ}
    {m' : ShardManager dim} (hgate : svc.gate ctx = (.ok, svc))
    (hdecode : decodeVector dim req.vector = some vec)
    (hvectors : ∀ ss ∈ svc.shardMgr.shards,
      ss.index.nextId ≤ ss.index.vectors.length)
    (hinsert : svc.shardMgr.insert os rt req.vectorId vec = .ok (out, m')) :
    (insert rt ctx os req).run ⟨svc, ample⟩ =
      .ok (.ok, some out) ⟨{ svc with shardMgr := m' }, ample⟩ := by
  have hagrees : Agrees (ShardManager.tryInsert os rt req.vectorId vec)
      svc.shardMgr (svc.shardMgr.insert os rt req.vectorId vec) :=
    ShardManager.tryInsert_ample req.vectorId vec hvectors
  rw [hinsert] at hagrees
  have hmanager : (onManager (ShardManager.tryInsert os rt req.vectorId
      vec)).run ⟨svc, ample⟩ =
        .ok out ⟨{ svc with shardMgr := m' }, ample⟩ := by
    rw [onManager, onPart_run, hagrees]
  unfold insert
  rw [bind_of_ok (compute_run _ _), bind_of_ok (update_run _ _), hgate,
    if_neg (by simp [Status.isOk, Status.ok]), hdecode]
  dsimp only
  rw [bind_of_ok (request_ample _), bind_of_ok hmanager]
  rfl

end VectorDBService

/-! ## The calls -/

/-- What the handlers use besides the manager. -/
structure ServerRuntime (dim : UInt32) (D : Type) [LT D] [DecidableLT D] where
  rt : Runtime (Vec dim) D
  partialSorter : PartialSorter (HNSWSearchResult D)
  sqrt : D → D
  convert : List Char → Option UInt32
  distanceText : D → String

inductive ServerCall where
  | insert (ctx : ServerContext) (os : OS) (req : InsertRequest)
  | bulkInsert (ctx : ServerContext) (msgs : List (OS × InsertRequest))
  | search (ctx : ServerContext) (throws : ℕ → Bool) (req : SearchRequest)
  | httpInsert (os : OS) (us : ℕ) (body : List Char)
  | httpSearch (throws : ℕ → Bool) (us : ℕ) (body : List Char)

/-- A call that is modelled by how it ends and what it leaves. -/
def answered {σ α : Type} (f : σ → Except Failure α × σ) :
    EStateM Failure (Running σ) α := do
  let out ← compute fun obj => .ok (f obj)
  update fun _ => out.2
  ofExcept out.1

namespace ServerRuntime

open VectorDBService

variable {dim : UInt32} {D : Type} [Preorder D] [DecidableLT D]
  (lib : ServerRuntime dim D)

def serve : ServerCall → EStateM Failure (Running (VectorDBService dim)) Unit
  | .insert ctx os req => do
      let _ ← VectorDBService.insert lib.rt ctx os req
  | .bulkInsert ctx msgs => do
      let _ ← bulkInsert lib.rt ctx msgs
  | .search ctx throws req => do
      let _ ← answered (VectorDBService.search lib.rt lib.partialSorter lib.sqrt
        throws ctx req)
  | .httpInsert os us body => do
      let _ ← onManager (HttpApi.handleInsert lib.convert os lib.rt us body)
  | .httpSearch throws us body => do
      let _ ← onManager (answered (HttpApi.handleSearch lib.convert lib.rt
        lib.partialSorter throws lib.distanceText us body))

/-- The server behind the calls, whether they return or throw. -/
def serveAll (calls : List ServerCall) (s : Running (VectorDBService dim)) :
    Running (VectorDBService dim) :=
  calls.foldl (fun s call => after (lib.serve call) s) s

/-- The vectors and queries of a call that is accepted. -/
def accepted (svc : VectorDBService dim) : ServerCall → List (Vec dim)
  | .insert ctx _ req =>
      if (svc.gate ctx).1.isOk = true then (decodeVector dim req.vector).toList
      else []
  | .bulkInsert ctx msgs =>
      if (svc.gate ctx).1.isOk = true then
        msgs.filterMap fun msg => decodeVector dim msg.2.vector
      else []
  | .search ctx _ req =>
      if (svc.gate ctx).1.isOk = true ∧ 0 < req.topK then
        (decodeVector dim req.query).toList
      else []
  | .httpInsert _ _ body =>
      (HttpApi.readVector lib.convert dim "vector" body).toOption.toList
  | .httpSearch _ _ body =>
      (HttpApi.readVector lib.convert dim "query" body).toOption.toList

/-- The same of a sequence of calls. -/
def acceptedAll : List ServerCall → Running (VectorDBService dim) →
    List (Vec dim)
  | [], _ => []
  | call :: calls, s => lib.accepted s.obj call ++
      acceptedAll calls (after (lib.serve call) s)

end ServerRuntime

/-! ## What is stored -/

section Holds

variable {dim : UInt32} {D : Type} [Preorder D] [DecidableLT D]
  {P : Vec dim → Prop}

def ShardState.Holds (P : Vec dim → Prop) (ss : ShardState dim) : Prop :=
  HNSWIndex.AllVectors P ss.index

/-- Every vector of every shard has the property. -/
def ShardManager.Holds (P : Vec dim → Prop) (m : ShardManager dim) : Prop :=
  ∀ ss ∈ m.shards, ss.Holds P

def VectorDBService.Holds (P : Vec dim → Prop) (svc : VectorDBService dim) :
    Prop :=
  svc.shardMgr.Holds P

theorem ShardState.tryInsert_holds (os : OS) (rt : Runtime (Vec dim) D)
    (vectorId : UInt64) {vec : Vec dim} (hzero : P (Vec.zero dim))
    (hvec : P vec) :
    Keeps (On (ShardState.Holds P)) (tryInsert os rt vectorId vec) := by
  refine Keeps.bind ?_ fun lsn => ?_
  · exact Keeps.onPart (Q := fun _ => True) (fun _ _ => trivial)
      (fun _ _ => trivial) fun _ _ hs _ => hs
  · exact (HNSWIndex.tryInsert_allVectors rt hzero hvec).onPart
      (fun _ hs => hs) fun _ _ _ hindex => hindex

namespace ShardManager

theorem Holds.set {m : ShardManager dim} (hm : m.Holds P)
    {ss : ShardState dim} (hss : ss.Holds P) (shardId : ℕ) :
    Holds P { m with shards := m.shards.set shardId ss } := by
  intro other hother
  rcases List.mem_or_eq_of_mem_set hother with hold | rfl
  · exact hm other hold
  · exact hss

theorem tryInsert_holds (os : OS) (rt : Runtime (Vec dim) D)
    (vectorId : UInt64) {vec : Vec dim} (hzero : P (Vec.zero dim))
    (hvec : P vec) :
    Keeps (On (Holds P)) (tryInsert os rt vectorId vec) := by
  intro s hs
  have hshard : ∀ ss ∈ s.obj.shards, ShardState.Holds P
      (after (ShardState.tryInsert os rt vectorId vec) ⟨ss, s.memory⟩).obj :=
    fun ss hss => ShardState.tryInsert_holds os rt vectorId hzero hvec
      ⟨ss, s.memory⟩ (hs ss hss)
  cases hrun : (tryInsert os rt vectorId vec).run s with
  | ok out s' =>
      obtain ⟨ss, t, howns, hinsert, rfl⟩ := tryInsert_eq_ok hrun
      have hnext := hshard ss (List.mem_of_getElem? howns.2)
      rw [after_of_ok hinsert] at hnext
      rw [after_of_ok hrun]
      exact Holds.set hs hnext _
  | error e s' =>
      rw [after_of_error hrun]
      rcases tryInsert_eq_error hrun with
        ⟨_, rfl⟩ | ⟨shardId, ss, t, howns, hinsert, rfl⟩
      · exact hs
      · have hnext := hshard ss (List.mem_of_getElem? howns.2)
        rw [after_of_error hinsert] at hnext
        exact Holds.set hs hnext _

/-- A search changes no vectors. -/
theorem Holds.search {m : ShardManager dim} (hm : m.Holds P)
    (rt : Runtime (Vec dim) D) (ps : PartialSorter (HNSWSearchResult D))
    (query : Vec dim) (topK ef : Int32) (throws : ℕ → Bool) :
    (m.search rt ps query topK ef throws).2.Holds P := by
  rw [search_snd]
  intro ss hss
  obtain ⟨old, hold, rfl⟩ := List.mem_map.mp hss
  unfold settled
  split_ifs
  · exact hm old hold
  · exact hm old hold

end ShardManager

section Answered

variable {σ α : Type} (f : σ → Except Failure α × σ) (s : Running σ)

theorem answered_run : (answered f).run s =
    match (f s.obj).1 with
    | .ok a => .ok a ⟨(f s.obj).2, s.memory⟩
    | .error e => .error e ⟨(f s.obj).2, s.memory⟩ := by
  unfold answered
  rw [bind_of_ok (compute_run _ s), bind_of_ok (update_run _ s),
    run_ofExcept]
  cases (f s.obj).1 with
  | ok a => rfl
  | error e => rfl

theorem after_answered :
    after (answered f) s = ⟨(f s.obj).2, s.memory⟩ := by
  unfold after
  rw [answered_run]
  cases (f s.obj).1 with
  | ok a => rfl
  | error e => rfl

theorem keeps_answered {f : σ → Except Failure α × σ} {Q : σ → Prop}
    (hf : ∀ obj, Q obj → Q (f obj).2) : Keeps (On Q) (answered f) := by
  intro s hs
  rw [after_answered]
  exact hf s.obj hs

end Answered

namespace VectorDBService

variable (rt : Runtime (Vec dim) D)

theorem keeps_onManager {α : Type}
    {x : EStateM Failure (Running (ShardManager dim)) α}
    (hx : Keeps (On (ShardManager.Holds P)) x) :
    Keeps (On (Holds P)) (onManager x) :=
  hx.onPart (fun _ hs => hs) fun _ _ _ hm => hm

theorem Holds.gate {svc : VectorDBService dim} (hsvc : svc.Holds P)
    (ctx : ServerContext) : (svc.gate ctx).2.Holds P := by
  unfold Holds
  rw [gate_shardMgr]
  exact hsvc

theorem Holds.search {svc : VectorDBService dim} (hsvc : svc.Holds P)
    (rt : Runtime (Vec dim) D) (ps : PartialSorter (HNSWSearchResult D))
    (sqrt : D → D) (throws : ℕ → Bool) (ctx : ServerContext)
    (req : SearchRequest) :
    (svc.search rt ps sqrt throws ctx req).2.Holds P := by
  have hgate := hsvc.gate ctx
  unfold VectorDBService.search
  generalize svc.gate ctx = gated at hgate ⊢
  dsimp only at hgate ⊢
  split_ifs
  · exact hgate
  · exact hgate
  · cases decodeVector dim req.query with
    | none => exact hgate
    | some query => exact ShardManager.Holds.search hgate rt ps _ _ _ _

theorem bulkMessage_holds (os : OS) {req : InsertRequest}
    (resp : BulkInsertResponse) (hzero : P (Vec.zero dim))
    (hreq : ∀ vec ∈ decodeVector dim req.vector, P vec) :
    Keeps (On (ShardManager.Holds P)) (bulkMessage rt os req resp) := by
  unfold bulkMessage
  cases hdecode : decodeVector dim req.vector with
  | none => exact keeps_pure _
  | some vec =>
      have hvec := hreq vec hdecode
      refine keeps_request.bind fun _ =>
        (ShardManager.tryInsert_holds os rt _ hzero hvec).caught.bind
          fun out => ?_
      cases out with
      | some out => exact keeps_pure _
      | none => exact keeps_pure _

theorem bulkLoop_holds {msgs : List (OS × InsertRequest)}
    (resp : BulkInsertResponse) (hzero : P (Vec.zero dim))
    (hmsgs : ∀ vec ∈ msgs.filterMap fun msg => decodeVector dim msg.2.vector,
      P vec) :
    Keeps (On (ShardManager.Holds P)) (bulkLoop rt msgs resp) := by
  induction msgs generalizing resp with
  | nil => exact keeps_pure _
  | cons msg msgs ih =>
      simp only [List.mem_filterMap, List.mem_cons] at hmsgs ih
      refine Keeps.bind (bulkMessage_holds rt msg.1 resp hzero ?_)
        fun resp => ih resp ?_
      · exact fun vec hvec => hmsgs vec ⟨msg, Or.inl rfl, hvec⟩
      · rintro vec ⟨other, hother, hvec⟩
        exact hmsgs vec ⟨other, Or.inr hother, hvec⟩

/-- A call behind the gate. -/
theorem holds_gated {α : Type} {ctx : ServerContext} {refused : Status → α}
    {rest : Status → EStateM Failure (Running (VectorDBService dim)) α}
    {s : Running (VectorDBService dim)} (hs : s.obj.Holds P)
    (hrest : (s.obj.gate ctx).1.isOk = true →
      Keeps (On (Holds P)) (rest (s.obj.gate ctx).1)) :
    (after (do
      let gs ← compute fun svc => .ok (svc.gate ctx).1
      update fun svc => (svc.gate ctx).2
      if gs.isOk = false then return refused gs
      rest gs) s).obj.Holds P := by
  rw [after_bind_of_ok (compute_run _ s), after_bind_of_ok (update_run _ s)]
  split_ifs with hgate
  · exact hs.gate ctx
  · exact hrest (by simpa using hgate) _ (hs.gate ctx)

theorem insert_holds {ctx : ServerContext} (os : OS) {req : InsertRequest}
    {s : Running (VectorDBService dim)} (hs : s.obj.Holds P)
    (hzero : P (Vec.zero dim))
    (hreq : (s.obj.gate ctx).1.isOk = true →
      ∀ vec ∈ decodeVector dim req.vector, P vec) :
    (after (insert rt ctx os req) s).obj.Holds P := by
  refine holds_gated hs fun hgate => ?_
  cases hdecode : decodeVector dim req.vector with
  | none => exact keeps_pure _
  | some vec =>
      have hvec := hreq hgate vec hdecode
      exact keeps_request.bind fun _ => (keeps_onManager
        (ShardManager.tryInsert_holds os rt _ hzero hvec)).bind
          fun out => keeps_pure _

theorem bulkInsert_holds {ctx : ServerContext}
    {msgs : List (OS × InsertRequest)} {s : Running (VectorDBService dim)}
    (hs : s.obj.Holds P) (hzero : P (Vec.zero dim))
    (hmsgs : (s.obj.gate ctx).1.isOk = true → ∀ vec ∈
      msgs.filterMap fun msg => decodeVector dim msg.2.vector, P vec) :
    (after (bulkInsert rt ctx msgs) s).obj.Holds P :=
  holds_gated hs fun hgate => (keeps_onManager
    (bulkLoop_holds rt noCounts hzero (hmsgs hgate))).bind
      fun _ => keeps_pure _

end VectorDBService

namespace HttpApi

variable {convert : List Char → Option UInt32} {body : List Char}
  (rt : Runtime (Vec dim) D)

theorem handleInsert_holds (os : OS) (us : ℕ) (hzero : P (Vec.zero dim))
    (hbody : ∀ vec ∈ (readVector convert dim "vector" body).toOption, P vec) :
    Keeps (On (ShardManager.Holds P))
      (handleInsert convert os rt us body) := by
  unfold handleInsert
  cases hread : readVector convert dim "vector" body with
  | error text => exact keeps_pure _
  | ok vec =>
      rw [hread] at hbody
      have hvec := hbody vec rfl
      exact (keeps_compute _).bind fun vid =>
        (ShardManager.tryInsert_holds os rt _ hzero hvec).bind
          fun out => (keeps_compute _).bind fun total => keeps_pure _

theorem handleSearch_holds (ps : PartialSorter (HNSWSearchResult D))
    (throws : ℕ → Bool) (distanceText : D → String) (us : ℕ)
    {m : ShardManager dim} (hm : m.Holds P) :
    (handleSearch convert rt ps throws distanceText us body m).2.Holds P := by
  unfold handleSearch
  cases readVector convert dim "query" body with
  | error refusal => exact hm
  | ok query => exact hm.search rt ps _ _ _ _

end HttpApi

namespace ServerRuntime

open VectorDBService

variable (lib : ServerRuntime dim D)

theorem serve_holds {call : ServerCall} {s : Running (VectorDBService dim)}
    (hs : s.obj.Holds P) (hzero : P (Vec.zero dim))
    (hcall : ∀ vec ∈ lib.accepted s.obj call, P vec) :
    (after (lib.serve call) s).obj.Holds P := by
  cases call with
  | insert ctx os req =>
      rw [serve, after_bind_pure]
      refine insert_holds lib.rt os hs hzero fun hgate vec hvec => ?_
      rw [accepted, if_pos hgate] at hcall
      exact hcall vec (Option.mem_toList.mpr hvec)
  | bulkInsert ctx msgs =>
      rw [serve, after_bind_pure]
      refine bulkInsert_holds lib.rt hs hzero fun hgate => ?_
      rwa [accepted, if_pos hgate] at hcall
  | search ctx throws req =>
      rw [serve, after_bind_pure]
      exact keeps_answered (Q := Holds P)
        (fun _ hsvc => hsvc.search _ _ _ _ _ _) s hs
  | httpInsert os us body =>
      rw [serve, after_bind_pure]
      exact keeps_onManager (HttpApi.handleInsert_holds lib.rt os us hzero
        fun vec hvec => hcall vec (Option.mem_toList.mpr hvec)) s hs
  | httpSearch throws us body =>
      rw [serve, after_bind_pure]
      exact keeps_onManager (keeps_answered (Q := ShardManager.Holds P)
        fun _ hm => HttpApi.handleSearch_holds lib.rt _ _ _ _ hm) s hs

theorem serveAll_holds {calls : List ServerCall}
    {s : Running (VectorDBService dim)} (hs : s.obj.Holds P)
    (hzero : P (Vec.zero dim))
    (hcalls : ∀ vec ∈ lib.acceptedAll calls s, P vec) :
    (lib.serveAll calls s).obj.Holds P := by
  induction calls generalizing s with
  | nil => exact hs
  | cons call calls ih =>
      rw [acceptedAll, List.forall_mem_append] at hcalls
      exact ih (lib.serve_holds hs hzero hcalls.1) hcalls.2

theorem acceptedAll_append (before after : List ServerCall)
    (s : Running (VectorDBService dim)) :
    lib.acceptedAll (before ++ after) s = lib.acceptedAll before s ++
      lib.acceptedAll after (lib.serveAll before s) := by
  induction before generalizing s with
  | nil => rfl
  | cons call before ih =>
      rw [List.cons_append, acceptedAll, ih, ← List.append_assoc]
      rfl

end ServerRuntime

end Holds

end VecDB
