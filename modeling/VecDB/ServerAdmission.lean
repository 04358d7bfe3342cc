import VecDB.RateLimiterFairness
import VecDB.ServerRuns
import Mathlib.Tactic

/-!
# Who is served

Every call of the gRPC service passes the gate first, and nothing that happens
behind the gate comes back to it: what is stored, what throws and what runs out
of memory leaves the tokens and the buckets alone.  So the server is a product
of two machines.  One decides from the contexts alone which calls are served,
and there every peer is on its own.  The other is the manager, and the calls
that are not served do not exist for it.
-/

namespace VecDB

open StateRules Running

/-! ## The other calls of the service -/

structure ShardInfo where
  shardId : ℕ
  vectorCount : ℕ
  status : String
  deriving DecidableEq, Repr

structure InfoResponse where
  totalVectors : ℕ
  shardCount : ℕ
  dim : ℤ
  shards : List ShardInfo
  deriving DecidableEq, Repr

/-- How `Delete` ends, with what the response says about the vector. -/
inductive DeleteOutcome where
  | refused (status : Status)
  | unimplemented (message : String) (found : Bool)
  deriving DecidableEq, Repr

namespace VectorDBService

variable {dim : UInt32}

def delete (ctx : ServerContext) :
    EStateM Failure (Running (VectorDBService dim)) DeleteOutcome := do
  let gs ← compute fun svc => .ok (svc.gate ctx).1
  update fun svc => (svc.gate ctx).2
  if gs.isOk = false then return .refused gs
  return .unimplemented "Delete is not yet implemented" false

def info (m : ShardManager dim) : InfoResponse where
  totalVectors := m.totalVectors
  shardCount := m.shardCount.toNat
  dim := m.cfg.dim.toInt
  shards := (List.range m.shardCount.toNat).map fun s =>
    { shardId := s
      vectorCount := m.loadDistribution.getD s 0
      status := if m.shardHealthy s then "healthy" else "degraded" }

def getInfo (ctx : ServerContext) :
    EStateM Failure (Running (VectorDBService dim))
      (Status × Option InfoResponse) := do
  let gs ← compute fun svc => .ok (svc.gate ctx).1
  update fun svc => (svc.gate ctx).2
  if gs.isOk = false then return (gs, none)
  let resp ← compute fun svc => .ok (info svc.shardMgr)
  return (.ok, some resp)

end VectorDBService

/-- The calls that take vectors, and the two of the service that do not. -/
inductive ServiceCall where
  | vectors (call : ServerCall)
  | delete (ctx : ServerContext)
  | getInfo (ctx : ServerContext)

namespace ServiceCall

/-- The context of a gRPC call. -/
def context : ServiceCall → Option ServerContext
  | .vectors (.insert ctx _ _) => some ctx
  | .vectors (.bulkInsert ctx _) => some ctx
  | .vectors (.search ctx _ _) => some ctx
  | .vectors (.httpInsert _ _ _) => none
  | .vectors (.httpSearch _ _ _) => none
  | .delete ctx => some ctx
  | .getInfo ctx => some ctx

/-- The contexts of the gRPC calls. -/
def contexts (calls : List ServiceCall) : List ServerContext :=
  calls.filterMap context

end ServiceCall

namespace ServerRuntime

variable {dim : UInt32} {D : Type} [Preorder D] [DecidableLT D]
  (lib : ServerRuntime dim D)

def serveCall : ServiceCall →
    EStateM Failure (Running (VectorDBService dim)) Unit
  | .vectors call => lib.serve call
  | .delete ctx => do
      let _ ← VectorDBService.delete ctx
  | .getInfo ctx => do
      let _ ← VectorDBService.getInfo ctx

def serveCalls (calls : List ServiceCall)
    (s : Running (VectorDBService dim)) : Running (VectorDBService dim) :=
  calls.foldl (fun s call => after (lib.serveCall call) s) s

/-- What the gate answers to the gRPC calls of a run. -/
def decisions : List ServiceCall → Running (VectorDBService dim) →
    List (ServerContext × Status)
  | [], _ => []
  | call :: calls, s =>
      (call.context.map fun ctx => (ctx, (s.obj.gate ctx).1)).toList ++
        decisions calls (after (lib.serveCall call) s)

/-- Whether a call comes past the gate; those of the HTTP API have none. -/
def Admitted (svc : VectorDBService dim) (call : ServiceCall) : Prop :=
  ∀ ctx ∈ call.context, (svc.gate ctx).1.isOk = true

instance (svc : VectorDBService dim) (call : ServiceCall) :
    Decidable (Admitted svc call) :=
  inferInstanceAs
    (Decidable (∀ ctx ∈ call.context, (svc.gate ctx).1.isOk = true))

/-- The calls of a run that come past the gate. -/
def admittedCalls : List ServiceCall → Running (VectorDBService dim) →
    List ServiceCall
  | [], _ => []
  | call :: calls, s =>
      (if Admitted s.obj call then [call] else []) ++
        admittedCalls calls (after (lib.serveCall call) s)

/-! ## Both sides of the gate -/

/-- What a call does once it is admitted. -/
def manage : ServiceCall → EStateM Failure (Running (ShardManager dim)) Unit
  | .vectors (.insert _ os req) =>
      match VectorDBService.decodeVector dim req.vector with
      | none => return
      | some vec => do
          request
          let _ ← ShardManager.tryInsert os lib.rt req.vectorId vec
  | .vectors (.bulkInsert _ msgs) => do
      let _ ← VectorDBService.bulkLoop lib.rt msgs VectorDBService.noCounts
  | .vectors (.search _ throws req) =>
      if req.topK ≤ 0 then return
      else
        match VectorDBService.decodeVector dim req.query with
        | none => return
        | some query => do
            let _ ← answered fun m => m.search lib.rt lib.partialSorter query
              req.topK req.efSearch throws
  | .vectors (.httpInsert os us body) => do
      let _ ← HttpApi.handleInsert lib.convert os lib.rt us body
  | .vectors (.httpSearch throws us body) => do
      let _ ← answered (HttpApi.handleSearch lib.convert lib.rt
        lib.partialSorter throws lib.distanceText us body)
  | .delete _ => return
  | .getInfo _ => return

/-- The manager behind the calls, none of which is refused. -/
def manageAll (calls : List ServiceCall) (t : Running (ShardManager dim)) :
    Running (ShardManager dim) :=
  calls.foldl (fun t call => after (lib.manage call) t) t

end ServerRuntime

section Gate

/-- The decision of the gate, which sees the tokens and the buckets only. -/
def screen (auth : AuthMiddleware) (ctx : ServerContext) (rl : RateLimiter) :
    Status × RateLimiter :=
  if (auth.check ctx.authorization).isOk = false then
    (auth.check ctx.authorization, rl)
  else rl.check ctx.now ctx.peer

def screenAll (auth : AuthMiddleware) :
    List ServerContext → RateLimiter → List (ServerContext × Status)
  | [], _ => []
  | ctx :: ctxs, rl =>
      (ctx, (screen auth ctx rl).1) :: screenAll auth ctxs (screen auth ctx rl).2

/-- The limiter behind the requests. -/
def screened (auth : AuthMiddleware) (ctxs : List ServerContext)
    (rl : RateLimiter) : RateLimiter :=
  ctxs.foldl (fun rl ctx => (screen auth ctx rl).2) rl

/-- What the limiter sees of a request. -/
def ServerContext.call (ctx : ServerContext) : RateLimiter.Call :=
  ⟨ctx.now, ctx.peer⟩

end Gate

/-! ## One call -/

namespace VectorDBService

variable {dim : UInt32}

def managed (s : Running (VectorDBService dim)) : Running (ShardManager dim) :=
  ⟨s.obj.shardMgr, s.memory⟩

/-- The service on another manager. -/
def on (svc : VectorDBService dim) (t : Running (ShardManager dim)) :
    Running (VectorDBService dim) :=
  ⟨{ svc with shardMgr := t.obj }, t.memory⟩

@[simp] theorem on_managed (s : Running (VectorDBService dim)) :
    s.obj.on (managed s) = s := rfl

@[simp] theorem managed_on (svc : VectorDBService dim)
    (t : Running (ShardManager dim)) : managed (svc.on t) = t := rfl

theorem gate_eq (ctx : ServerContext) (svc : VectorDBService dim) :
    svc.gate ctx = ((screen svc.auth ctx svc.rateLimiter).1,
      { svc with rateLimiter := (screen svc.auth ctx svc.rateLimiter).2 }) := by
  unfold gate screen
  dsimp only
  split_ifs with hauth
  · rfl
  · rfl

theorem after_onManager {α : Type}
    (x : EStateM Failure (Running (ShardManager dim)) α)
    (s : Running (VectorDBService dim)) :
    after (onManager x) s = s.obj.on (after x (managed s)) :=
  after_onPart

/-- A call on the manager behind the gate. -/
theorem after_gated {α : Type} {ctx : ServerContext} {refused : Status → α}
    {rest : Status → EStateM Failure (Running (VectorDBService dim)) α}
    {x : EStateM Failure (Running (ShardManager dim)) Unit}
    (hrest : ∀ gs t, after (rest gs) t = t.obj.on (after x (managed t)))
    (s : Running (VectorDBService dim)) :
    after (do
      let gs ← compute fun svc => .ok (svc.gate ctx).1
      update fun svc => (svc.gate ctx).2
      if gs.isOk = false then return refused gs
      rest gs) s =
        (s.obj.gate ctx).2.on (if (s.obj.gate ctx).1.isOk = true then
          after x (managed s) else managed s) := by
  have hmanaged : managed ⟨(s.obj.gate ctx).2, s.memory⟩ = managed s := by
    unfold managed
    rw [gate_shardMgr]
  rw [after_bind_of_ok (compute_run _ s), after_bind_of_ok (update_run _ s)]
  by_cases hgate : (s.obj.gate ctx).1.isOk = true
  · rw [if_neg (by simp [hgate]), if_pos hgate, hrest, hmanaged]
  · rw [if_pos (by simpa using hgate), if_neg hgate, ← hmanaged]
    rfl

theorem after_request {α : Type}
    (x : EStateM Failure (Running (ShardManager dim)) α) {β : Type}
    (f : α → β) (s : Running (VectorDBService dim)) :
    after (do
      request
      let a ← onManager x
      return f a) s =
        s.obj.on (after (do
          request
          let _ ← x) (managed s)) := by
  cases hmemory : s.memory 0 with
  | true =>
      have hservice : request.run s =
          .ok () { s with memory := fun i => s.memory (i + 1) } := by
        rw [request_run, if_pos hmemory]
      have hmanager : request.run (managed s) = .ok () { managed s with
          memory := fun i => s.memory (i + 1) } := by
        rw [request_run]
        exact if_pos hmemory
      rw [after_bind_of_ok hservice, after_bind_pure, after_onManager,
        after_bind_of_ok hmanager, after_bind_pure]
      rfl
  | false =>
      have hservice : request.run s = .error .badAlloc
          { s with memory := fun i => s.memory (i + 1) } := by
        rw [request_run, if_neg (by simp [hmemory])]
      have hmanager : request.run (managed s) = .error .badAlloc
          { managed s with memory := fun i => s.memory (i + 1) } := by
        rw [request_run]
        exact if_neg (by simp [managed, hmemory])
      rw [after_of_error (bind_of_error hservice),
        after_of_error (bind_of_error hmanager)]
      rfl

end VectorDBService

namespace ServerRuntime

open VectorDBService

variable {dim : UInt32} {D : Type} [Preorder D] [DecidableLT D]
  (lib : ServerRuntime dim D)

/-- What a search leaves, however it ends. -/
theorem after_search (ctx : ServerContext) (throws : ℕ → Bool)
    (req : SearchRequest) (s : Running (VectorDBService dim)) :
    after (lib.serve (.search ctx throws req)) s =
      (s.obj.gate ctx).2.on (if (s.obj.gate ctx).1.isOk = true then
        after (lib.manage (.vectors (.search ctx throws req))) (managed s)
        else managed s) := by
  have hmgr := gate_shardMgr ctx s.obj
  rw [serve, after_bind_pure, after_answered, manage, VectorDBService.search]
  generalize s.obj.gate ctx = gated at hmgr ⊢
  obtain ⟨gs, svc⟩ := gated
  have hstays : (⟨svc, s.memory⟩ : Running (VectorDBService dim)) =
      svc.on (managed s) := by
    unfold on managed
    rw [← hmgr]
  dsimp only at hmgr ⊢
  by_cases hgate : gs.isOk = true
  · rw [if_neg (by simp [hgate]), if_pos hgate]
    by_cases htopK : req.topK ≤ 0
    · rw [if_pos htopK, if_pos htopK]
      exact hstays
    · rw [if_neg htopK, if_neg htopK]
      cases decodeVector dim req.query with
      | none => exact hstays
      | some query =>
          dsimp only
          rw [after_bind_pure, after_answered, hmgr]
          rfl
  · rw [if_pos (by simpa using hgate), if_neg hgate]
    exact hstays

/-- The service as the gate leaves it. -/
def passed (call : ServiceCall) (svc : VectorDBService dim) :
    VectorDBService dim :=
  match call.context with
  | none => svc
  | some ctx => (svc.gate ctx).2

theorem after_insert (ctx : ServerContext) (os : OS) (req : InsertRequest)
    (s : Running (VectorDBService dim)) :
    after (lib.serve (.insert ctx os req)) s =
      (s.obj.gate ctx).2.on (if (s.obj.gate ctx).1.isOk = true then
        after (lib.manage (.vectors (.insert ctx os req))) (managed s)
        else managed s) := by
  rw [serve, after_bind_pure]
  refine after_gated (fun gs t => ?_) s
  rw [manage]
  cases decodeVector dim req.vector with
  | none => rfl
  | some vec => exact after_request _ _ t

/-- Every call is that of the manager behind the gate. -/
theorem after_serveCall (call : ServiceCall)
    (s : Running (VectorDBService dim)) :
    after (lib.serveCall call) s =
      (passed call s.obj).on (if Admitted s.obj call then
        after (lib.manage call) (managed s) else managed s) := by
  have hgated (ctx : ServerContext) (hctx : call.context = some ctx) :
      Admitted s.obj call ↔ (s.obj.gate ctx).1.isOk = true := by
    simp [Admitted, hctx]
  have hopen (hctx : call.context = none) : Admitted s.obj call := by
    simp [Admitted, hctx]
  cases call with
  | vectors call =>
      cases call with
      | insert ctx os req =>
          rw [if_congr (hgated ctx rfl) rfl rfl]
          exact lib.after_insert ctx os req s
      | bulkInsert ctx msgs =>
          rw [if_congr (hgated ctx rfl) rfl rfl, serveCall, serve,
            after_bind_pure]
          refine after_gated (fun gs t => ?_) s
          rw [after_bind_pure, after_onManager, manage, after_bind_pure]
      | search ctx throws req =>
          rw [if_congr (hgated ctx rfl) rfl rfl]
          exact lib.after_search ctx throws req s
      | httpInsert os us body =>
          rw [if_pos (hopen rfl), serveCall, serve, after_bind_pure,
            after_onManager, manage, after_bind_pure]
          rfl
      | httpSearch throws us body =>
          rw [if_pos (hopen rfl), serveCall, serve, after_bind_pure,
            after_onManager, manage, after_bind_pure]
          rfl
  | delete ctx =>
      rw [if_congr (hgated ctx rfl) rfl rfl, serveCall, after_bind_pure]
      exact after_gated (fun gs t => rfl) s
  | getInfo ctx =>
      rw [if_congr (hgated ctx rfl) rfl rfl, serveCall, after_bind_pure]
      refine after_gated (fun gs t => ?_) s
      rw [after_bind_pure, after_compute]
      rfl

/-! ## A run -/

theorem passed_eq (call : ServiceCall) (svc : VectorDBService dim) :
    passed call svc = { svc with
      rateLimiter := screened svc.auth call.context.toList
        svc.rateLimiter } := by
  unfold passed
  cases call.context with
  | none => rfl
  | some ctx =>
      dsimp only
      rw [gate_eq]
      rfl

theorem after_serveCall_auth (call : ServiceCall)
    (s : Running (VectorDBService dim)) :
    (after (lib.serveCall call) s).obj.auth = s.obj.auth := by
  rw [after_serveCall, passed_eq]
  rfl

theorem after_serveCall_rateLimiter (call : ServiceCall)
    (s : Running (VectorDBService dim)) :
    (after (lib.serveCall call) s).obj.rateLimiter =
      screened s.obj.auth call.context.toList s.obj.rateLimiter := by
  rw [after_serveCall, passed_eq]
  rfl

theorem contexts_cons (call : ServiceCall) (calls : List ServiceCall) :
    ServiceCall.contexts (call :: calls) =
      call.context.toList ++ ServiceCall.contexts calls := by
  unfold ServiceCall.contexts
  rw [List.filterMap_cons]
  cases call.context with
  | none => rfl
  | some ctx => rfl

/-- The gate decides without a look at what is behind it. -/
theorem decisions_eq (calls : List ServiceCall)
    (s : Running (VectorDBService dim)) :
    lib.decisions calls s = screenAll s.obj.auth (ServiceCall.contexts calls)
      s.obj.rateLimiter := by
  induction calls generalizing s with
  | nil => rfl
  | cons call calls ih =>
      rw [decisions, ih, after_serveCall_auth, after_serveCall_rateLimiter,
        contexts_cons]
      cases call.context with
      | none => rfl
      | some ctx =>
          dsimp only [Option.map_some, Option.toList_some, List.cons_append,
            List.nil_append]
          rw [screenAll, gate_eq]
          rfl

/-- The server behind any run is the manager behind the calls that the gate
admitted, and the limiter behind the requests that carried a token. -/
theorem serveCalls_eq (calls : List ServiceCall)
    (s : Running (VectorDBService dim)) :
    lib.serveCalls calls s =
      VectorDBService.on { s.obj with
        rateLimiter := screened s.obj.auth (ServiceCall.contexts calls)
          s.obj.rateLimiter }
        (lib.manageAll (lib.admittedCalls calls s) (managed s)) := by
  induction calls generalizing s with
  | nil => rfl
  | cons call calls ih =>
      have hnext : lib.serveCalls (call :: calls) s =
          lib.serveCalls calls (after (lib.serveCall call) s) := rfl
      have hlimiter : screened s.obj.auth
            (ServiceCall.contexts (call :: calls)) s.obj.rateLimiter =
          screened s.obj.auth (ServiceCall.contexts calls)
            (screened s.obj.auth call.context.toList s.obj.rateLimiter) := by
        rw [contexts_cons]
        exact List.foldl_append
      have hmanager : lib.manageAll (lib.admittedCalls (call :: calls) s)
            (managed s) =
          lib.manageAll (lib.admittedCalls calls
            (after (lib.serveCall call) s))
            (managed (after (lib.serveCall call) s)) := by
        rw [admittedCalls, manageAll, List.foldl_append]
        congr 1
        rw [after_serveCall, managed_on]
        split_ifs
        · rfl
        · rfl
      rw [hnext, ih, after_serveCall_auth, after_serveCall_rateLimiter,
        hlimiter, hmanager]
      rw [after_serveCall, passed_eq]
      rfl

end ServerRuntime

end VecDB
