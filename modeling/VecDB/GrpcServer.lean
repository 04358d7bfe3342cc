import VecDB.RateLimiter
import VecDB.ShardSearch
import Mathlib.Tactic

/-!
# The gRPC service

`AuthMiddleware`, and the `gate` and `Search` of `VectorDBServiceImpl`.  Only
the fields of a request that are read are part of it, and of a response all
but the latency.
-/

namespace VecDB

/-! ## Authentication -/

structure AuthMiddleware where
  tokens : List String
  disabled : Bool

namespace AuthMiddleware

def bearer : String := "Bearer "

def checkValue (value : String) (auth : AuthMiddleware) : Status :=
  if auth.disabled then .ok
  else if value.length ≤ bearer.length ∨
      value.toList.take bearer.length ≠ bearer.toList then
    ⟨.unauthenticated, "Authorization must use Bearer scheme"⟩
  else if String.ofList (value.toList.drop bearer.length) ∉ auth.tokens then
    ⟨.unauthenticated, "Invalid or expired token"⟩
  else .ok

/-- `authorization` is that entry of the metadata. -/
def check (authorization : Option String) (auth : AuthMiddleware) : Status :=
  if auth.disabled then .ok
  else
    match authorization with
    | none => ⟨.unauthenticated, "Missing authorization header"⟩
    | some value => auth.checkValue value

end AuthMiddleware

/-! ## Messages -/

/-- What the service reads of a `grpc::ServerContext`, and the clock. -/
structure ServerContext where
  authorization : Option String
  peer : String
  now : ℚ

structure SearchRequest where
  query : List UInt8
  topK : Int32
  efSearch : Int32

structure SearchResult (R : Type) where
  shardId : ℕ
  nodeId : ℕ
  distance : R
  deriving DecidableEq, Repr

structure SearchResponse (R : Type) where
  results : List (SearchResult R)
  degraded : Bool
  shardsOk : ℕ
  shardsErr : ℕ

/-! ## The service -/

structure VectorDBService (dim : UInt32) where
  shardMgr : ShardManager dim
  auth : AuthMiddleware
  rateLimiter : RateLimiter

namespace VectorDBService

variable {dim : UInt32} {D R : Type} [LT D] [DecidableLT D]

def gate (ctx : ServerContext) (svc : VectorDBService dim) :
    Status × VectorDBService dim :=
  let s := svc.auth.check ctx.authorization
  if s.isOk = false then (s, svc)
  else
    let (s, rateLimiter) := svc.rateLimiter.check ctx.now ctx.peer
    (s, { svc with rateLimiter := rateLimiter })

def decodeVector (dim : UInt32) (bytes : List UInt8) : Option (Vec dim) :=
  if bytes.length ≠ dim.toNat * 4 then none else some (Vec.ofBytes dim bytes)

def emptyResponse : SearchResponse R where
  results := []
  degraded := false
  shardsOk := 0
  shardsErr := 0

/-- The loop that fills the response. -/
def response (sqrt : D → R) (sr : ShardSearchResult D) : SearchResponse R where
  results := sr.results.map fun r =>
    { shardId := 0, nodeId := r.nodeId, distance := sqrt r.dist }
  degraded := sr.degraded
  shardsOk := sr.shardsOk
  shardsErr := sr.shardsErr

def search (rt : Runtime (Vec dim) D) (ps : PartialSorter (HNSWSearchResult D))
    (sqrt : D → R) (throws : ℕ → Bool) (ctx : ServerContext)
    (req : SearchRequest) (svc : VectorDBService dim) :
    Except Failure (Status × SearchResponse R) × VectorDBService dim :=
  let (gs, svc) := svc.gate ctx
  if gs.isOk = false then (.ok (gs, emptyResponse), svc)
  else if req.topK ≤ 0 then
    (.ok (⟨.invalidArgument, "top_k must be > 0"⟩, emptyResponse), svc)
  else
    match decodeVector dim req.query with
    | none => (.ok (⟨.invalidArgument,
        "query bytes size must be dim * 4 (float32)"⟩, emptyResponse), svc)
    | some query =>
        let (sr, shardMgr) := svc.shardMgr.search rt ps query req.topK
          req.efSearch throws
        (sr.map fun sr => (.ok, response sqrt sr),
          { svc with shardMgr := shardMgr })

theorem gate_shardMgr (ctx : ServerContext) (svc : VectorDBService dim) :
    (svc.gate ctx).2.shardMgr = svc.shardMgr := by
  unfold gate
  dsimp only
  split_ifs
  · rfl
  · rfl

/-- The answer to an accepted request comes from a search of all shards. -/
theorem search_accepted {rt : Runtime (Vec dim) D}
    {ps : PartialSorter (HNSWSearchResult D)} {sqrt : D → R}
    {throws : ℕ → Bool} {ctx : ServerContext} {req : SearchRequest}
    {svc svc' : VectorDBService dim} {status : Status}
    {resp : SearchResponse R}
    (hok : svc.search rt ps sqrt throws ctx req = (.ok (status, resp), svc'))
    (hstatus : status.isOk = true) :
    0 < req.topK.toInt ∧
      ∃ query sr m, decodeVector dim req.query = some query ∧
        svc.shardMgr.search rt ps query req.topK req.efSearch throws =
          (.ok sr, m) ∧ resp = response sqrt sr ∧ svc'.shardMgr = m := by
  have hmgr := gate_shardMgr ctx svc
  unfold search at hok
  generalize svc.gate ctx = gated at hok hmgr
  obtain ⟨gs, svc₁⟩ := gated
  dsimp only at hok hmgr
  split_ifs at hok with hgate htopK
  · cases hok
    rw [hgate] at hstatus
    cases hstatus
  · cases hok
    cases hstatus
  · cases hdecode : decodeVector dim req.query with
    | none =>
        rw [hdecode] at hok
        cases hok
        cases hstatus
    | some query =>
        rw [hdecode] at hok
        dsimp only at hok
        rw [hmgr] at hok
        generalize hsearch : svc.shardMgr.search rt ps query req.topK
          req.efSearch throws = searched at hok
        obtain ⟨merged, m⟩ := searched
        cases merged with
        | error e => cases hok
        | ok sr =>
            cases hok
            refine ⟨?_, query, sr, m, rfl, hsearch, rfl, rfl⟩
            rw [Int32.le_iff_toInt_le] at htopK
            exact not_le.mp htopK

theorem search_open (rt : Runtime (Vec dim) D)
    (ps : PartialSorter (HNSWSearchResult D)) (sqrt : D → R)
    (throws : ℕ → Bool) (ctx : ServerContext) {req : SearchRequest}
    (svc : VectorDBService dim) (hauth : svc.auth.disabled = true)
    (hlimit : svc.rateLimiter.disabled = true) (htopK : 0 < req.topK.toInt)
    (hquery : req.query.length = dim.toNat * 4)
    (hcounts : CountsEnough (svc.shardMgr.partials rt
      (Vec.ofBytes dim req.query) req.topK req.efSearch throws) req.topK) :
    ∃ resp svc', svc.search rt ps sqrt throws ctx req =
      (.ok (.ok, resp), svc') := by
  have hgate : svc.gate ctx = (.ok, svc) := by
    simp [gate, AuthMiddleware.check, RateLimiter.check, hauth, hlimit,
      Status.isOk, Status.ok]
  have hpositive : ¬ req.topK ≤ 0 := by
    rw [Int32.le_iff_toInt_le]
    exact not_le.mpr htopK
  have hdecode : decodeVector dim req.query = some (Vec.ofBytes dim req.query) :=
    if_neg (not_not.mpr hquery)
  obtain ⟨sr, hsearch⟩ := ShardManager.search_ok rt ps htopK.le hcounts
  unfold search
  rw [hgate]
  dsimp only
  rw [if_neg (by simp [Status.isOk, Status.ok]), if_neg hpositive, hdecode]
  dsimp only
  rw [hsearch]
  exact ⟨_, _, rfl⟩

end VectorDBService

end VecDB
