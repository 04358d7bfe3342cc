import VecDB.HttpArrays
import VecDB.ServerAdmission
import VecDB.ShardRouting
import Mathlib.Tactic

/-!
# The rate of a peer

Buckets belong to peers, and behind a proxy or a port a peer is whoever sends
from there.  Whatever the others do, a peer is answered as if it were alone with
the server, and it is served throughout if and only if its tokens are good and
it keeps to the rate.
-/

namespace VecDB

open RateLimiter Running Deployment

section Screen

variable {auth : AuthMiddleware} {peer : String} {rl rl' : RateLimiter}

/-- The requests of a peer. -/
def ownContexts (peer : String) (ctxs : List ServerContext) :
    List ServerContext :=
  ctxs.filter fun ctx => decide (ctx.peer = peer)

/-- The answers to a peer. -/
def ownDecisions (peer : String) (answers : List (ServerContext × Status)) :
    List (ServerContext × Status) :=
  answers.filter fun (ctx, _) => decide (ctx.peer = peer)

theorem sameFor_screen (auth : AuthMiddleware)
    (h : SameFor peer rl rl') {ctx : ServerContext} (hpeer : ctx.peer = peer) :
    (screen auth ctx rl).1 = (screen auth ctx rl').1 ∧
      SameFor peer (screen auth ctx rl).2 (screen auth ctx rl').2 := by
  subst hpeer
  unfold screen
  split_ifs
  · exact ⟨rfl, h⟩
  · exact h.check ctx.now

theorem sameFor_screen_of_ne (auth : AuthMiddleware)
    (h : SameFor peer rl rl') {ctx : ServerContext}
    (hpeer : ctx.peer ≠ peer) :
    SameFor peer (screen auth ctx rl).2 rl' := by
  unfold screen
  split_ifs
  · exact h
  · exact h.check_of_ne (Ne.symm hpeer) ctx.now

/-- A peer is answered as if its requests were the only ones. -/
theorem ownDecisions_screenAll (h : SameFor peer rl rl')
    (ctxs : List ServerContext) :
    ownDecisions peer (screenAll auth ctxs rl) =
      screenAll auth (ownContexts peer ctxs) rl' := by
  induction ctxs generalizing rl rl' with
  | nil => rfl
  | cons ctx ctxs ih =>
      unfold ownDecisions ownContexts at ih ⊢
      rw [screenAll]
      by_cases hpeer : ctx.peer = peer
      · obtain ⟨hstatus, hnext⟩ := sameFor_screen auth h hpeer
        rw [List.filter_cons_of_pos (by simpa using hpeer),
          List.filter_cons_of_pos (by simpa using hpeer), screenAll, hstatus,
          ih hnext]
      · rw [List.filter_cons_of_neg (by simpa using hpeer),
          List.filter_cons_of_neg (by simpa using hpeer),
          ih (sameFor_screen_of_ne auth h hpeer)]

/-- The requests with a good token. -/
def authentic (auth : AuthMiddleware) (ctxs : List ServerContext) :
    List ServerContext :=
  ctxs.filter fun ctx => (auth.check ctx.authorization).isOk

theorem authentic_cons_of_ok {ctx : ServerContext}
    (hctx : (auth.check ctx.authorization).isOk = true)
    (ctxs : List ServerContext) :
    authentic auth (ctx :: ctxs) = ctx :: authentic auth ctxs :=
  List.filter_cons_of_pos (p := fun ctx : ServerContext =>
    (auth.check ctx.authorization).isOk) hctx

theorem authentic_cons_of_refused {ctx : ServerContext}
    (hctx : ¬ (auth.check ctx.authorization).isOk = true)
    (ctxs : List ServerContext) :
    authentic auth (ctx :: ctxs) = authentic auth ctxs :=
  List.filter_cons_of_neg (p := fun ctx : ServerContext =>
    (auth.check ctx.authorization).isOk) hctx

/-- Only the requests with a good token reach the limiter. -/
theorem forall_screenAll_iff (auth : AuthMiddleware) (peer : String)
    (ctxs : List ServerContext) (rl : RateLimiter) :
    (∀ x ∈ screenAll auth ctxs rl, x.1.peer = peer → x.2.isOk = true) ↔
      (∀ ctx ∈ ctxs, ctx.peer = peer →
        (auth.check ctx.authorization).isOk = true) ∧
        NeverRejected peer ((authentic auth ctxs).map ServerContext.call)
          rl := by
  induction ctxs generalizing rl with
  | nil => simp [screenAll, authentic, neverRejected_nil]
  | cons ctx ctxs ih =>
      rw [screenAll, List.forall_mem_cons, List.forall_mem_cons, ih]
      unfold screen
      by_cases hauth : (auth.check ctx.authorization).isOk = true
      · rw [if_neg (by simp [hauth]), authentic_cons_of_ok hauth,
          List.map_cons, neverRejected_cons]
        simp only [hauth, ServerContext.call]
        tauto
      · rw [if_pos (by simpa using hauth),
          authentic_cons_of_refused hauth]
        simp only [hauth]
        tauto

theorem made_authentic (start stop : ℚ) {ctxs : List ServerContext}
    (hauth : ∀ ctx ∈ ctxs, ctx.peer = peer →
      (auth.check ctx.authorization).isOk = true) :
    made peer start stop ((authentic auth ctxs).map ServerContext.call) =
      made peer start stop (ctxs.map ServerContext.call) := by
  induction ctxs with
  | nil => rfl
  | cons ctx ctxs ih =>
      obtain ⟨hctx, hrest⟩ := List.forall_mem_cons.mp hauth
      rw [List.map_cons, made_cons, ← ih hrest]
      by_cases hgood : (auth.check ctx.authorization).isOk = true
      · rw [authentic_cons_of_ok hgood, List.map_cons, made_cons]
      · have hother : ctx.call.clientId ≠ peer := fun h => hgood (hctx h)
        rw [authentic_cons_of_refused hgood, if_neg (fun h => hother h.1),
          Nat.zero_add]

end Screen

namespace ServerRuntime

variable {dim : UInt32} {D : Type} [Preorder D] [DecidableLT D]

/-- Two runs of two servers in which a peer sends the same requests, with
anything else in between, anything stored and anything that fails. -/
theorem peer_isolated {lib lib' : ServerRuntime dim D}
    {calls calls' : List ServiceCall}
    {s s' : Running (VectorDBService dim)} {peer : String}
    (hauth : s.obj.auth = s'.obj.auth)
    (hbucket : SameFor peer s.obj.rateLimiter s'.obj.rateLimiter)
    (hown : ownContexts peer (ServiceCall.contexts calls) =
      ownContexts peer (ServiceCall.contexts calls')) :
    ownDecisions peer (lib.decisions calls s) =
      ownDecisions peer (lib'.decisions calls' s') := by
  rw [decisions_eq, decisions_eq, ownDecisions_screenAll hbucket, hauth, hown,
    ownDecisions_screenAll (SameFor.refl peer s'.obj.rateLimiter)]

/-- A peer of a server that starts is served at every request if and only if
all of them carry a good token, and no window has more of them than a full
bucket and the refill during the window pay for. -/
theorem peer_served_iff (lib : ServerRuntime dim D) {capacity rate : ℚ}
    (hcapacity : 1 ≤ capacity) (hrate : 0 ≤ rate) {calls : List ServiceCall}
    {s : Running (VectorDBService dim)}
    (hfresh : s.obj.rateLimiter = .new capacity rate)
    (hclock : (ServiceCall.contexts calls).Pairwise
      fun ctx next => ctx.now ≤ next.now) (peer : String) :
    (∀ x ∈ lib.decisions calls s, x.1.peer = peer → x.2.isOk = true) ↔
      (∀ ctx ∈ ServiceCall.contexts calls, ctx.peer = peer →
        (s.obj.auth.check ctx.authorization).isOk = true) ∧
        WithinRate capacity rate peer
          ((ServiceCall.contexts calls).map ServerContext.call) := by
  have hclocked : Clocked ((authentic s.obj.auth
      (ServiceCall.contexts calls)).map ServerContext.call) :=
    List.pairwise_map.mpr (hclock.sublist List.filter_sublist)
  rw [decisions_eq, forall_screenAll_iff, hfresh,
    neverRejected_iff_withinRate hcapacity hrate hclocked]
  apply and_congr_right
  intro hauth
  unfold WithinRate
  simp only [made_authentic _ _ hauth]

/-! ## A peer and another -/

def lineServer : ServerRuntime oneShard.Dim ℕ where
  rt := oneShard.rt
  partialSorter := (Sorter.insertion _).front
  sqrt := id
  convert := HttpApi.digitFloat
  distanceText := toString

/-- A service with one token, and two requests at once. -/
def guarded (m : ShardManager oneShard.Dim) : VectorDBService oneShard.Dim where
  shardMgr := m
  auth := { tokens := ["t"], disabled := false }
  rateLimiter := .new 2 1

def fromPeer (peer : String) (now : ℚ) : ServerContext where
  authorization := some "Bearer t"
  peer := peer
  now := now

/-- The first peer asks, deletes and inserts between requests of a second. -/
def mixedCalls : List ServiceCall :=
  [.getInfo (fromPeer "a" 0), .delete (fromPeer "b" 0),
    .delete (fromPeer "a" 0), .getInfo (fromPeer "b" 1),
    .vectors (.insert (fromPeer "a" 1) OS.reliable ⟨7, [1, 0, 0, 0]⟩)]

def aloneCalls : List ServiceCall :=
  [.delete (fromPeer "a" 0), .delete (fromPeer "a" 0),
    .getInfo (fromPeer "a" 1)]

theorem peer_isolated_oneShard : ∃ m,
    oneShard.start OS.reliable (fun _ i => i) (fun _ => ShardState.noFiles) =
      .ok m ∧
    ownDecisions "a" (lineServer.decisions mixedCalls ⟨guarded m, ample⟩) =
      ownDecisions "a"
        (lineServer.decisions aloneCalls ⟨guarded m, fun _ => false⟩) := by
  obtain ⟨m, hstart⟩ := Deployment.oneShard_start fun _ i => i
  refine ⟨m, hstart, peer_isolated rfl (SameFor.refl "a" _) ?_⟩
  rfl

theorem contexts_mixedCalls : ServiceCall.contexts mixedCalls =
    [fromPeer "a" 0, fromPeer "b" 0, fromPeer "a" 0, fromPeer "b" 1,
      fromPeer "a" 1] := rfl

theorem peer_served_iff_oneShard : ∃ m,
    oneShard.start OS.reliable (fun _ i => i) (fun _ => ShardState.noFiles) =
      .ok m ∧
    ∀ x ∈ lineServer.decisions mixedCalls ⟨guarded m, ample⟩,
      x.1.peer = "b" → x.2.isOk = true := by
  obtain ⟨m, hstart⟩ := Deployment.oneShard_start fun _ i => i
  have hgood : ((⟨["t"], false⟩ : AuthMiddleware).check
      (some "Bearer t")).isOk = true := by decide
  have hclock : (ServiceCall.contexts mixedCalls).Pairwise
      fun ctx next => ctx.now ≤ next.now := by
    rw [contexts_mixedCalls]
    norm_num [fromPeer]
  refine ⟨m, hstart, (peer_served_iff lineServer (by norm_num : (1 : ℚ) ≤ 2)
    (by norm_num : (0 : ℚ) ≤ 1) (s := ⟨guarded m, ample⟩) rfl hclock
    "b").mpr ⟨?_, ?_⟩⟩
  · intro ctx hctx _
    rw [contexts_mixedCalls] at hctx
    have hbearer : ctx.authorization = some "Bearer t" := by
      fin_cases hctx <;> rfl
    rw [hbearer]
    exact hgood
  · intro start stop hwindow
    -- two requests are no more than a full bucket
    have htwo : made "b" start stop
        ((ServiceCall.contexts mixedCalls).map ServerContext.call) ≤ 2 :=
      made_le "b" start stop _
    have hcast : (made "b" start stop ((ServiceCall.contexts
        mixedCalls).map ServerContext.call) : ℚ) ≤ 2 := by
      exact_mod_cast htwo
    linarith

end ServerRuntime

end VecDB
