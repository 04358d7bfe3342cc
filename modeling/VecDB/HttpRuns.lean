import VecDB.PartialRequests
import VecDB.ShardIndexes
import Mathlib.Tactic

/-!
# The HTTP server

The accept loop of `HttpApiServer::run` takes one client after the other.  Each
request asks the manager for an insert, for a search or for nothing, so a run of
the server is a run of the manager, whatever the clients send.  No request makes
the server fail while the shards have room.
-/

namespace VecDB

open StateRules Running

namespace HttpApiServer

open HttpApi

/-! ## The accept loop -/

/-- What `recv` returns of a request, and what the request meets. -/
structure Client where
  ctx : RequestContext
  received : List Char

instance (path : String) (req : List Char) : Decidable (PostsTo path req) :=
  inferInstanceAs (Decidable (_ ∧ _))

variable {dim : UInt32} {D : Type} [Preorder D] [DecidableLT D]
  (lib : ServerRuntime dim D) (floatText : UInt32 → String)

def serveClients : List Client →
    EStateM Failure (Running (HttpApiServer dim)) (List (Option String))
  | [] => return []
  | client :: clients => do
      let response ← handleClient lib client.ctx floatText client.received
      let responses ← serveClients clients
      return response :: responses

/-! ## What a client asks for -/

/-- An insert or a search of the manager, and its record. -/
abbrev Asked (dim : UInt32) := Deployment.Event dim × MetricsCall

def askedSearch (client : Client) : Option (Asked dim) :=
  match readVector lib.convert dim "query" (parseBody client.received) with
  | .error _ => none
  | .ok query => some
      (.search (.search query (searchTopK (parseBody client.received)) 0
        client.ctx.throws),
        .recordSearch (UInt64.ofNat client.ctx.us))

def askedInsert (client : Client) (m : ShardManager dim) :
    Option (Asked dim) :=
  match readVector lib.convert dim "vector" (parseBody client.received) with
  | .error _ => none
  | .ok vec => some
      (.call (.insert (insertId (parseBody client.received) m).toUInt64 vec),
        .recordInsert (UInt64.ofNat client.ctx.us))

def asks (client : Client) (m : ShardManager dim) : Option (Asked dim) :=
  if PostsTo "/api/search" client.received then askedSearch lib client
  else if PostsTo "/api/insert" client.received then
    askedInsert lib client m
  else none

/-- What the clients of a run ask for. -/
def askedAll : List Client → Running (HttpApiServer dim) → List (Asked dim)
  | [], _ => []
  | client :: clients, s =>
      (asks lib client s.obj.mgr).toList ++ askedAll clients
        (after (handleClient lib client.ctx floatText client.received) s)

/-! ## One client -/

section Requests

variable {lib floatText} {ctx : RequestContext} {req : List Char}
  {s : Running (HttpApiServer dim)} {text : String}
  {t : Running (ShardManager dim)}

theorem recorded_of_ok {x : EStateM Failure (Running (ShardManager dim)) String}
    (hx : x.run ⟨s.obj.mgr, s.memory⟩ = .ok text t) (accepted : Bool)
    (record : MetricsStore → MetricsStore) :
    (recorded accepted record x).run s = .ok text
      ⟨⟨t.obj, if accepted = true then record s.obj.metrics
        else s.obj.metrics⟩, t.memory⟩ := by
  have hmanager : (onManager x).run s =
      .ok text ⟨{ s.obj with mgr := t.obj }, t.memory⟩ := onPart_of_ok hx
  unfold recorded
  rw [bind_of_ok hmanager]
  cases accepted with
  | true => rfl
  | false => rfl

theorem respond_of_ok {x : EStateM Failure (Running (HttpApiServer dim)) String}
    {s' : Running (HttpApiServer dim)} (hx : x.run s = .ok text s') :
    (respond x).run s = .ok (okResponse text) s' := by
  unfold respond
  rw [bind_of_ok hx]
  rfl

theorem searchManager_of_refused {body : List Char} {refusal : String}
    {r : Running (ShardManager dim)}
    (hread : readVector lib.convert dim "query" body = .error refusal) :
    (searchManager lib ctx body).run r = .ok refusal r := by
  unfold searchManager
  rw [answered_run]
  unfold HttpApi.handleSearch
  rw [hread]

/-- A search is answered if the merge ends, and marks the shards anyway. -/
theorem searchManager_run {body : List Char} {query : Vec dim}
    {r : Running (ShardManager dim)}
    (hread : readVector lib.convert dim "query" body = .ok query) :
    (searchManager lib ctx body).run r =
      match r.obj.search lib.rt lib.partialSorter query (searchTopK body) 0
        ctx.throws with
      | (.ok sr, m) =>
          .ok (searchText lib.distanceText ctx.us sr) ⟨m, r.memory⟩
      | (.error e, m) => .error e ⟨m, r.memory⟩ := by
  unfold searchManager
  rw [answered_run]
  unfold HttpApi.handleSearch
  rw [hread]
  dsimp only
  generalize r.obj.search lib.rt lib.partialSorter query (searchTopK body) 0
    ctx.throws = out
  obtain ⟨merged, m⟩ := out
  cases merged with
  | ok sr => rfl
  | error e => rfl

theorem searchManager_of_ok {body : List Char} {query : Vec dim}
    {sr : ShardSearchResult D} {m : ShardManager dim}
    {r : Running (ShardManager dim)}
    (hread : readVector lib.convert dim "query" body = .ok query)
    (hsearch : r.obj.search lib.rt lib.partialSorter query (searchTopK body) 0
      ctx.throws = (.ok sr, m)) :
    (searchManager lib ctx body).run r =
      .ok (searchText lib.distanceText ctx.us sr) ⟨m, r.memory⟩ := by
  rw [searchManager_run hread, hsearch]

theorem searchManager_eq_ok {body : List Char} {query : Vec dim}
    {text : String} {r r' : Running (ShardManager dim)}
    (hread : readVector lib.convert dim "query" body = .ok query)
    (hrun : (searchManager lib ctx body).run r = .ok text r') :
    ∃ sr, r.obj.search lib.rt lib.partialSorter query (searchTopK body) 0
        ctx.throws = (.ok sr, r'.obj) ∧ r'.memory = r.memory ∧
      text = searchText lib.distanceText ctx.us sr := by
  rw [searchManager_run hread] at hrun
  generalize r.obj.search lib.rt lib.partialSorter query (searchTopK body) 0
    ctx.throws = out at hrun
  obtain ⟨merged, m⟩ := out
  cases merged with
  | ok sr =>
      obtain ⟨rfl, rfl⟩ := EStateM.Result.ok.inj hrun
      exact ⟨sr, rfl, rfl, rfl⟩
  | error e => cases hrun

theorem handleRequest_of_search (h : PostsTo "/api/search" req) :
    handleRequest lib ctx floatText req =
      respond (handleSearch lib ctx (parseBody req)) := by
  obtain ⟨hpath, hmethod⟩ := h
  unfold handleRequest
  dsimp only
  rw [hpath, hmethod, if_neg (by decide), if_neg (by decide),
    if_neg (by decide), if_neg (by decide), if_pos ⟨rfl, rfl⟩]

theorem handleRequest_of_insert (h : PostsTo "/api/insert" req) :
    handleRequest lib ctx floatText req =
      respond (handleInsert lib ctx (parseBody req)) := by
  obtain ⟨hpath, hmethod⟩ := h
  unfold handleRequest
  dsimp only
  rw [hpath, hmethod, if_neg (by decide), if_neg (by decide),
    if_neg (by decide), if_neg (by decide), if_neg (by decide),
    if_pos ⟨rfl, rfl⟩]

/-- The inspector refuses what it cannot describe. -/
theorem handleNode_ok {m : ShardManager dim} (hm : Inspectable m)
    (floatText : UInt32 → String) (qstr : List Char) :
    ∃ text, handleNode floatText qstr m = .ok text := by
  rw [handleNode_eq]
  unfold inspectQuery
  dsimp only
  split_ifs with hid
  · exact ⟨_, rfl⟩
  · cases stoul (parseQueryParam qstr "id") with
    | none => exact ⟨_, rfl⟩
    | some n =>
        dsimp only
        have hanswers : Answers floatText m (shardParam qstr)
            n.toUInt32.toNat (render floatText
              (inspect m (shardParam qstr) n.toUInt32.toNat)) :=
          inspect_answers hm _ _
        generalize render floatText (inspect m (shardParam qstr)
          n.toUInt32.toNat) = answer at hanswers ⊢
        cases hanswers with
        | refused error _ => exact ⟨_, rfl⟩
        | described _ _ _ => exact ⟨_, rfl⟩

/-- The other requests are answered and change nothing. -/
theorem handleRequest_of_other (hm : Inspectable s.obj.mgr)
    (hsearch : ¬ PostsTo "/api/search" req)
    (hinsert : ¬ PostsTo "/api/insert" req) :
    ∃ text, (handleRequest lib ctx floatText req).run s = .ok text s := by
  unfold handleRequest
  dsimp only
  rw [if_neg (c := _ ∧ _) hsearch, if_neg (c := _ ∧ _) hinsert]
  split_ifs
  · exact ⟨_, rfl⟩
  · exact ⟨_, rfl⟩
  · exact ⟨_, respond_of_ok (compute_run _ s)⟩
  · exact ⟨_, respond_of_ok (compute_run _ s)⟩
  · obtain ⟨text, htext⟩ := handleNode_ok hm floatText (parseQuery req)
    exact ⟨_, respond_of_ok (compute_eq_ok.mpr ⟨htext, rfl⟩)⟩
  · exact ⟨_, rfl⟩

end Requests

end HttpApiServer

/-! ## The server on a deployment -/

namespace Deployment

open HttpApi HttpApiServer LoggedStore

variable {D : Type} [Preorder D] [DecidableLT D] {dep : Deployment D}
  {ring : ConsistentHashRing} {states : ℕ → Stored dep.Dim}
  {m : ShardManager dep.Dim} {lib : ServerRuntime dep.Dim D}
  {floatText : UInt32 → String} {client : Client} {metrics : MetricsStore}

/-- Every shard has room for so many vectors more. -/
def Rooms (dep : Deployment D) (states : ℕ → Stored dep.Dim) (count : ℕ) :
    Prop :=
  ∀ s, (states s).log.length + count ≤ 2 ^ 33 ∧
    HNSWIndex.Storable dep.cfg ((states s).live.length + count)

/-- The shards after what a client asked for. -/
def askedStates (ring : ConsistentHashRing) (asked : List (Asked dep.Dim))
    (states : ℕ → Stored dep.Dim) (s : ℕ) : Stored dep.Dim :=
  serve 1000 Prod.snd
    (requests ring s ((asked.map Prod.fst).filterMap Event.op?)) (states s)

/-- How many of the clients post an insert. -/
def inserting (clients : List Client) : ℕ :=
  clients.countP fun client => decide (PostsTo "/api/insert" client.received)

theorem askedStates_search (ring : ConsistentHashRing)
    (states : ℕ → Stored dep.Dim) (s : ℕ) :
    askedStates ring (askedSearch lib client).toList states s = states s := by
  unfold askedSearch askedStates
  split
  · rfl
  · rfl

theorem askedStates_insert (lib : ServerRuntime dep.Dim D) (client : Client)
    (ring : ConsistentHashRing) (states : ℕ → Stored dep.Dim)
    (m : ShardManager dep.Dim) (s : ℕ) :
    (askedStates ring (askedInsert lib client m).toList states s).log.length ≤
        (states s).log.length + 1 ∧
      (askedStates ring (askedInsert lib client m).toList states
        s).live.length ≤ (states s).live.length + 1 := by
  unfold askedInsert askedStates
  split
  · exact ⟨Nat.le_succ _, Nat.le_succ _⟩
  · rename_i vec _
    by_cases hs : ring.getShard (insertId (parseBody client.received)
        m).toUInt64 = .ok s
    · simp [Event.op?, requests, request, hs, add]
    · simp [Event.op?, requests, request, hs]

theorem inserting_cons (client : Client) (clients : List Client) :
    inserting (client :: clients) =
      (if PostsTo "/api/insert" client.received then 1 else 0) +
        inserting clients := by
  unfold inserting
  rw [List.countP_cons, Nat.add_comm]
  simp

theorem Rooms.asked {clients : List Client}
    (hrooms : Rooms dep states (inserting (client :: clients)))
    (ring : ConsistentHashRing) (m : ShardManager dep.Dim) :
    Rooms dep (askedStates ring (HttpApiServer.asks lib client m).toList
      states) (inserting clients) := by
  intro s
  obtain ⟨hlog, hstorable⟩ := hrooms s
  rw [inserting_cons] at hlog hstorable
  unfold HttpApiServer.asks
  by_cases hsearch : PostsTo "/api/search" client.received
  · rw [if_pos hsearch, askedStates_search]
    exact ⟨by omega, hstorable.mono (by omega)⟩
  · by_cases hinsert : PostsTo "/api/insert" client.received
    · rw [if_pos hinsert] at hlog hstorable
      rw [if_neg hsearch, if_pos hinsert]
      obtain ⟨hlog', hlive'⟩ := askedStates_insert lib client ring states m s
      exact ⟨by omega, hstorable.mono (by omega)⟩
    · have hsame : askedStates ring (none : Option (Asked dep.Dim)).toList
          states s = states s := rfl
      rw [if_neg hsearch, if_neg hinsert, hsame]
      exact ⟨by omega, hstorable.mono (by omega)⟩

theorem eventRun_search {os : OS} {ps : PartialSorter (HNSWSearchResult D)}
    {query : Vec dep.Dim} {topK ef : Int32} {throws : ℕ → Bool}
    {sr : ShardSearchResult D} {m' : ShardManager dep.Dim}
    (hsearch : m.search dep.rt ps query topK ef throws = (.ok sr, m')) :
    dep.eventRun os ps [.search (.search query topK ef throws)] m =
      .ok m' := by
  have hstep : dep.eventStep os ps (.search (.search query topK ef throws))
      m = .ok m' := by
    rw [eventStep, ShardManager.searchStep, hsearch]
    rfl
  rw [eventRun, hstep]
  rfl

theorem eventRun_insert {os : OS} {ps : PartialSorter (HNSWSearchResult D)}
    {vectorId : UInt64} {vec : Vec dep.Dim} {out : ℕ × ℕ}
    {m' : ShardManager dep.Dim}
    (hinsert : m.insert os dep.rt vectorId vec = .ok (out, m')) :
    dep.eventRun os ps [.call (.insert vectorId vec)] m = .ok m' := by
  have hstep : dep.eventStep os ps (.call (.insert vectorId vec)) m =
      .ok m' := step_insert hinsert
  rw [eventRun, hstep]
  rfl

/-- What one client finds and leaves. -/
structure Served (dep : Deployment D) (lib : ServerRuntime dep.Dim D)
    (floatText : UInt32 → String) (client : Client)
    (server : HttpApiServer dep.Dim) (asked : List (Asked dep.Dim))
    (text : String) (server' : HttpApiServer dep.Dim) : Prop where
  run : (handleRequest lib client.ctx floatText client.received).run
    ⟨server, ample⟩ = .ok text ⟨server', ample⟩
  events : dep.eventRun OS.reliable lib.partialSorter (asked.map Prod.fst)
    server.mgr = .ok server'.mgr
  metrics : server'.metrics = server.metrics.takeAll (asked.map Prod.snd)

theorem served_search (hrt : lib.rt = dep.rt)
    (hposts : PostsTo "/api/search" client.received)
    {server : HttpApiServer dep.Dim}
    (hshards : server.mgr.shards.length * 1000 < 2 ^ 31) :
    ∃ text server', Served dep lib floatText client server
      (askedSearch lib client).toList text server' := by
  have hrequest : handleRequest lib client.ctx floatText client.received =
      respond (HttpApiServer.handleSearch lib client.ctx
        (parseBody client.received)) := handleRequest_of_search hposts
  cases hread : readVector lib.convert dep.Dim "query"
      (parseBody client.received) with
  | error refusal =>
      have hcall : (searchManager lib client.ctx
          (parseBody client.received)).run ⟨server.mgr, ample⟩ =
            .ok refusal ⟨server.mgr, ample⟩ := searchManager_of_refused hread
      have hrun := respond_of_ok (recorded_of_ok (s := ⟨server, ample⟩) hcall
        false fun metrics => metrics.recordSearch (UInt64.ofNat client.ctx.us))
      have hasked : askedSearch lib client = none := by
        unfold askedSearch
        rw [hread]
      refine ⟨okResponse refusal, server, ?_, ?_, ?_⟩
      · rw [hrequest, HttpApiServer.handleSearch, hread]
        exact hrun
      · rw [hasked]
        rfl
      · rw [hasked]
        rfl
  | ok query =>
      obtain ⟨sr, hsearch⟩ := ShardManager.search_ok lib.rt lib.partialSorter
        (searchTopK_nonneg (parseBody client.received))
        (countsEnough_searchTopK lib.rt query (parseBody client.received)
          client.ctx.throws hshards)
      generalize ({ server.mgr with shards := _ } : ShardManager dep.Dim) = m'
        at hsearch
      have hrun := respond_of_ok (recorded_of_ok (s := ⟨server, ample⟩)
        (searchManager_of_ok (r := ⟨server.mgr, ample⟩) hread hsearch) true
        fun metrics => metrics.recordSearch (UInt64.ofNat client.ctx.us))
      have hasked : askedSearch lib client = some
          (.search (.search query (searchTopK (parseBody client.received)) 0
            client.ctx.throws),
            .recordSearch (UInt64.ofNat client.ctx.us)) := by
        unfold askedSearch
        rw [hread]
      refine ⟨okResponse (searchText lib.distanceText client.ctx.us sr),
        ⟨m', server.metrics.recordSearch (UInt64.ofNat client.ctx.us)⟩, ?_,
        ?_, ?_⟩
      · rw [hrequest, HttpApiServer.handleSearch, hread]
        exact hrun
      · rw [hasked]
        exact eventRun_search (hrt ▸ hsearch)
      · rw [hasked]
        rfl

theorem served_insert (hrt : lib.rt = dep.rt)
    (hos : client.ctx.os = OS.reliable)
    (hposts : PostsTo "/api/insert" client.received)
    {server : HttpApiServer dep.Dim} (h : Refines dep ring states server.mgr)
    (hentry : WAL.entrySize dep.Dim ≤ WAL.growSize)
    (hrooms : Rooms dep states 1) :
    ∃ text server', Served dep lib floatText client server
      (askedInsert lib client server.mgr).toList text server' := by
  have hrequest : handleRequest lib client.ctx floatText client.received =
      respond (HttpApiServer.handleInsert lib client.ctx
        (parseBody client.received)) := handleRequest_of_insert hposts
  cases hread : readVector lib.convert dep.Dim "vector"
      (parseBody client.received) with
  | error refusal =>
      have hcall : (insertManager lib client.ctx
          (parseBody client.received)).run ⟨server.mgr, ample⟩ =
            .ok refusal ⟨server.mgr, ample⟩ := handleInsert_refused hread
      have hrun := respond_of_ok (recorded_of_ok (s := ⟨server, ample⟩) hcall
        false
        fun metrics => metrics.recordInsert (UInt64.ofNat client.ctx.us))
      have hasked : askedInsert lib client server.mgr = none := by
        unfold askedInsert
        rw [hread]
      refine ⟨okResponse refusal, server, ?_, ?_, ?_⟩
      · rw [hrequest, HttpApiServer.handleInsert, hread]
        exact hrun
      · rw [hasked]
        rfl
      · rw [hasked]
        rfl
  | ok vec =>
      obtain ⟨vid, hvid⟩ : ∃ vid,
          insertId (parseBody client.received) server.mgr = vid := ⟨_, rfl⟩
      obtain ⟨t, ht, _⟩ := h.getShard_lt vid.toUInt64
      have hroom := hrooms t
      obtain ⟨m', hinsert⟩ := h.insert_ok hentry ht (by omega)
        (hroom.2.mono (by omega)) vec
      have hagrees : Agrees (ShardManager.tryInsert OS.reliable dep.rt
          vid.toUInt64 vec) server.mgr
          (server.mgr.insert OS.reliable dep.rt vid.toUInt64 vec) :=
        ShardManager.tryInsert_ample vid.toUInt64 vec h.vectors_le
      rw [hinsert] at hagrees
      have htry : (ShardManager.tryInsert client.ctx.os lib.rt
          (insertId (parseBody client.received) server.mgr).toUInt64 vec).run
            ⟨server.mgr, ample⟩ =
              .ok (t, (states t).live.length) ⟨m', ample⟩ := by
        rw [hrt, hos, hvid]
        exact hagrees
      have hcall : (insertManager lib client.ctx
          (parseBody client.received)).run ⟨server.mgr, ample⟩ =
            .ok (insertText t (states t).live.length vid client.ctx.us
              m'.totalVectors) ⟨m', ample⟩ := by
        unfold insertManager
        rw [handleInsert_of_insert (s := ⟨server.mgr, ample⟩) hread htry,
          hvid]
      have hrun := respond_of_ok (recorded_of_ok (s := ⟨server, ample⟩) hcall
        true
        fun metrics => metrics.recordInsert (UInt64.ofNat client.ctx.us))
      have hasked : askedInsert lib client server.mgr = some
          (.call (.insert vid.toUInt64 vec),
            .recordInsert (UInt64.ofNat client.ctx.us)) := by
        unfold askedInsert
        rw [hread, hvid]
      refine ⟨okResponse (insertText t (states t).live.length vid
        client.ctx.us m'.totalVectors), ⟨m', server.metrics.recordInsert
          (UInt64.ofNat client.ctx.us)⟩, ?_, ?_, ?_⟩
      · rw [hrequest, HttpApiServer.handleInsert, hread]
        exact hrun
      · rw [hasked]
        exact eventRun_insert hinsert
      · rw [hasked]
        rfl

/-- Any request is answered. -/
theorem Refines.served (hrt : lib.rt = dep.rt)
    (floatText : UInt32 → String) (hos : client.ctx.os = OS.reliable)
    {server : HttpApiServer dep.Dim}
    (h : Refines dep ring states server.mgr)
    (hshards : dep.shardCount.toNat * 1000 < 2 ^ 31)
    (hentry : WAL.entrySize dep.Dim ≤ WAL.growSize) {clients : List Client}
    (hrooms : Rooms dep states (inserting (client :: clients))) :
    ∃ text server', Served dep lib floatText client server
      (HttpApiServer.asks lib client server.mgr).toList text server' := by
  unfold HttpApiServer.asks
  by_cases hsearch : PostsTo "/api/search" client.received
  · rw [if_pos hsearch]
    exact served_search hrt hsearch (h.length_eq ▸ hshards)
  · by_cases hinsert : PostsTo "/api/insert" client.received
    · rw [if_neg hsearch, if_pos hinsert]
      refine served_insert hrt hos hinsert h hentry fun s => ?_
      obtain ⟨hlog, hstorable⟩ := hrooms s
      rw [inserting_cons, if_pos hinsert] at hlog hstorable
      exact ⟨by omega, hstorable.mono (by omega)⟩
    · rw [if_neg hsearch, if_neg hinsert]
      obtain ⟨text, hrun⟩ : ∃ text, (handleRequest lib client.ctx floatText
          client.received).run ⟨server, ample⟩ = .ok text ⟨server, ample⟩ :=
        handleRequest_of_other (inspectable_of_refines h) hsearch hinsert
      exact ⟨text, server, hrun, rfl, rfl⟩

theorem eventRun_append (os : OS) (ps : PartialSorter (HNSWSearchResult D))
    (before after : List (Event dep.Dim)) (m : ShardManager dep.Dim) :
    dep.eventRun os ps (before ++ after) m =
      dep.eventRun os ps before m >>= dep.eventRun os ps after := by
  induction before generalizing m with
  | nil => rfl
  | cons event before ih =>
      rw [List.cons_append, eventRun, eventRun]
      cases dep.eventStep os ps event m with
      | error e => rfl
      | ok m' => exact ih m'

/-- A client that sends nothing is not answered, and every other is. -/
theorem Refines.handleClient_ok (hrt : lib.rt = dep.rt)
    (floatText : UInt32 → String) (hos : client.ctx.os = OS.reliable)
    {server : HttpApiServer dep.Dim}
    (h : Refines dep ring states server.mgr)
    (hshards : dep.shardCount.toNat * 1000 < 2 ^ 31)
    (hentry : WAL.entrySize dep.Dim ≤ WAL.growSize) {clients : List Client}
    (hrooms : Rooms dep states (inserting (client :: clients))) :
    ∃ response server',
      (handleClient lib client.ctx floatText client.received).run
        ⟨server, ample⟩ = .ok response ⟨server', ample⟩ ∧
      (response.isSome = true ↔ client.received ≠ []) ∧
      dep.eventRun OS.reliable lib.partialSorter
        ((HttpApiServer.asks lib client server.mgr).toList.map Prod.fst)
        server.mgr = .ok server'.mgr ∧
      server'.metrics = server.metrics.takeAll
        ((HttpApiServer.asks lib client server.mgr).toList.map Prod.snd) := by
  by_cases hnone : client.received = []
  · have hasks : HttpApiServer.asks lib client server.mgr = none := by
      have hpath (path : String) : ¬ PostsTo path client.received := by
        rintro ⟨_, hmethod⟩
        rw [hnone] at hmethod
        exact absurd hmethod (by decide)
      unfold HttpApiServer.asks
      rw [if_neg (hpath _), if_neg (hpath _)]
    refine ⟨none, server, ?_, by simp [hnone], ?_, ?_⟩
    · unfold handleClient
      rw [if_pos hnone]
      rfl
    · rw [hasks]
      rfl
    · rw [hasks]
      rfl
  · obtain ⟨text, server', hserved⟩ :=
      h.served hrt floatText hos hshards hentry hrooms
    refine ⟨some text, server', ?_, by simp [hnone], hserved.events,
      hserved.metrics⟩
    unfold handleClient
    rw [if_neg hnone, bind_of_ok hserved.run]
    rfl

/-- All clients are answered, and the server behind them is the manager behind
what they asked for. -/
theorem Refines.serveClients_ok (hrt : lib.rt = dep.rt)
    (floatText : UInt32 → String) {clients : List Client}
    (hos : ∀ client ∈ clients, client.ctx.os = OS.reliable)
    {server : HttpApiServer dep.Dim} (h : Refines dep ring states server.mgr)
    (hshards : dep.shardCount.toNat * 1000 < 2 ^ 31)
    (hentry : WAL.entrySize dep.Dim ≤ WAL.growSize)
    (hrooms : Rooms dep states (inserting clients)) :
    ∃ responses server', (serveClients lib floatText clients).run
        ⟨server, ample⟩ = .ok responses ⟨server', ample⟩ ∧
      List.Forall₂ (fun client response => response.isSome = true ↔
        client.received ≠ []) clients responses ∧
      dep.eventRun OS.reliable lib.partialSorter
        ((askedAll lib floatText clients ⟨server, ample⟩).map Prod.fst)
        server.mgr = .ok server'.mgr ∧
      server'.metrics = server.metrics.takeAll
        ((askedAll lib floatText clients ⟨server, ample⟩).map Prod.snd) := by
  induction clients generalizing server states with
  | nil => exact ⟨[], server, rfl, .nil, rfl, rfl⟩
  | cons client clients ih =>
      obtain ⟨hfirst, hrest⟩ := List.forall_mem_cons.mp hos
      obtain ⟨response, server₁, hrun, hresponse, hevents, hmetrics⟩ :=
        h.handleClient_ok hrt floatText hfirst hshards hentry hrooms
      obtain ⟨responses, server', hruns, hresponses, hevents', hmetrics'⟩ :=
        ih hrest (h.eventRun_eq_ok hevents) (hrooms.asked ring server.mgr)
      have hall : askedAll lib floatText (client :: clients) ⟨server, ample⟩ =
          (HttpApiServer.asks lib client server.mgr).toList ++
            askedAll lib floatText clients ⟨server₁, ample⟩ := by
        rw [askedAll, after_of_ok hrun]
      refine ⟨response :: responses, server', ?_, .cons hresponse hresponses,
        ?_, ?_⟩
      · unfold serveClients
        rw [bind_of_ok hrun, bind_of_ok hruns]
        rfl
      · rw [hall, List.map_append, eventRun_append, hevents]
        exact hevents'
      · rw [hall, List.map_append, hmetrics', hmetrics]
        exact (List.foldl_append).symm

/-! ## The inserts that are asked for -/

/-- What is asked of the manager is what is recorded. -/
inductive Recorded {dim : UInt32} : Asked dim → Prop
  | insert (vectorId : UInt64) (vec : Vec dim) (us : UInt64) :
      Recorded (.call (.insert vectorId vec), .recordInsert us)
  | search (event : ShardManager.SearchEvent dim) (us : UInt64) :
      Recorded (.search event, .recordSearch us)

/-- The inserts among what is asked for, in order. -/
def insertsOf {dim : UInt32} (asked : List (Asked dim)) :
    List (UInt64 × Vec dim) :=
  insertCalls ((asked.map Prod.fst).filterMap Event.op?)

theorem recorded_asks (client : Client) (m : ShardManager dep.Dim) :
    ∀ a ∈ HttpApiServer.asks lib client m, Recorded a := by
  intro a ha
  unfold HttpApiServer.asks at ha
  split_ifs at ha
  · unfold askedSearch at ha
    split at ha
    · cases ha
    · cases ha
      exact .search _ _
  · unfold askedInsert at ha
    split at ha
    · cases ha
    · cases ha
      exact .insert _ _ _
  · cases ha

theorem recorded_askedAll (lib : ServerRuntime dep.Dim D)
    (floatText : UInt32 → String) (clients : List Client)
    (s : Running (HttpApiServer dep.Dim)) :
    ∀ a ∈ askedAll lib floatText clients s, Recorded a := by
  induction clients generalizing s with
  | nil => simp [askedAll]
  | cons client clients ih =>
      intro a ha
      rw [askedAll, List.mem_append, Option.mem_toList] at ha
      rcases ha with hfirst | hrest
      · exact recorded_asks client s.obj.mgr a hfirst
      · exact ih _ a hrest

section Asks

variable {dim : UInt32} {asked : List (Asked dim)}

theorem insertsOf_cons (a : Asked dim) (asked : List (Asked dim)) :
    insertsOf (a :: asked) =
      (a.1.op?.bind insertCall).toList ++ insertsOf asked := by
  obtain ⟨event, record⟩ := a
  cases event with
  | call op =>
      cases op with
      | insert vectorId vec => rfl
      | snapshotAll ns => rfl
      | restart load rngs => rfl
  | search event => rfl

/-- Nothing else is asked of the manager. -/
theorem ops_of_recorded (h : ∀ a ∈ asked, Recorded a) :
    (asked.map Prod.fst).filterMap Event.op? =
      (insertsOf asked).map fun call => .insert call.1 call.2 := by
  induction asked with
  | nil => rfl
  | cons a asked ih =>
      obtain ⟨hfirst, hrest⟩ := List.forall_mem_cons.mp h
      rw [insertsOf_cons, List.map_append, ← ih hrest]
      cases hfirst with
      | insert vectorId vec us => rfl
      | search event us => rfl

theorem totalInserts_of_recorded (h : ∀ a ∈ asked, Recorded a)
    (metrics : MetricsStore) :
    (metrics.takeAll (asked.map Prod.snd)).totalInserts =
      metrics.totalInserts + UInt64.ofNat (insertsOf asked).length := by
  induction asked generalizing metrics with
  | nil => exact (UInt64.add_zero _).symm
  | cons a asked ih =>
      obtain ⟨hfirst, hrest⟩ := List.forall_mem_cons.mp h
      rw [insertsOf_cons, List.length_append, UInt64.ofNat_add,
        ← UInt64.add_assoc]
      cases hfirst with
      | insert vectorId vec us => exact ih hrest (metrics.recordInsert us)
      | search event us =>
          have hkept : (metrics.recordSearch us).totalInserts =
              metrics.totalInserts + UInt64.ofNat 0 :=
            (UInt64.add_zero _).symm
          rw [List.map_cons, MetricsStore.takeAll, List.foldl_cons]
          exact (ih hrest (metrics.recordSearch us)).trans
            (congrArg (· + _) hkept)

end Asks

/-- A server on a manager, with memory for whatever it allocates. -/
def serving (m : ShardManager dep.Dim) : Running (HttpApiServer dep.Dim) :=
  ⟨⟨m, MetricsStore.initial⟩, ample⟩

/-- What a run of the server leaves of its clients. -/
structure ServedAll (dep : Deployment D) (lib : ServerRuntime dep.Dim D)
    (clients : List Client) (asked : List (Asked dep.Dim))
    (responses : List (Option String)) (server : HttpApiServer dep.Dim) :
    Prop where
  responses : List.Forall₂ (fun client response =>
    response.isSome = true ↔ client.received ≠ []) clients responses
  reached : Reached dep OS.reliable lib.partialSorter (asked.map Prod.fst)
    server.mgr
  stored : ∀ s, vectorsOf server.mgr.ring (asked.map Prod.fst) s =
    (routedTo server.mgr.ring s (insertsOf asked)).map Prod.snd
  total : server.mgr.totalVectors = (insertsOf asked).length
  metrics : server.metrics =
    MetricsStore.initial.takeAll (asked.map Prod.snd)
  inserts : server.metrics.totalInserts =
    UInt64.ofNat server.mgr.totalVectors

/-- Whatever the clients send, a server on an empty directory answers each of
them, stores what the accepted inserts carry and counts it. -/
theorem http_server_refines (lib : ServerRuntime dep.Dim D)
    (floatText : UInt32 → String) (clients : List Client)
    {rngs : ℕ → ℕ → ℕ} {m : ShardManager dep.Dim}
    (hstart : dep.start OS.reliable rngs (fun _ => ShardState.noFiles) =
      .ok m)
    (hrt : lib.rt = dep.rt)
    (hos : ∀ client ∈ clients, client.ctx.os = OS.reliable)
    (hshards : dep.shardCount.toNat * 1000 < 2 ^ 31)
    (hentry : WAL.entrySize dep.Dim ≤ WAL.growSize)
    (hroom : HNSWIndex.Storable dep.cfg (inserting clients)) :
    ∃ responses server,
      (serveClients lib floatText clients).run (serving m) =
        .ok responses ⟨server, ample⟩ ∧
      ServedAll dep lib clients (askedAll lib floatText clients (serving m))
        responses server := by
  have hrooms : Rooms dep (fun _ => (empty : Stored dep.Dim))
      (inserting clients) := fun _ => by
    have hlt := hroom.1
    constructor
    · rw [show (empty : Stored dep.Dim).log = [] from rfl, List.length_nil]
      omega
    · simpa [empty] using hroom
  have hserver : Refines dep m.ring (fun _ => empty)
      (serving m).obj.mgr := start_fresh hstart
  obtain ⟨responses, server, hrun, hresponses, hevents, hmetrics⟩ :=
    hserver.serveClients_ok hrt floatText hos hshards hentry hrooms
  obtain ⟨asked, hasked⟩ :
      ∃ asked, askedAll lib floatText clients (serving m) = asked := ⟨_, rfl⟩
  have hrecorded := recorded_askedAll lib floatText clients (serving m)
  change dep.eventRun OS.reliable lib.partialSorter
    ((askedAll lib floatText clients (serving m)).map Prod.fst) m = _
    at hevents
  rw [hasked] at hevents hrecorded ⊢
  have hreached : Reached dep OS.reliable lib.partialSorter
      (asked.map Prod.fst) server.mgr := ⟨rngs, m, hstart, hevents⟩
  have hstored (s : ℕ) :
      vectorsOf server.mgr.ring (asked.map Prod.fst) s =
        (routedTo server.mgr.ring s (insertsOf asked)).map Prod.snd := by
    unfold vectorsOf history
    rw [ops_of_recorded hrecorded, requests_inserts, (serve_inserts ..).1]
    rfl
  have htotal : server.mgr.totalVectors = (insertsOf asked).length :=
    hreached.refines.totalVectors_eq fun s _ =>
      (congrArg List.length (hstored s)).trans (List.length_map ..)
  have hmetrics' : server.metrics =
      MetricsStore.initial.takeAll (asked.map Prod.snd) :=
    hasked ▸ hmetrics
  refine ⟨responses, server, hrun, hresponses, hreached, hstored, htotal,
    hmetrics', ?_⟩
  rw [hmetrics', totalInserts_of_recorded hrecorded, htotal]
  exact UInt64.zero_add _

/-- A post of a vector, and a connection that is closed at once. -/
def twoClients : List Client :=
  [⟨HttpRequest.grantedContext, HttpRequest.insertTwelve.text⟩,
    ⟨HttpRequest.grantedContext, []⟩]

theorem insertsOf_twoClients (m : ShardManager oneShard.Dim) :
    ∃ call, insertsOf (askedAll HttpRequest.oneShardRuntime wordText twoClients
      (serving m)) = [call] := by
  obtain ⟨vec, hvec⟩ : ∃ vec, readVector digitFloat oneShard.Dim "vector"
      (parseBody HttpRequest.insertTwelve.text) = .ok vec :=
    exists_vector (by decide)
  have hinsert : HttpApiServer.asks HttpRequest.oneShardRuntime
      ⟨HttpRequest.grantedContext, HttpRequest.insertTwelve.text⟩ m =
        some (.call (.insert (insertId
          (parseBody HttpRequest.insertTwelve.text) m).toUInt64 vec),
          .recordInsert 0) := by
    unfold HttpApiServer.asks askedInsert HttpRequest.oneShardRuntime
    rw [if_neg (by decide), if_pos (by decide)]
    dsimp only
    rw [hvec]
    rfl
  have hclosed (m : ShardManager oneShard.Dim) : HttpApiServer.asks
      HttpRequest.oneShardRuntime ⟨HttpRequest.grantedContext, []⟩ m =
        none := by
    unfold HttpApiServer.asks
    rw [if_neg (by decide), if_neg (by decide)]
  refine ⟨((insertId (parseBody HttpRequest.insertTwelve.text) m).toUInt64,
    vec), ?_⟩
  unfold twoClients serving
  rw [askedAll, hinsert, askedAll, hclosed]
  rfl

theorem http_server_refines_oneShard :
    ∃ m responses server,
      oneShard.start OS.reliable (fun _ i => i)
        (fun _ => ShardState.noFiles) = .ok m ∧
      (serveClients HttpRequest.oneShardRuntime wordText twoClients).run
        (serving m) = .ok responses ⟨server, ample⟩ ∧
      server.mgr.totalVectors = 1 ∧ server.metrics.totalInserts = 1 := by
  obtain ⟨m, hstart⟩ := oneShard_start fun _ i => i
  obtain ⟨responses, server, hrun, hserved⟩ := http_server_refines
    HttpRequest.oneShardRuntime wordText twoClients hstart rfl
    (by simp [twoClients, HttpRequest.grantedContext])
    (by decide) oneShard_entrySize ⟨by decide, fun _ => by decide⟩
  obtain ⟨call, hcall⟩ := insertsOf_twoClients m
  have htotal : server.mgr.totalVectors = 1 := by
    rw [hserved.total, hcall]
    rfl
  refine ⟨m, responses, server, hstart, hrun, htotal, ?_⟩
  rw [hserved.inserts, htotal]
  rfl

end Deployment
end VecDB
