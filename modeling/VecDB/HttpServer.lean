import VecDB.Metrics
import VecDB.NodeInspector
import VecDB.ServerRuns
import Mathlib.Tactic

/-!
# Handling a client

`HttpApiServer::handle_client` reads a request once, takes its method, its path
and its body out of the text, and calls a handler.  Only two of the handlers
change the manager.  The responses go to the client as they are returned here.
-/

namespace VecDB

open StateRules Running

structure HttpApiServer (dim : UInt32) where
  mgr : ShardManager dim
  metrics : MetricsStore

/-- What a request meets besides the server. -/
structure RequestContext where
  os : OS
  throws : ℕ → Bool
  us : ℕ
  nowMs : ℕ

namespace HttpApiServer

/-! ## Parsers -/

def parseMethod (req : List Char) : List Char := req.takeWhile (· ≠ ' ')

/-- Between the first two blanks.  Without a blank, the search for the first
one comes round to the start of the text. -/
def requestTarget (req : List Char) : List Char :=
  match HttpApi.findChar ' ' req with
  | none => req
  | some p => p.takeWhile (· ≠ ' ')

def parsePath (req : List Char) : List Char :=
  (requestTarget req).takeWhile (· ≠ '?')

def parseQuery (req : List Char) : List Char :=
  (HttpApi.findChar '?' (requestTarget req)).getD []

def headersEnd : List Char := "\r\n\r\n".toList

def parseBody (req : List Char) : List Char :=
  match HttpApi.findText headersEnd req with
  | none => []
  | some p => p.drop 4

/-! ## Responses -/

def okResponse (json : String) : String :=
  "HTTP/1.1 200 OK\r\nContent-Type: application/json\r\n" ++
    "Content-Length: " ++ toString json.utf8ByteSize ++ "\r\n" ++
    "Access-Control-Allow-Origin: *\r\n" ++
    "Access-Control-Allow-Methods: GET, POST, OPTIONS\r\n" ++
    "Access-Control-Allow-Headers: Content-Type\r\n" ++
    "Connection: close\r\n\r\n" ++ json

def errResponse (code : ℕ) (msg : String) : String :=
  let json := "\x7b\"error\":\"" ++ msg ++ "\"\x7d"
  "HTTP/1.1 " ++ toString code ++
    " Error\r\nContent-Type: application/json\r\n" ++
    "Content-Length: " ++ toString json.utf8ByteSize ++ "\r\n" ++
    "Access-Control-Allow-Origin: *\r\nConnection: close\r\n\r\n" ++ json

def preflight : String :=
  "HTTP/1.1 204 No Content\r\nAccess-Control-Allow-Origin: *\r\n" ++
    "Access-Control-Allow-Methods: GET, POST, OPTIONS\r\n" ++
    "Access-Control-Allow-Headers: Content-Type\r\n" ++
    "Content-Length: 0\r\nConnection: close\r\n\r\n"

/-! ## Handlers -/

section Handlers

variable {dim : UInt32}

def handleHealth : String := "\x7b\"status\":\"ok\"\x7d"

/-- A shard in a response, under the names that the response has for its
number and its size. -/
def shardText (idName countName : String) (m : ShardManager dim) (s : ℕ) :
    String :=
  "\x7b\"" ++ idName ++ "\":" ++ toString s ++ ",\"" ++ countName ++ "\":" ++
    toString (m.loadDistribution.getD s 0) ++ ",\"status\":\"" ++
    (if m.shardHealthy s then "healthy" else "degraded") ++ "\"\x7d"

def shardsText (idName countName : String) (m : ShardManager dim) : String :=
  ",\"shards\":[" ++ ",".intercalate ((List.range m.shardCount.toNat).map
    (shardText idName countName m)) ++ "]\x7d"

def handleInfo (m : ShardManager dim) : String :=
  "\x7b\"total_vectors\":" ++ toString m.totalVectors ++
    ",\"shard_count\":" ++ toString m.shardCount.toNat ++ ",\"dim\":" ++
    toString m.cfg.dim.toInt ++ shardsText "shard_id" "vector_count" m

def handleMetrics (nowMs : ℕ) (server : HttpApiServer dim) : String :=
  "\x7b\"total_vectors\":" ++ toString server.mgr.totalVectors ++
    ",\"insert_rate\":" ++ toString server.metrics.insertsLastSec.toNat ++
    ",\"search_rate\":" ++ toString server.metrics.searchesLastSec.toNat ++
    ",\"p50_us\":" ++ toString server.metrics.searchP50Us.toNat ++
    ",\"p95_us\":" ++ toString server.metrics.searchP95Us.toNat ++
    ",\"p99_us\":" ++ toString server.metrics.searchP99Us.toNat ++
    ",\"total_inserts\":" ++ toString server.metrics.totalInserts.toNat ++
    ",\"total_searches\":" ++ toString server.metrics.totalSearches.toNat ++
    ",\"ts\":" ++ toString nowMs ++ shardsText "id" "vectors" server.mgr

def onManager {α : Type} (x : EStateM Failure (Running (ShardManager dim)) α) :
    EStateM Failure (Running (HttpApiServer dim)) α :=
  onPart (fun s => ⟨s.obj.mgr, s.memory⟩)
    (fun t s => ⟨{ s.obj with mgr := t.obj }, t.memory⟩) x

variable {D : Type} [Preorder D] [DecidableLT D]
  (lib : ServerRuntime dim D) (ctx : RequestContext)

def searchManager (body : List Char) :
    EStateM Failure (Running (ShardManager dim)) String :=
  answered (HttpApi.handleSearch lib.convert lib.rt lib.partialSorter
    ctx.throws lib.distanceText ctx.us body)

def insertManager (body : List Char) :
    EStateM Failure (Running (ShardManager dim)) String :=
  HttpApi.handleInsert lib.convert ctx.os lib.rt ctx.us body

/-- A request that is accepted and returns is recorded. -/
def recorded (accepted : Bool) (record : MetricsStore → MetricsStore)
    (x : EStateM Failure (Running (ShardManager dim)) String) :
    EStateM Failure (Running (HttpApiServer dim)) String := do
  let text ← onManager x
  if accepted = true then
    update fun server => { server with metrics := record server.metrics }
  return text

def handleSearch (body : List Char) :
    EStateM Failure (Running (HttpApiServer dim)) String :=
  recorded (HttpApi.readVector lib.convert dim "query" body).isOk
    (fun metrics => metrics.recordSearch (UInt64.ofNat ctx.us))
    (searchManager lib ctx body)

def handleInsert (body : List Char) :
    EStateM Failure (Running (HttpApiServer dim)) String :=
  recorded (HttpApi.readVector lib.convert dim "vector" body).isOk
    (fun metrics => metrics.recordInsert (UInt64.ofNat ctx.us))
    (insertManager lib ctx body)

/-! ## Dispatch -/

def respond (x : EStateM Failure (Running (HttpApiServer dim)) String) :
    EStateM Failure (Running (HttpApiServer dim)) String := do
  let json ← x
  return okResponse json

/-- What follows the parsing of a request.  `floatText` is a component, as a
stream writes it. -/
def handleRequest (floatText : UInt32 → String) (req : List Char) :
    EStateM Failure (Running (HttpApiServer dim)) String :=
  let method := parseMethod req
  let path := parsePath req
  if method = "OPTIONS".toList then return preflight
  else if path = "/api/health".toList then respond (return handleHealth)
  else if path = "/api/info".toList then
    respond (compute fun server => .ok (handleInfo server.mgr))
  else if path = "/api/metrics".toList then
    respond (compute fun server => .ok (handleMetrics ctx.nowMs server))
  else if path = "/api/search".toList ∧ method = "POST".toList then
    respond (handleSearch lib ctx (parseBody req))
  else if path = "/api/insert".toList ∧ method = "POST".toList then
    respond (handleInsert lib ctx (parseBody req))
  else if path = "/api/node".toList then
    respond (compute fun server =>
      HttpApi.handleNode floatText (parseQuery req) server.mgr)
  else return errResponse 404 "Not found"

/-- `received` is what the one `recv` returns, and nothing is sent where that
is nothing. -/
def handleClient (floatText : UInt32 → String) (received : List Char) :
    EStateM Failure (Running (HttpApiServer dim)) (Option String) :=
  if received = [] then return none
  else do
    let response ← handleRequest lib ctx floatText received
    return some response

/-! ## What happens to the manager -/

/-- The manager behind a call. -/
def mgrAfter {α : Type}
    (x : EStateM Failure (Running (HttpApiServer dim)) α)
    (s : Running (HttpApiServer dim)) : ShardManager dim :=
  (after x s).obj.mgr

variable {lib ctx} {floatText : UInt32 → String} {req received : List Char}
  {s : Running (HttpApiServer dim)}

theorem mgrAfter_compute {α : Type}
    (f : HttpApiServer dim → Except Failure α) :
    mgrAfter (compute f) s = s.obj.mgr := by
  unfold mgrAfter
  rw [after_compute]

theorem mgrAfter_respond
    (x : EStateM Failure (Running (HttpApiServer dim)) String) :
    mgrAfter (respond x) s = mgrAfter x s := by
  unfold mgrAfter respond
  rw [after_bind_pure]

theorem mgrAfter_recorded (accepted : Bool)
    (record : MetricsStore → MetricsStore)
    (x : EStateM Failure (Running (ShardManager dim)) String) :
    mgrAfter (recorded accepted record x) s =
      (after x ⟨s.obj.mgr, s.memory⟩).obj := by
  unfold mgrAfter recorded
  cases hx : x.run ⟨s.obj.mgr, s.memory⟩ with
  | ok text t =>
      have hrun : (onManager x).run s = _ := onPart_of_ok hx
      rw [after_of_ok hx, after_bind_of_ok hrun]
      cases accepted with
      | true => rfl
      | false => rfl
  | error e t =>
      have hrun : (onManager x).run s = _ := onPart_of_error hx
      rw [after_of_error hx, after_of_error (bind_of_error hrun)]

/-- The request is posted to a path. -/
def PostsTo (path : String) (req : List Char) : Prop :=
  parsePath req = path.toList ∧ parseMethod req = "POST".toList

theorem mgrAfter_of_search (h : PostsTo "/api/search" req) :
    mgrAfter (handleRequest lib ctx floatText req) s =
      (after (searchManager lib ctx (parseBody req))
        ⟨s.obj.mgr, s.memory⟩).obj := by
  obtain ⟨hpath, hmethod⟩ := h
  unfold handleRequest
  dsimp only
  rw [hpath, hmethod, if_neg (by decide), if_neg (by decide),
    if_neg (by decide), if_neg (by decide), if_pos ⟨rfl, rfl⟩,
    mgrAfter_respond, handleSearch, mgrAfter_recorded]

theorem mgrAfter_of_insert (h : PostsTo "/api/insert" req) :
    mgrAfter (handleRequest lib ctx floatText req) s =
      (after (insertManager lib ctx (parseBody req))
        ⟨s.obj.mgr, s.memory⟩).obj := by
  obtain ⟨hpath, hmethod⟩ := h
  unfold handleRequest
  dsimp only
  rw [hpath, hmethod, if_neg (by decide), if_neg (by decide),
    if_neg (by decide), if_neg (by decide), if_neg (by decide),
    if_pos ⟨rfl, rfl⟩, mgrAfter_respond, handleInsert, mgrAfter_recorded]

/-- The other requests change no manager. -/
theorem mgrAfter_of_other (hsearch : ¬ PostsTo "/api/search" req)
    (hinsert : ¬ PostsTo "/api/insert" req) :
    mgrAfter (handleRequest lib ctx floatText req) s = s.obj.mgr := by
  unfold handleRequest
  dsimp only
  rw [if_neg (c := _ ∧ _) hsearch, if_neg (c := _ ∧ _) hinsert]
  split_ifs
  · rfl
  · rfl
  · rw [mgrAfter_respond, mgrAfter_compute]
  · rw [mgrAfter_respond, mgrAfter_compute]
  · rw [mgrAfter_respond, mgrAfter_compute]
  · rfl

theorem mgrAfter_handleClient (hreceived : received ≠ []) :
    mgrAfter (handleClient lib ctx floatText received) s =
      mgrAfter (handleRequest lib ctx floatText received) s := by
  unfold mgrAfter handleClient
  rw [if_neg hreceived, after_bind_pure]

end Handlers

end HttpApiServer
end VecDB
