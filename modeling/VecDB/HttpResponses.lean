import VecDB.HttpRuns
import VecDB.JsonText
import Mathlib.Tactic

/-!
# The responses of the HTTP server

A response declares the length of its body, and the body is the text of a JSON
value.  Distances and components are written as a stream writes them, so that
a body is JSON exactly when these are numerals.
-/

namespace VecDB

open StateRules Running

namespace HttpApi

open Json

/-! ## Values -/

def field (key : String) (value : Json) : List Char × Json :=
  (key.toList, value)

def errorJson (message : List Char) : Json :=
  .obj [field "error" (.str message)]

def healthJson : Json := .obj [field "status" (.str "ok".toList)]

section Values

variable {dim : UInt32} {D : Type}

def shardJson (idName countName : String) (m : ShardManager dim) (s : ℕ) :
    Json :=
  .obj [field idName (nat s),
    field countName (nat (m.loadDistribution.getD s 0)),
    field "status" (.str
      (if m.shardHealthy s then "healthy" else "degraded").toList)]

def shardsJson (idName countName : String) (m : ShardManager dim) : Json :=
  .arr ((List.range m.shardCount.toNat).map (shardJson idName countName m))

def infoJson (m : ShardManager dim) : Json :=
  .obj [field "total_vectors" (nat m.totalVectors),
    field "shard_count" (nat m.shardCount.toNat),
    field "dim" (int m.cfg.dim.toInt),
    field "shards" (shardsJson "shard_id" "vector_count" m)]

def metricsJson (nowMs : ℕ) (server : HttpApiServer dim) : Json :=
  .obj [field "total_vectors" (nat server.mgr.totalVectors),
    field "insert_rate" (nat server.metrics.insertsLastSec.toNat),
    field "search_rate" (nat server.metrics.searchesLastSec.toNat),
    field "p50_us" (nat server.metrics.searchP50Us.toNat),
    field "p95_us" (nat server.metrics.searchP95Us.toNat),
    field "p99_us" (nat server.metrics.searchP99Us.toNat),
    field "total_inserts" (nat server.metrics.totalInserts.toNat),
    field "total_searches" (nat server.metrics.totalSearches.toNat),
    field "ts" (nat nowMs),
    field "shards" (shardsJson "id" "vectors" server.mgr)]

def insertJson (shardId nodeId : ℕ) (vid : Int64) (us total : ℕ) : Json :=
  .obj [field "shard_id" (nat shardId), field "node_id" (nat nodeId),
    field "vector_id" (int vid.toInt), field "latency_us" (nat us),
    field "total_vectors" (nat total)]

def resultJson (distanceText : D → String) (r : HNSWSearchResult D) : Json :=
  .obj [field "node_id" (nat r.nodeId),
    field "distance" (.num (distanceText r.dist).toList)]

def searchJson (distanceText : D → String) (us : ℕ)
    (sr : ShardSearchResult D) : Json :=
  .obj [field "latency_us" (nat us), field "degraded" (.bool sr.degraded),
    field "shards_ok" (nat sr.shardsOk), field "shards_err" (nat sr.shardsErr),
    field "results" (.arr (sr.results.map (resultJson distanceText)))]

def layerJson (layer : ℕ) (neighbours : List ℕ) : Json :=
  .obj [field "layer" (nat layer),
    field "neighbours" (.arr (neighbours.map nat))]

def nodeJson (floatText : UInt32 → String) (report : NodeReport) : Json :=
  .obj [field "node_id" (nat report.nodeId),
    field "shard_id" (nat report.shardId),
    field "max_layer" (int report.maxLayer),
    field "total_nodes" (nat report.totalNodes),
    field "vector_preview" (.arr (report.preview.map fun component =>
      .num (floatText component).toList)),
    field "layers" (.arr (report.layers.zipIdx.map fun layer =>
      layerJson layer.2 layer.1))]

end Values

/-! ## Texts of values -/

section Texts

variable {dim : UInt32} {D : Type}

/-- A stream that puts a comma before each item but the first. -/
theorem arr_text {α : Type} {itemText : α → String} {item : α → Json}
    (items : List α) (h : ∀ a ∈ items, (itemText a).toList = (item a).text) :
    (Json.arr (items.map item)).text =
      '[' :: ((",".intercalate (items.map itemText)).toList ++ [']']) := by
  have hitems : ∀ (a : α) (rest : List α),
      (∀ b ∈ a :: rest, (itemText b).toList = (item b).text) →
      (item a).text ++ itemsText (rest.map item) =
        (",".intercalate ((a :: rest).map itemText)).toList ++ [']'] := by
    intro a rest
    induction rest generalizing a with
    | nil =>
        intro hall
        rw [List.map_singleton, String.intercalate_singleton,
          hall a (List.mem_singleton_self a)]
        rfl
    | cons b rest ih =>
        intro hall
        obtain ⟨hfirst, hrest⟩ := List.forall_mem_cons.mp hall
        have htail := ih b hrest
        rw [List.map_cons] at htail
        rw [List.map_cons, List.map_cons, List.map_cons,
          String.intercalate_cons_cons, itemsText, htail, ← hfirst]
        simp only [String.toList_append, List.append_assoc]
        rfl
  cases items with
  | nil => rfl
  | cons a rest =>
      rw [List.map_cons, text, hitems a rest h]

theorem shardText_json (idName countName : String) (m : ShardManager dim)
    (s : ℕ) :
    (HttpApiServer.shardText idName countName m s).toList =
      (shardJson idName countName m s).text := by
  unfold HttpApiServer.shardText shardJson
  simp only [text, fieldsText, field, String.toList_append,
    List.append_assoc, List.cons_append]
  rfl

theorem shardsText_json (idName countName : String) (m : ShardManager dim) :
    (HttpApiServer.shardsText idName countName m).toList =
      ",\"shards\":".toList ++ ((shardsJson idName countName m).text ++
        ['}']) := by
  unfold HttpApiServer.shardsText shardsJson
  rw [arr_text _ fun s _ => shardText_json idName countName m s]
  simp only [String.toList_append, List.append_assoc, List.cons_append]
  rfl

theorem handleInfo_json (m : ShardManager dim) :
    (HttpApiServer.handleInfo m).toList = (infoJson m).text := by
  unfold HttpApiServer.handleInfo infoJson
  simp only [text, fieldsText, field, String.toList_append,
    List.append_assoc, shardsText_json]
  rfl

theorem handleMetrics_json (nowMs : ℕ) (server : HttpApiServer dim) :
    (HttpApiServer.handleMetrics nowMs server).toList =
      (metricsJson nowMs server).text := by
  unfold HttpApiServer.handleMetrics metricsJson
  simp only [text, fieldsText, field, String.toList_append,
    List.append_assoc, shardsText_json]
  rfl

theorem insertText_json (shardId nodeId : ℕ) (vid : Int64) (us total : ℕ) :
    (insertText shardId nodeId vid us total).toList =
      (insertJson shardId nodeId vid us total).text := by
  unfold insertText insertJson
  simp only [String.toList_append, List.append_assoc]
  rfl

theorem resultText_json (distanceText : D → String) (r : HNSWSearchResult D) :
    (resultText distanceText r).toList = (resultJson distanceText r).text := by
  unfold resultText resultJson
  simp only [String.toList_append, List.append_assoc]
  rfl

theorem searchText_json (distanceText : D → String) (us : ℕ)
    (sr : ShardSearchResult D) :
    (searchText distanceText us sr).toList =
      (searchJson distanceText us sr).text := by
  unfold searchText searchJson
  simp only [text, fieldsText, field, String.toList_append,
    List.append_assoc, List.cons_append,
    arr_text _ fun r _ => resultText_json distanceText r]
  cases sr.degraded with
  | true => rfl
  | false => rfl

theorem neighboursText_json (layer : ℕ) (neighbours : List ℕ) :
    (neighboursText layer neighbours).toList =
      (layerJson layer neighbours).text := by
  have hneighbours : (Json.arr (neighbours.map nat)).text =
      '[' :: ((",".intercalate (neighbours.map toString)).toList ++ [']']) :=
    arr_text neighbours fun _ _ => rfl
  unfold neighboursText layerJson
  simp only [text, fieldsText, field, String.toList_append,
    List.append_assoc, List.cons_append, hneighbours]
  rfl

theorem nodeText_json (floatText : UInt32 → String) (report : NodeReport) :
    (report.text floatText).toList = (nodeJson floatText report).text := by
  have hpreview : (Json.arr (report.preview.map fun component =>
      .num (floatText component).toList)).text = '[' ::
        ((",".intercalate (report.preview.map floatText)).toList ++ [']']) :=
    arr_text report.preview fun _ _ => rfl
  have hlayers : (Json.arr (report.layers.zipIdx.map fun layer =>
      layerJson layer.2 layer.1)).text = '[' ::
        ((",".intercalate (report.layers.zipIdx.map fun layer =>
          neighboursText layer.2 layer.1)).toList ++ [']']) :=
    arr_text report.layers.zipIdx
      fun layer _ => neighboursText_json layer.2 layer.1
  unfold NodeReport.text nodeJson
  simp only [text, fieldsText, field, String.toList_append,
    List.append_assoc, List.cons_append, hpreview, hlayers]
  rfl

theorem errorText_json (message : String) :
    ("\x7b\"error\":\"" ++ message ++ "\"\x7d").toList =
      (errorJson message.toList).text := by
  unfold errorJson
  simp only [text, fieldsText, field, String.toList_append,
    List.append_assoc, List.cons_append]
  rfl

end Texts

/-! ## What the values need to be read back -/

section Written

variable {dim : UInt32} {D : Type}

theorem written_field {key : String} {value : Json} {numbers others : Prop}
    {fields : List (List Char × Json)}
    (hkey : key.toList.all isPlain = true) (hvalue : Written value numbers)
    (hfields : Written (.obj fields) others) :
    Written (.obj (field key value :: fields)) (numbers ∧ others) :=
  written_obj_cons (List.all_eq_true.mp hkey) hvalue hfields

theorem written_error {message : List Char}
    (h : message.all isPlain = true) : Written (errorJson message) True :=
  (written_field (by decide) (written_str (List.all_eq_true.mp h))
    written_obj_nil).congr (by simp)

theorem written_health : Written healthJson True :=
  (written_field (by decide)
    (written_str (List.all_eq_true.mp (by decide))) written_obj_nil).congr
    (by simp)

theorem written_shards {idName countName : String}
    (hid : idName.toList.all isPlain = true)
    (hcount : countName.toList.all isPlain = true) (m : ShardManager dim) :
    Written (shardsJson idName countName m) True := by
  have hshard (s : ℕ) : Written (shardJson idName countName m s) True := by
    have hstatus : Written (.str
        (if m.shardHealthy s then "healthy" else "degraded").toList) True := by
      split_ifs
      · exact written_str (List.all_eq_true.mp (by decide))
      · exact written_str (List.all_eq_true.mp (by decide))
    exact (written_field hid (written_nat s) (written_field hcount
      (written_nat _) (written_field (by decide) hstatus
        written_obj_nil))).congr (by simp)
  exact (written_arr fun s _ => hshard s).congr (by simp)

theorem written_info (m : ShardManager dim) : Written (infoJson m) True :=
  (written_field (by decide) (written_nat _) (written_field (by decide)
    (written_nat _) (written_field (by decide) (written_int _)
      (written_field (by decide) (written_shards (by decide) (by decide) m)
        written_obj_nil)))).congr (by simp)

theorem written_metrics (nowMs : ℕ) (server : HttpApiServer dim) :
    Written (metricsJson nowMs server) True := by
  have hshards := written_shards (by decide : "id".toList.all isPlain = true)
    (by decide : "vectors".toList.all isPlain = true) server.mgr
  have hnumber {key : String} (hkey : key.toList.all isPlain = true) (n : ℕ)
      {fields : List (List Char × Json)} (h : Written (.obj fields) True) :
      Written (.obj (field key (nat n) :: fields)) True :=
    (written_field hkey (written_nat n) h).congr (by simp)
  have hlast : Written (.obj [field "shards"
      (shardsJson "id" "vectors" server.mgr)]) True :=
    (written_field (by decide) hshards written_obj_nil).congr (by simp)
  iterate 9 apply hnumber (by decide)
  exact hlast

theorem written_insert (shardId nodeId : ℕ) (vid : Int64) (us total : ℕ) :
    Written (insertJson shardId nodeId vid us total) True :=
  (written_field (by decide) (written_nat _) (written_field (by decide)
    (written_nat _) (written_field (by decide) (written_int _)
      (written_field (by decide) (written_nat _) (written_field (by decide)
        (written_nat _) written_obj_nil))))).congr (by simp)

theorem written_search {distanceText : D → String}
    (hwords : ∀ d, IsWord (distanceText d).toList) (us : ℕ)
    (sr : ShardSearchResult D) :
    Written (searchJson distanceText us sr)
      (∀ r ∈ sr.results, IsNumeral (distanceText r.dist).toList) := by
  have hresult (r : HNSWSearchResult D) :
      Written (resultJson distanceText r)
        (IsNumeral (distanceText r.dist).toList) :=
    (written_field (by decide) (written_nat _) (written_field (by decide)
      (written_num (hwords r.dist)) written_obj_nil)).congr (by simp)
  exact (written_field (by decide) (written_nat _) (written_field (by decide)
    (written_bool _) (written_field (by decide) (written_nat _)
      (written_field (by decide) (written_nat _) (written_field (by decide)
        (written_arr fun r _ => hresult r) written_obj_nil))))).congr
          (by simp)

theorem written_node {floatText : UInt32 → String}
    (hwords : ∀ w, IsWord (floatText w).toList) (report : NodeReport) :
    Written (nodeJson floatText report)
      (∀ w ∈ report.preview, IsNumeral (floatText w).toList) := by
  have hlayer (layer : ℕ) (neighbours : List ℕ) :
      Written (layerJson layer neighbours) True :=
    (written_field (by decide) (written_nat _) (written_field (by decide)
      (written_arr fun n _ => written_nat n) written_obj_nil)).congr (by simp)
  exact (written_field (by decide) (written_nat _) (written_field (by decide)
    (written_nat _) (written_field (by decide) (written_int _)
      (written_field (by decide) (written_nat _) (written_field (by decide)
        (written_arr fun w _ => written_num (hwords w))
          (written_field (by decide) (written_arr fun layer _ =>
            hlayer layer.2 layer.1) written_obj_nil)))))).congr (by simp)

end Written

end HttpApi

/-! ## Messages -/

namespace HttpApiServer

open HttpApi HttpRequest

/-- The length that a client reads in the headers. -/
def declaredLength (p : List Char) : Option ℕ :=
  (findText "Content-Length: ".toList p).bind fun q => stollDigits (q.drop 16)

/-- The body is behind the headers, and they declare its length. -/
structure Carries (response : String) (body : List Char) : Prop where
  parsed : parseBody response.toList = body
  length : declaredLength response.toList =
    some (String.ofList body).utf8ByteSize

/-- The lines of `ok_response` before the body. -/
def okLines (size : ℕ) : List (List Char) :=
  ["HTTP/1.1 200 OK".toList, "Content-Type: application/json".toList,
    "Content-Length: ".toList ++ (toString size).toList,
    "Access-Control-Allow-Origin: *".toList,
    "Access-Control-Allow-Methods: GET, POST, OPTIONS".toList,
    "Access-Control-Allow-Headers: Content-Type".toList,
    "Connection: close".toList]

theorem okResponse_toList (json : String) : (okResponse json).toList =
    (okLines json.utf8ByteSize).flatMap (· ++ crlf) ++
      (crlf ++ json.toList) := by
  have hstart : "HTTP/1.1 200 OK\r\nContent-Type: application/json\r\n".toList =
      "HTTP/1.1 200 OK".toList ++
        (crlf ++ ("Content-Type: application/json".toList ++ crlf)) := by
    decide
  have horigin : "Access-Control-Allow-Origin: *\r\n".toList =
      "Access-Control-Allow-Origin: *".toList ++ crlf := by decide
  have hmethods : "Access-Control-Allow-Methods: GET, POST, OPTIONS\r\n".toList =
      "Access-Control-Allow-Methods: GET, POST, OPTIONS".toList ++ crlf := by
    decide
  have hheaders : "Access-Control-Allow-Headers: Content-Type\r\n".toList =
      "Access-Control-Allow-Headers: Content-Type".toList ++ crlf := by decide
  have hconnection : "Connection: close\r\n\r\n".toList =
      "Connection: close".toList ++ (crlf ++ crlf) := by decide
  have hend : "\r\n".toList = crlf := rfl
  unfold okResponse okLines
  simp only [String.toList_append, List.flatMap_cons, List.flatMap_nil,
    List.append_assoc, List.append_nil, hstart, horigin, hmethods, hheaders,
    hconnection, hend]

theorem okLines_oneLine (size : ℕ) :
    ∀ line ∈ okLines size, line ≠ [] ∧ OneLine line := by
  have hdigits : ∀ c ∈ (toString size).toList, c.isDigit = true := by
    rw [Json.toList_nat]
    exact Json.isDigit_toDigits size
  have hsize : OneLine ("Content-Length: ".toList ++
      (toString size).toList) := by
    constructor
    · intro hmem
      rcases List.mem_append.mp hmem with hmem | hmem
      · exact absurd hmem (by decide)
      · exact absurd (hdigits _ hmem) (by decide)
    · intro hmem
      rcases List.mem_append.mp hmem with hmem | hmem
      · exact absurd hmem (by decide)
      · exact absurd (hdigits _ hmem) (by decide)
  unfold okLines
  simp only [List.forall_mem_cons, List.not_mem_nil, false_implies,
    implies_true, and_true]
  exact ⟨⟨by decide, by decide⟩, ⟨by decide, by decide⟩,
    ⟨List.cons_ne_nil _ _, hsize⟩, ⟨by decide, by decide⟩,
    ⟨by decide, by decide⟩, ⟨by decide, by decide⟩,
    ⟨by decide, by decide⟩⟩

theorem findText_contentLength (p : List Char) :
    findText "Content-Length: ".toList ("HTTP/1.1 200 OK".toList ++ (crlf ++
      ("Content-Type: application/json".toList ++ (crlf ++
        ("Content-Length: ".toList ++ p))))) =
      some ("Content-Length: ".toList ++ p) := rfl

theorem stollDigits_toString (n : ℕ) (p : List Char) :
    stollDigits ((toString n).toList ++ (crlf ++ p)) = some n := by
  have hnumeral : Numeral (Nat.toDigits 10 n) n := {
    ne_nil := Nat.toDigits_ne_nil
    isDigit := Json.isDigit_toDigits n
    value := Nat.ofDigitChars_toDigits (by decide) (by decide) }
  rw [Json.toList_nat]
  exact hnumeral.stollDigits (by
    intro c hc
    cases hc
    rfl)

theorem okResponse_carries (json : String) :
    Carries (okResponse json) json.toList where
  parsed := by
    have hend : findText headersEnd ((okLines json.utf8ByteSize).flatMap
        (· ++ crlf) ++ (crlf ++ json.toList)) =
          some (headersEnd ++ json.toList) :=
      findText_lines json.toList (List.cons_ne_nil _ _)
        (okLines_oneLine json.utf8ByteSize)
    rw [okResponse_toList, parseBody, hend]
    rfl
  length := by
    rw [String.ofList_toList, okResponse_toList]
    unfold okLines declaredLength
    simp only [List.flatMap_cons, List.append_assoc]
    rw [findText_contentLength, Option.bind_some]
    exact stollDigits_toString json.utf8ByteSize _

theorem notFound_carries : Carries (errResponse 404 "Not found")
    (errorText "Not found").toList where
  parsed := by decide +kernel
  length := by decide +kernel

theorem preflight_carries : Carries preflight [] where
  parsed := by decide +kernel
  length := by decide +kernel

/-! ## Replies -/

/-- What a response says. -/
inductive Reply (dim : UInt32) (D : Type) where
  | health
  | info (m : ShardManager dim)
  | metrics (nowMs : ℕ) (server : HttpApiServer dim)
  | found (us : ℕ) (sr : ShardSearchResult D)
  | stored (shardId nodeId : ℕ) (vid : Int64) (us total : ℕ)
  | node (report : NodeReport)
  | refused (message : String)

section Replies

variable {dim : UInt32} {D : Type}

def Reply.json (distanceText : D → String) (floatText : UInt32 → String) :
    Reply dim D → Json
  | .health => healthJson
  | .info m => infoJson m
  | .metrics nowMs server => metricsJson nowMs server
  | .found us sr => searchJson distanceText us sr
  | .stored shardId nodeId vid us total =>
      insertJson shardId nodeId vid us total
  | .node report => nodeJson floatText report
  | .refused message => errorJson message.toList

/-- What the stream writes for the reply are numerals. -/
def Reply.Numerals (distanceText : D → String) (floatText : UInt32 → String) :
    Reply dim D → Prop
  | .found _ sr =>
      ∀ r ∈ sr.results, Json.IsNumeral (distanceText r.dist).toList
  | .node report =>
      ∀ w ∈ report.preview, Json.IsNumeral (floatText w).toList
  | _ => True

/-- The text of a refusal needs no escapes. -/
def Reply.Plain : Reply dim D → Prop
  | .refused message => message.toList.all Json.isPlain = true
  | _ => True

theorem Reply.written {distanceText : D → String} {floatText : UInt32 → String}
    (hdistance : ∀ d, Json.IsWord (distanceText d).toList)
    (hfloat : ∀ w, Json.IsWord (floatText w).toList) {reply : Reply dim D}
    (hplain : reply.Plain) :
    Json.Written (reply.json distanceText floatText)
      (reply.Numerals distanceText floatText) := by
  cases reply with
  | health => exact written_health
  | info m => exact written_info m
  | metrics nowMs server => exact written_metrics nowMs server
  | found us sr => exact written_search hdistance us sr
  | stored shardId nodeId vid us total =>
      exact written_insert shardId nodeId vid us total
  | node report => exact written_node hfloat report
  | refused message => exact written_error hplain

/-- No handler takes the request. -/
structure Unrouted (req : List Char) : Prop where
  path : ∀ path ∈ ["/api/health", "/api/info", "/api/metrics", "/api/node"],
    parsePath req ≠ path.toList
  post : ∀ path ∈ ["/api/search", "/api/insert"], ¬ PostsTo path req

variable [Preorder D] [DecidableLT D] (lib : ServerRuntime dim D)
  (ctx : RequestContext) (req : List Char) (s : Running (HttpApiServer dim))

/-- What a request may be answered, and what it leaves. -/
inductive Replies : Reply dim D → Running (HttpApiServer dim) → Prop
  | health (hpath : parsePath req = "/api/health".toList) :
      Replies .health s
  | info (hpath : parsePath req = "/api/info".toList) :
      Replies (.info s.obj.mgr) s
  | metrics (hpath : parsePath req = "/api/metrics".toList) :
      Replies (.metrics ctx.nowMs s.obj) s
  | found (hposts : PostsTo "/api/search" req) {query : Vec dim}
      {sr : ShardSearchResult D} {m : ShardManager dim}
      (hread : readVector lib.convert dim "query" (parseBody req) = .ok query)
      (hsearch : s.obj.mgr.search lib.rt lib.partialSorter query
        (searchTopK (parseBody req)) 0 ctx.throws = (.ok sr, m)) :
      Replies (.found ctx.us sr)
        ⟨⟨m, s.obj.metrics.recordSearch (UInt64.ofNat ctx.us)⟩, s.memory⟩
  | stored (hposts : PostsTo "/api/insert" req) {vec : Vec dim}
      {out : ℕ × ℕ} {t : Running (ShardManager dim)}
      (hread : readVector lib.convert dim "vector" (parseBody req) = .ok vec)
      (hinsert : (ShardManager.tryInsert ctx.os lib.rt
        (insertId (parseBody req) s.obj.mgr).toUInt64 vec).run
          ⟨s.obj.mgr, s.memory⟩ = .ok out t) :
      Replies (.stored out.1 out.2 (insertId (parseBody req) s.obj.mgr) ctx.us
          t.obj.totalVectors)
        ⟨⟨t.obj, s.obj.metrics.recordInsert (UInt64.ofNat ctx.us)⟩, t.memory⟩
  | noQuery (hposts : PostsTo "/api/search" req) {message : String}
      (hread : readVector lib.convert dim "query" (parseBody req) =
        .error (errorText message)) :
      Replies (.refused message) s
  | noVector (hposts : PostsTo "/api/insert" req) {message : String}
      (hread : readVector lib.convert dim "vector" (parseBody req) =
        .error (errorText message)) :
      Replies (.refused message) s
  | node (hpath : parsePath req = "/api/node".toList) {report : NodeReport}
      (hnode : inspectQuery s.obj.mgr (parseQuery req) = .ok (.ok report)) :
      Replies (.node report) s
  | noNode (hpath : parsePath req = "/api/node".toList) {message : String}
      (hnode : inspectQuery s.obj.mgr (parseQuery req) =
        .ok (.error (errorText message))) :
      Replies (.refused message) s
  | notFound (hroute : Unrouted req) : Replies (.refused "Not found") s

theorem all_isPlain_nat (n : ℕ) :
    (toString n).toList.all Json.isPlain = true :=
  List.all_eq_true.mpr fun c hc =>
    Json.isPlain_of_isWordChar ((Json.isWord_nat n).chars c hc)

theorem all_isPlain_int (z : ℤ) :
    (toString z).toList.all Json.isPlain = true :=
  List.all_eq_true.mpr fun c hc =>
    Json.isPlain_of_isWordChar ((Json.isWord_int z).chars c hc)

theorem missingText_eq (key : String) :
    missingText key = errorText ("missing " ++ key ++ " array") := by
  have hstart : "\x7b\"error\":\"missing " =
      "\x7b\"error\":\"" ++ "missing " := by decide
  have hend : " array\"\x7d" = " array" ++ "\"\x7d" := by decide
  unfold missingText errorText
  rw [hstart, hend]
  simp only [String.append_assoc]

theorem dimText_eq (dim : UInt32) (key : String) (size : ℕ) :
    dimText dim key size = errorText (key ++ " dim=" ++ toString size ++
      " but index dim=" ++ toString dim.toInt32.toInt) := by
  unfold dimText errorText
  simp only [String.append_assoc]

theorem readVector_error {convert : List Char → Option UInt32}
    {key text : String} (hkey : key.toList.all Json.isPlain = true)
    {body : List Char} (h : readVector convert dim key body = .error text) :
    ∃ message, text = errorText message ∧
      message.toList.all Json.isPlain = true := by
  unfold readVector at h
  dsimp only at h
  split_ifs at h
  · refine ⟨_, (Except.error.inj h).symm.trans (missingText_eq key), ?_⟩
    simp only [String.toList_append, List.all_append, hkey, Bool.and_true]
    decide
  · refine ⟨_, (Except.error.inj h).symm.trans (dimText_eq dim key _), ?_⟩
    simp only [String.toList_append, List.all_append, hkey, all_isPlain_nat,
      all_isPlain_int, Bool.and_true]
    decide

theorem inspectQuery_error {m : ShardManager dim} {qstr : List Char}
    {text : String} (h : inspectQuery m qstr = .ok (.error text)) :
    ∃ message, text = errorText message ∧
      message.toList.all Json.isPlain = true := by
  have hrefusal {message : String}
      (hplain : message.toList.all Json.isPlain = true)
      (hr : refusal message = .ok (.error text)) :
      ∃ message, text = errorText message ∧
        message.toList.all Json.isPlain = true := by
    exact ⟨message, (Except.error.inj (Except.ok.inj hr)).symm, hplain⟩
  unfold inspectQuery at h
  dsimp only at h
  split_ifs at h with hid
  · exact hrefusal (by decide) h
  · cases hn : stoul (parseQueryParam qstr "id") with
    | none =>
        rw [hn] at h
        exact hrefusal (by decide) h
    | some n =>
        rw [hn] at h
        dsimp only at h
        unfold inspect at h
        split_ifs at h with hshard
        · exact hrefusal (by decide) h
        · rw [except_bind_eq_ok] at h
          obtain ⟨index, _, h⟩ := h
          cases index with
          | none => exact hrefusal (by decide) h
          | some index =>
              dsimp only at h
              split_ifs at h with hsize
              · exact hrefusal (by decide) h
              · unfold describeNode at h
                rw [except_bind_eq_ok] at h
                obtain ⟨vec, _, h⟩ := h
                cases h

theorem respond_eq_ok {x : EStateM Failure (Running (HttpApiServer dim)) String}
    {text : String} {s s' : Running (HttpApiServer dim)}
    (h : (respond x).run s = .ok text s') :
    ∃ json, x.run s = .ok json s' ∧ text = okResponse json := by
  obtain ⟨json, r, hx, hr⟩ := bind_eq_ok.mp h
  cases hr
  exact ⟨json, hx, rfl⟩

theorem recorded_eq_ok
    {x : EStateM Failure (Running (ShardManager dim)) String}
    {accepted : Bool} {record : MetricsStore → MetricsStore} {text : String}
    {s s' : Running (HttpApiServer dim)}
    (h : (recorded accepted record x).run s = .ok text s') :
    ∃ t, x.run ⟨s.obj.mgr, s.memory⟩ = .ok text t ∧
      s' = ⟨⟨t.obj, if accepted = true then record s.obj.metrics
        else s.obj.metrics⟩, t.memory⟩ := by
  obtain ⟨text', r, hx, hr⟩ := bind_eq_ok.mp h
  obtain ⟨t, ht, rfl⟩ := onPart_eq_ok.mp hx
  have hrun := recorded_of_ok (s := s) ht accepted record
  rw [h] at hrun
  cases hrun
  exact ⟨t, ht, rfl⟩

/-- The response carries the text of a value that the reply stands for. -/
structure Says (distanceText : D → String) (floatText : UInt32 → String)
    (response : String) (reply : Reply dim D) : Prop where
  plain : reply.Plain
  carries : Carries response (reply.json distanceText floatText).text

omit [Preorder D] [DecidableLT D] in
theorem says_ok {distanceText : D → String} {floatText : UInt32 → String}
    {json : String} {reply : Reply dim D} (hplain : reply.Plain)
    (htext : json.toList = (reply.json distanceText floatText).text) :
    Says distanceText floatText (okResponse json) reply :=
  ⟨hplain, htext ▸ okResponse_carries json⟩

omit [Preorder D] [DecidableLT D] in
theorem says_refused {distanceText : D → String} {floatText : UInt32 → String}
    {message : String} (hplain : message.toList.all Json.isPlain = true) :
    Says distanceText floatText (okResponse (errorText message))
      (.refused message : Reply dim D) :=
  says_ok hplain (errorText_json message)

variable {lib ctx req s} {floatText : UInt32 → String} {text : String}
  {s' : Running (HttpApiServer dim)}

theorem handleSearch_replies (hposts : PostsTo "/api/search" req)
    (h : (respond (handleSearch lib ctx (parseBody req))).run s =
      .ok text s') :
    ∃ reply, Replies lib ctx req s reply s' ∧
      Says lib.distanceText floatText text reply := by
  obtain ⟨json, hjson, rfl⟩ := respond_eq_ok h
  obtain ⟨t, hrun, rfl⟩ := recorded_eq_ok hjson
  cases hread : readVector lib.convert dim "query" (parseBody req) with
  | error refusal =>
      obtain ⟨message, rfl, hplain⟩ := readVector_error (by decide) hread
      rw [searchManager_of_refused hread] at hrun
      obtain ⟨rfl, rfl⟩ := EStateM.Result.ok.inj hrun
      exact ⟨_, .noQuery hposts hread, says_refused hplain⟩
  | ok query =>
      obtain ⟨sr, hsearch, hmemory, rfl⟩ := searchManager_eq_ok hread hrun
      obtain ⟨m, memory⟩ := t
      obtain rfl : memory = s.memory := hmemory
      exact ⟨_, .found hposts hread hsearch,
        says_ok trivial (searchText_json ..)⟩

theorem handleInsert_replies (hposts : PostsTo "/api/insert" req)
    (h : (respond (handleInsert lib ctx (parseBody req))).run s =
      .ok text s') :
    ∃ reply, Replies lib ctx req s reply s' ∧
      Says lib.distanceText floatText text reply := by
  obtain ⟨json, hjson, rfl⟩ := respond_eq_ok h
  obtain ⟨t, hrun, rfl⟩ := recorded_eq_ok hjson
  cases hread : readVector lib.convert dim "vector" (parseBody req) with
  | error refusal =>
      obtain ⟨message, rfl, hplain⟩ := readVector_error (by decide) hread
      have hrefused : (insertManager lib ctx (parseBody req)).run
          ⟨s.obj.mgr, s.memory⟩ = .ok (errorText message)
            ⟨s.obj.mgr, s.memory⟩ := handleInsert_refused hread
      rw [hrefused] at hrun
      obtain ⟨rfl, rfl⟩ := EStateM.Result.ok.inj hrun
      exact ⟨_, .noVector hposts hread, says_refused hplain⟩
  | ok vec =>
      obtain ⟨out, hinsert, rfl⟩ := handleInsert_eq_ok hread hrun
      exact ⟨_, .stored hposts hread hinsert, says_ok trivial
        (insertText_json ..)⟩

theorem handleNode_replies (hpath : parsePath req = "/api/node".toList)
    (h : (respond (compute fun server : HttpApiServer dim =>
      HttpApi.handleNode floatText (parseQuery req) server.mgr)).run s =
        .ok text s') :
    ∃ reply, Replies lib ctx req s reply s' ∧
      Says lib.distanceText floatText text reply := by
  obtain ⟨json, hjson, rfl⟩ := respond_eq_ok h
  obtain ⟨hjson, rfl⟩ := compute_eq_ok.mp hjson
  rw [handleNode_eq] at hjson
  cases hanswer : inspectQuery s'.obj.mgr (parseQuery req) with
  | error e =>
      rw [hanswer] at hjson
      cases hjson
  | ok answer =>
      rw [hanswer] at hjson
      cases answer with
      | ok report =>
          obtain rfl := Except.ok.inj hjson
          exact ⟨_, .node hpath hanswer, says_ok trivial (nodeText_json ..)⟩
      | error refusal =>
          obtain rfl := Except.ok.inj hjson
          obtain ⟨message, rfl, hplain⟩ := inspectQuery_error hanswer
          exact ⟨_, .noNode hpath hanswer, says_refused hplain⟩

theorem handleRequest_replies (hoptions : parseMethod req ≠ "OPTIONS".toList)
    (h : (handleRequest lib ctx floatText req).run s = .ok text s') :
    ∃ reply, Replies lib ctx req s reply s' ∧
      Says lib.distanceText floatText text reply := by
  unfold handleRequest at h
  dsimp only at h
  rw [if_neg hoptions] at h
  split_ifs at h with hhealth hinfo hmetrics hsearch hinsert hnode
  · obtain ⟨json, hjson, rfl⟩ := respond_eq_ok h
    obtain ⟨rfl, rfl⟩ := EStateM.Result.ok.inj hjson
    exact ⟨.health, .health hhealth, says_ok trivial rfl⟩
  · obtain ⟨json, hjson, rfl⟩ := respond_eq_ok h
    obtain ⟨hjson, rfl⟩ := compute_eq_ok.mp hjson
    obtain rfl := Except.ok.inj hjson
    exact ⟨.info _, .info hinfo, says_ok trivial (handleInfo_json _)⟩
  · obtain ⟨json, hjson, rfl⟩ := respond_eq_ok h
    obtain ⟨hjson, rfl⟩ := compute_eq_ok.mp hjson
    obtain rfl := Except.ok.inj hjson
    exact ⟨.metrics _ _, .metrics hmetrics,
      says_ok trivial (handleMetrics_json ..)⟩
  · exact handleSearch_replies hsearch h
  · exact handleInsert_replies hinsert h
  · exact handleNode_replies hnode h
  · obtain ⟨rfl, rfl⟩ := EStateM.Result.ok.inj h
    have hplain : "Not found".toList.all Json.isPlain = true := by decide
    have hroute : Unrouted req := by
      constructor
      · simp only [List.forall_mem_cons]
        exact ⟨hhealth, hinfo, hmetrics, hnode, List.forall_mem_nil _⟩
      · simp only [List.forall_mem_cons]
        exact ⟨hsearch, hinsert, List.forall_mem_nil _⟩
    exact ⟨.refused "Not found", .notFound hroute, hplain,
      errorText_json "Not found" ▸ notFound_carries⟩

/-- What is sent to a client is a message.  Its body is the JSON text of a
reply to the request, unless that only asks for the options: the reply is read
back if the distances and components in it are numerals, and otherwise the body
is no JSON. -/
theorem response_decodes (lib : ServerRuntime dim D)
    (hdistance : ∀ d, Json.IsWord (lib.distanceText d).toList)
    (hfloat : ∀ w, Json.IsWord (floatText w).toList)
    (h : (handleRequest lib ctx floatText req).run s = .ok text s') :
    (parseMethod req = "OPTIONS".toList ∧ s' = s ∧ Carries text []) ∨
      parseMethod req ≠ "OPTIONS".toList ∧
      ∃ reply body, Replies lib ctx req s reply s' ∧ Carries text body ∧
        (reply.Numerals lib.distanceText floatText →
          Json.read body = some (reply.json lib.distanceText floatText)) ∧
        (¬ reply.Numerals lib.distanceText floatText →
          Json.read body = none) := by
  by_cases hoptions : parseMethod req = "OPTIONS".toList
  · unfold handleRequest at h
    dsimp only at h
    rw [if_pos hoptions] at h
    obtain ⟨rfl, rfl⟩ := EStateM.Result.ok.inj h
    exact .inl ⟨hoptions, rfl, preflight_carries⟩
  · obtain ⟨reply, hreplies, hplain, hcarries⟩ :=
      handleRequest_replies hoptions h
    have hwritten := Reply.written hdistance hfloat hplain
    exact .inr ⟨hoptions, reply, _, hreplies, hcarries,
      hwritten.read_eq_some, hwritten.read_eq_none⟩

end Replies

/-- A search without a header. -/
def searchOne : List Char :=
  "POST /api/search HTTP/1.1\r\n\r\n\x7b\"query\":[1]\x7d".toList

theorem response_decodes_searchOne :
    ∃ m text server body, ∃ reply : Reply Deployment.oneShard.Dim ℕ,
      Deployment.oneShard.start OS.reliable (fun _ i => i)
        (fun _ => ShardState.noFiles) = .ok m ∧
      (handleRequest oneShardRuntime grantedContext wordText searchOne).run
        (Deployment.serving m) = .ok text ⟨server, ample⟩ ∧
      Carries text body ∧
      Json.read body = some (reply.json toString wordText) := by
  obtain ⟨m, hstart⟩ := Deployment.oneShard_start fun _ i => i
  have hposts : PostsTo "/api/search" searchOne := by decide
  have hshards : (Deployment.serving m).obj.mgr.shards.length * 1000 <
      2 ^ 31 := by
    change m.shards.length * 1000 < 2 ^ 31
    rw [(Deployment.start_fresh hstart).length_eq]
    decide
  obtain ⟨text, server, hserved⟩ : ∃ text server,
      Deployment.Served Deployment.oneShard oneShardRuntime wordText
        ⟨grantedContext, searchOne⟩ (Deployment.serving m).obj
        (askedSearch oneShardRuntime ⟨grantedContext, searchOne⟩).toList text
        server := Deployment.served_search rfl hposts hshards
  have hdecodes := response_decodes oneShardRuntime Json.isWord_nat
    (fun w => Json.isWord_nat w.toNat) hserved.run
  rcases hdecodes with
    ⟨hoptions, _⟩ | ⟨_, reply, body, _, hcarries, hread, _⟩
  · exact absurd hoptions (by decide)
  · refine ⟨m, text, server, body, reply, hstart, hserved.run, hcarries,
      hread ?_⟩
    cases reply with
    | found us sr => exact fun r _ => Json.isNumeral_nat r.dist
    | node report => exact fun w _ => Json.isNumeral_nat w.toNat
    | _ => exact trivial

end HttpApiServer
end VecDB
