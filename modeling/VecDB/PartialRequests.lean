import VecDB.AutomaticIds
import VecDB.HttpIds
import VecDB.HttpServer
import Mathlib.Data.UInt
import Mathlib.Tactic

/-!
# Requests that are received in part

`handle_client` takes what its one `recv` returns for the request.  What is
left out at the end of the body is left out of what the searches find: an array
is found whole or not at all, but a numeral may be found in part, or not be
found while the array is.
-/

namespace VecDB

open StateRules Running

namespace HttpApi

/-! ## Searching a part of a text -/

section Parts

variable {needle p q r : List Char} {c : Char} {key : String}
  {convert : List Char → Option UInt32} {dim : UInt32} {vec : Vec dim}

theorem findText_append (h : findText needle p = some r) (q : List Char) :
    findText needle (p ++ q) = some (r ++ q) := by
  induction p with
  | nil =>
      rw [findText] at h
      split_ifs at h with hneedle
      cases h
      exact findText_of_starts (hneedle ▸ List.nil_prefix)
  | cons c p ih =>
      by_cases hstarts : needle <+: c :: p
      · rw [findText_of_starts hstarts] at h
        cases h
        exact findText_of_starts (hstarts.trans (List.prefix_append _ q))
      · rw [findText_cons hstarts] at h
        have hlonger : ¬ needle <+: c :: (p ++ q) := by
          intro hlonger
          obtain ⟨pre, rfl, hr⟩ := findText_eq_some h
          refine hstarts (List.prefix_of_prefix_length_le hlonger
            (List.prefix_append (c :: (pre ++ r)) q) ?_)
          have hlength := hr.length_le
          rw [List.length_cons, List.length_append]
          omega
        rw [List.cons_append, findText_cons hlonger, ih h]

theorem findChar_eq_some (h : findChar c p = some r) :
    ∃ pre, p = pre ++ c :: r ∧ c ∉ pre := by
  unfold findChar at h
  split at h
  · cases h
  · next d p' hdrop =>
      cases h
      have hd : d = c := by
        have hhead := List.head?_dropWhile_not (fun d => decide (d ≠ c)) p
        rw [hdrop] at hhead
        simpa using hhead
      refine ⟨p.takeWhile (· ≠ c), ?_, fun hmem => ?_⟩
      · rw [← hd, ← hdrop, hd, List.takeWhile_append_dropWhile]
      · simpa using List.mem_takeWhile_imp hmem

theorem arrayText_eq_some (h : arrayText p key = some r) :
    ∃ pre rest, findText (quoted key) p =
        some (pre ++ '[' :: (r ++ ']' :: rest)) ∧ '[' ∉ pre ∧ ']' ∉ r := by
  unfold arrayText at h
  obtain ⟨u, hfind, h⟩ := Option.bind_eq_some_iff.mp h
  obtain ⟨v, hopen, h⟩ := Option.bind_eq_some_iff.mp h
  split_ifs at h with hclose
  cases h
  obtain ⟨pre, rfl, hpre⟩ := findChar_eq_some hopen
  obtain ⟨w, rest, rfl, hw⟩ := List.eq_append_cons_of_mem hclose
  rw [takeWhile_until hw]
  exact ⟨pre, rest, hfind, hpre, hw⟩

/-- An array that is found in a part of the body is found in the body. -/
theorem arrayText_append (h : arrayText p key = some r) (q : List Char) :
    arrayText (p ++ q) key = some r := by
  obtain ⟨pre, rest, hfind, hpre, hr⟩ := arrayText_eq_some h
  refine arrayText_of_find (q := rest ++ q) ?_ hpre hr
  rw [findText_append hfind q]
  simp

theorem readVector_append (h : readVector convert dim key p = .ok vec)
    (q : List Char) : readVector convert dim key (p ++ q) = .ok vec := by
  rw [readVector_eq_ok] at h ⊢
  obtain ⟨arr, harr, hread⟩ := h
  exact ⟨arr, arrayText_append harr q, hread⟩

theorem readVector_nil : readVector convert dim key [] =
    .error (missingText key) := rfl

end Parts

end HttpApi
/-! ## What the two handlers do -/

namespace ShardManager

variable {dim : UInt32}

/-- The indexes are well formed. -/
def Searchable (m : ShardManager dim) : Prop :=
  ∀ ss ∈ m.shards, ∃ layers, HNSWIndex.RepInv ss.index layers

/-- The shard behind a search that runs out of memory where `throws` says. -/
def struck (throws : ℕ → Bool) (ss : ShardState dim) : ShardState dim :=
  if ss.healthy = true ∧ throws ss.shardId = true then
    { ss with healthy := false }
  else ss

variable {D : Type} [Preorder D] [DecidableLT D]

/-- What a search does to the shards depends on neither query nor `topK`. -/
theorem Searchable.search_snd {m : ShardManager dim} (h : m.Searchable)
    (rt : Runtime (Vec dim) D) (ps : PartialSorter (HNSWSearchResult D))
    (query : Vec dim) {topK : Int32} (htopK : 0 ≤ topK.toInt) (ef : Int32)
    (throws : ℕ → Bool) :
    (m.search rt ps query topK ef throws).2 =
      { m with shards := m.shards.map (struck throws) } := by
  have hsettled : m.shards.map
      (settled (m.searchTasks rt query topK ef throws)) =
      m.shards.map (struck throws) := by
    apply List.map_congr_left
    intro ss hss
    obtain ⟨layers, hrep⟩ := h ss hss
    unfold settled struck searchTasks ShardState.searchTask
    by_cases hhealthy : ss.healthy = false
    · simp [hhealthy, Except.isOk, Except.toBool]
    · by_cases hthrows : throws ss.shardId = true
      · simp [hhealthy, hthrows, Except.isOk, Except.toBool]
      · rcases hrep.search_returns rt query topK (efActual m.cfg ef) with
          ⟨out, hout⟩ | ⟨hneg, _⟩
        · simp [hhealthy, hthrows, hout, Except.isOk, Except.toBool]
        · omega
  rw [ShardManager.search_snd, hsettled]

end ShardManager

namespace HttpApi

theorem searchTopK_nonneg (body : List Char) : 0 ≤ (searchTopK body).toInt := by
  unfold searchTopK
  dsimp only
  split_ifs with hout
  · decide
  · rw [not_or, Int32.le_iff_toInt_le] at hout
    have hzero : (0 : Int32).toInt = 0 := rfl
    omega

theorem searchTopK_le (body : List Char) : (searchTopK body).toInt ≤ 1000 := by
  unfold searchTopK
  dsimp only
  split_ifs with hout
  · decide
  · rw [not_or, Int32.lt_iff_toInt_lt] at hout
    have hmost : (1000 : Int32).toInt = 1000 := rfl
    omega

/-- The limit of a request keeps the candidates of few shards few. -/
theorem countsEnough_searchTopK {dim : UInt32} {D : Type} [Preorder D]
    [DecidableLT D] (rt : Runtime (Vec dim) D) (query : Vec dim)
    (body : List Char) (throws : ℕ → Bool) {m : ShardManager dim}
    (hshards : m.shards.length * 1000 < 2 ^ 31) :
    CountsEnough (m.partials rt query (searchTopK body) 0 throws)
      (searchTopK body) := by
  have hnonneg := searchTopK_nonneg body
  have hle : (searchTopK body).toInt.toNat ≤ 1000 := by
    have := searchTopK_le body
    omega
  exact ShardManager.countsEnough_of_shards rt query hnonneg 0 throws
    ((Nat.mul_le_mul_left _ hle).trans_lt hshards)

/-- The id that a body names: one that is negative or no numeral counts for
none. -/
def namedId (body : List Char) : Option UInt64 :=
  let vid := parseInt64Field body "vector_id" (-1)
  if vid < 0 then none else some vid.toUInt64

theorem insertId_eq {dim : UInt32} (body : List Char) (m : ShardManager dim) :
    (insertId body m).toUInt64 =
      (namedId body).getD (UInt64.ofNat m.totalVectors) := by
  unfold insertId namedId
  dsimp only
  split_ifs
  · rfl
  · rfl

end HttpApi

namespace HttpApiServer

open HttpApi

variable {dim : UInt32} {D : Type} [Preorder D] [DecidableLT D]
  {lib : ServerRuntime dim D} {ctx : RequestContext} {body : List Char}
  {vec : Vec dim} {text : String} {s : Running (ShardManager dim)}

theorem searchManager_refused
    (hread : readVector lib.convert dim "query" body = .error text) :
    (after (searchManager lib ctx body) s).obj = s.obj := by
  unfold searchManager
  rw [after_answered]
  unfold HttpApi.handleSearch
  rw [hread]

theorem searchManager_read (hs : s.obj.Searchable)
    (hread : readVector lib.convert dim "query" body = .ok vec) :
    (after (searchManager lib ctx body) s).obj = { s.obj with
      shards := s.obj.shards.map (ShardManager.struck ctx.throws) } := by
  unfold searchManager
  rw [after_answered]
  unfold HttpApi.handleSearch
  rw [hread]
  exact hs.search_snd lib.rt lib.partialSorter vec
    (searchTopK_nonneg body) 0 ctx.throws

theorem insertManager_refused
    (hread : readVector lib.convert dim "vector" body = .error text) :
    (after (insertManager lib ctx body) s).obj = s.obj := by
  unfold insertManager
  rw [after_of_ok (handleInsert_refused hread)]

theorem insertManager_read
    (hread : readVector lib.convert dim "vector" body = .ok vec) :
    (after (insertManager lib ctx body) s).obj =
      (after (ShardManager.tryInsert ctx.os lib.rt ((namedId body).getD
        (UInt64.ofNat s.obj.totalVectors)) vec) s).obj := by
  unfold insertManager
  rw [after_handleInsert hread, insertId_eq]

end HttpApiServer

/-! ## Requests -/

/-- A character is a byte, and a header has its blanks with its value. -/
structure HttpRequest where
  method : List Char
  target : List Char
  version : List Char
  headers : List (List Char × List Char)
  body : List Char

namespace HttpRequest

open HttpApi HttpApiServer

def crlf : List Char := "\r\n".toList

def requestLine (r : HttpRequest) : List Char :=
  r.method ++ ' ' :: (r.target ++ ' ' :: r.version)

def headerLine (header : List Char × List Char) : List Char :=
  header.1 ++ ':' :: header.2

def lines (r : HttpRequest) : List (List Char) :=
  r.requestLine :: r.headers.map headerLine

def text (r : HttpRequest) : List Char :=
  r.lines.flatMap (· ++ crlf) ++ (crlf ++ r.body)

def OneLine (p : List Char) : Prop := '\r' ∉ p ∧ '\n' ∉ p

instance (p : List Char) : Decidable (OneLine p) :=
  inferInstanceAs (Decidable (_ ∧ _))

structure WellFormed (r : HttpRequest) : Prop where
  method : OneLine r.method ∧ ' ' ∉ r.method
  target : OneLine r.target ∧ ' ' ∉ r.target
  version : OneLine r.version
  headers : ∀ header ∈ r.headers, OneLine header.1 ∧ OneLine header.2
  contentLength : ∃ name a digits b,
    (name, a ++ (digits ++ b)) ∈ r.headers ∧
      name.map Char.toLower = "content-length".toList ∧
      (∀ c ∈ a ++ b, c = ' ' ∨ c = '\t') ∧ Numeral digits r.body.length

variable {r : HttpRequest} {p q received : List Char} {path : String}

/-! ### The body -/

theorem WellFormed.lines (h : r.WellFormed) :
    ∀ line ∈ r.lines, line ≠ [] ∧ OneLine line := by
  intro line hline
  unfold HttpRequest.lines at hline
  rcases List.mem_cons.mp hline with rfl | hheader
  · have hmethod := h.method.1
    have htarget := h.target.1
    have hversion := h.version
    unfold OneLine at *
    simp [requestLine, hmethod, htarget, hversion]
  · obtain ⟨header, hmem, rfl⟩ := List.mem_map.mp hheader
    obtain ⟨hname, hvalue⟩ := h.headers header hmem
    unfold OneLine at *
    simp [headerLine, hname, hvalue]

theorem headersEnd_append (p : List Char) :
    headersEnd ++ p = '\r' :: '\n' :: '\r' :: '\n' :: p := rfl

theorem findText_line {line : List Char} (hline : OneLine line) :
    findText headersEnd (line ++ p) = findText headersEnd p := by
  apply findText_skip
  rintro s u rfl hu ⟨rest, hrest⟩
  obtain ⟨c, u, rfl⟩ := List.exists_cons_of_ne_nil hu
  rw [headersEnd_append, List.cons_append] at hrest
  obtain ⟨rfl, -⟩ := List.cons.inj hrest
  exact hline.1 (List.mem_append_right s List.mem_cons_self)

/-- No headers end where a line follows. -/
theorem findText_crlf {c : Char} (hc : c ≠ '\r') :
    findText headersEnd (crlf ++ c :: p) = findText headersEnd (c :: p) := by
  have hfirst : ¬ headersEnd <+: '\r' :: '\n' :: c :: p := by
    rintro ⟨rest, hrest⟩
    rw [headersEnd_append] at hrest
    simp only [List.cons.injEq] at hrest
    exact hc hrest.2.2.1.symm
  have hsecond : ¬ headersEnd <+: '\n' :: c :: p := by
    rintro ⟨rest, hrest⟩
    rw [headersEnd_append] at hrest
    simp at hrest
  change findText headersEnd ('\r' :: '\n' :: c :: p) = _
  rw [findText_cons hfirst, findText_cons hsecond]

theorem findText_lines (body : List Char) {lines : List (List Char)}
    (hne : lines ≠ []) (h : ∀ line ∈ lines, line ≠ [] ∧ OneLine line) :
    findText headersEnd (lines.flatMap (· ++ crlf) ++ (crlf ++ body)) =
      some (headersEnd ++ body) := by
  induction lines with
  | nil => exact absurd rfl hne
  | cons line lines ih =>
      obtain ⟨hline, hlines⟩ := List.forall_mem_cons.mp h
      rw [List.flatMap_cons, List.append_assoc, List.append_assoc,
        findText_line hline.2]
      cases lines with
      | nil => exact findText_of_starts (List.prefix_append headersEnd body)
      | cons next lines =>
          have hnext := ih (List.cons_ne_nil next lines) hlines
          obtain ⟨hnonempty, hone⟩ := hlines next List.mem_cons_self
          obtain ⟨c, next, rfl⟩ := List.exists_cons_of_ne_nil hnonempty
          have hc : c ≠ '\r' := fun heq => hone.1 (by simp [heq])
          rw [List.flatMap_cons, List.cons_append, List.cons_append,
            List.cons_append] at hnext ⊢
          rw [findText_crlf hc, hnext]

theorem WellFormed.parseBody_text (h : r.WellFormed) :
    parseBody r.text = r.body := by
  have hend : findText headersEnd r.text = some (headersEnd ++ r.body) :=
    findText_lines r.body (List.cons_ne_nil _ _) h.lines
  unfold parseBody
  rw [hend]
  rfl

/-! ### The method and the path -/

/-- What comes before the version. -/
def start (r : HttpRequest) : List Char :=
  r.method ++ ' ' :: (r.target ++ [' '])

theorem start_prefix_text (r : HttpRequest) : r.start <+: r.text := by
  unfold HttpRequest.text HttpRequest.lines
  rw [List.flatMap_cons]
  exact ⟨r.version ++ crlf ++ (r.headers.map headerLine).flatMap (· ++ crlf) ++
    (crlf ++ r.body), by simp [start, requestLine]⟩

theorem WellFormed.parse (h : r.WellFormed) (hp : r.start <+: p) :
    parseMethod p = r.method ∧ requestTarget p = r.target := by
  obtain ⟨q, rfl⟩ := hp
  have htext : r.start ++ q = r.method ++ ' ' :: (r.target ++ ' ' :: q) := by
    simp [start]
  rw [htext]
  constructor
  · exact takeWhile_until h.method.2 _
  · unfold requestTarget
    rw [findChar_skip h.method.2]
    exact takeWhile_until h.target.2 q

/-- The request is posted to a path. -/
def Posts (r : HttpRequest) (path : String) : Prop :=
  r.target.takeWhile (· ≠ '?') = path.toList ∧ r.method = "POST".toList

theorem WellFormed.postsTo_iff (h : r.WellFormed) (hp : r.start <+: p) :
    PostsTo path p ↔ r.Posts path := by
  obtain ⟨hmethod, htarget⟩ := h.parse hp
  unfold PostsTo Posts parsePath
  rw [hmethod, htarget]

/-! ### A part of a request -/

/-- Where the headers end, all that comes before the version is there. -/
theorem WellFormed.start_prefix (h : r.WellFormed) (hp : p <+: r.text)
    (hend : findText headersEnd p = some q) : r.start <+: p := by
  rcases List.prefix_or_prefix_of_prefix hp r.start_prefix_text with
    hshort | hlong
  · obtain ⟨pre, hpre, hstarts⟩ := findText_eq_some hend
    have hmem : '\r' ∈ p := by
      rw [hpre]
      exact List.mem_append_right pre (hstarts.subset (by decide))
    have hreturn := hshort.subset hmem
    simp [start, h.method.1.1, h.target.1.1] at hreturn
  · exact hlong

theorem WellFormed.parseBody_prefix (h : r.WellFormed) (hp : p <+: r.text) :
    parseBody p <+: r.body := by
  cases hend : findText headersEnd p with
  | none =>
      unfold parseBody
      rw [hend]
      exact List.nil_prefix
  | some q =>
      obtain ⟨rest, htext⟩ := hp
      have hwhole := findText_append hend rest
      have hbody := h.parseBody_text
      obtain ⟨pre, _, hstarts⟩ := findText_eq_some hend
      rw [← htext] at hbody
      unfold parseBody at hbody ⊢
      rw [hwhole] at hbody
      rw [hend, ← hbody]
      have hlength : 4 ≤ q.length := hstarts.length_le
      dsimp only
      rw [List.drop_append_of_le_length hlength]
      exact List.prefix_append _ rest

end HttpRequest
/-! ## Different ids -/

namespace Deployment

open LoggedStore

variable {D : Type} [Preorder D] [DecidableLT D] {dep : Deployment D}
  {ring : ConsistentHashRing} {states others : ℕ → Stored dep.Dim}
  {m : ShardManager dep.Dim}

theorem Refines.log_unique (h : Refines dep ring states m)
    (h' : Refines dep ring others m) {s : ℕ}
    (hs : s < dep.shardCount.toNat) : (states s).log = (others s).log := by
  obtain ⟨ss, hss⟩ := h.getElem? hs
  exact (h.shard s ss hss).1.log.holds.unique (h'.shard s ss hss).1.log.holds

/-- The shard has room for one vector more. -/
def Room (dep : Deployment D) (a : Stored dep.Dim) : Prop :=
  a.log.length < 2 ^ 33 ∧ HNSWIndex.Storable dep.cfg (a.live.length + 1)

/-- Under different ids, a vector leaves different managers, and none of them
is the old one. -/
theorem Refines.tryInsert_ne (h : Refines dep ring states m)
    (hentry : WAL.entrySize dep.Dim ≤ WAL.growSize)
    (hroom : ∀ s, Room dep (states s)) {v w : UInt64} (hne : v ≠ w)
    (vec : Vec dep.Dim) :
    (after (ShardManager.tryInsert OS.reliable dep.rt v vec)
        ⟨m, ample⟩).obj ≠
      (after (ShardManager.tryInsert OS.reliable dep.rt w vec)
        ⟨m, ample⟩).obj ∧
    (after (ShardManager.tryInsert OS.reliable dep.rt v vec)
      ⟨m, ample⟩).obj ≠ m := by
  obtain ⟨s, hs, hlt⟩ := h.getShard_lt v
  obtain ⟨t, ht, _⟩ := h.getShard_lt w
  obtain ⟨m₁, hfirst, hnext₁⟩ := h.tryInsert_ok hentry hs (hroom s).1
    (hroom s).2 vec
  obtain ⟨m₂, hsecond, hnext₂⟩ := h.tryInsert_ok hentry ht (hroom t).1
    (hroom t).2 vec
  have hadded : (serve 1000 Prod.snd (request ring s (.insert v vec)).toList
      (states s)).log = (states s).log ++ [(v, vec)] := by
    simp [request, hs, add]
  rw [after_of_ok hfirst, after_of_ok hsecond]
  constructor
  · rintro rfl
    have hlog := hnext₁.log_unique hnext₂ hlt
    rw [hadded] at hlog
    by_cases hw : ring.getShard w = .ok s
    · simp [request, hw, add, hne] at hlog
    · simp [request, hw] at hlog
  · rintro rfl
    have hlog := hnext₁.log_unique h hlt
    rw [hadded] at hlog
    simp at hlog

/-! ### Managers with few vectors -/

/-- One shard, and the default index. -/
def small (dim : Int32) (rt : Runtime (Vec dim.toUInt32) D) :
    Deployment D where
  cfg := { dim := dim }
  shardCount := 1
  dataDir := "data"
  virtualNodes := 1
  sorter := Sorter.insertion _
  rt := rt

variable {d : Int32} {rt : Runtime (Vec d.toUInt32) D}

theorem small_accepted (hd : 0 < d.toInt) :
    HNSWIndex.Accepted (small d rt).cfg where
  dim := hd
  M := show 2 ≤ (16 : Int32).toInt by decide
  efConstruction := show 1 ≤ (200 : Int32).toInt by decide
  maxLayers := show 1 ≤ (6 : Int32).toInt by decide

theorem small_room {a : Stored (small d rt).Dim} (hlog : a.log.length ≤ 1)
    (hlive : a.live.length ≤ 1) : Room (small d rt) a :=
  ⟨by omega, by omega, fun _ => show 0 ≤ (32 : Int32).toInt by decide⟩

/-- A manager that starts, and one with a vector. -/
theorem exists_small (hd : 0 < d.toInt) (hne : (small d rt).Dim ≠ 0)
    (hentry : WAL.entrySize (small d rt).Dim ≤ WAL.growSize)
    (vec : Vec (small d rt).Dim) {count : ℕ} (hcount : count ≤ 1) :
    ∃ ring states m, Refines (small d rt) ring states m ∧
      (∀ s, Room (small d rt) (states s)) ∧ m.totalVectors = count := by
  obtain ⟨m, hstart⟩ := start_fresh_ok (small d rt) (small_accepted hd)
    (show (1 : UInt32) ≠ 0 by decide) (show (1 : UInt32) ≠ 0 by decide) hne
    fun _ i => i
  have hfresh := start_fresh hstart
  have htotal := (start_owns hstart 0).1
  have hempty : ∀ _ : ℕ, Room (small d rt) empty := fun _ =>
    small_room (by simp [empty]) (by simp [empty])
  by_cases hzero : count = 0
  · exact ⟨_, _, m, hfresh, hempty, by rw [htotal, hzero]⟩
  · obtain ⟨s, hs, _⟩ := hfresh.getShard_lt 0
    obtain ⟨m', hinsert, hnext⟩ := hfresh.tryInsert_ok hentry hs (hempty s).1
      (hempty s).2 vec
    have hgrows := fun s => serve_insert_length m.ring s 0 vec
      (empty : Stored (small d rt).Dim)
    refine ⟨_, _, m', hnext, fun s => small_room ?_ ?_, ?_⟩
    · exact (hgrows s).2
    · exact (hgrows s).1
    · have hids := hfresh.hasId (fun s => by simp [empty]) 0
      have hgrown := ShardManager.tryInsert_totalVectors hids hinsert
      change m'.totalVectors = m.totalVectors + 1 at hgrown
      omega

end Deployment
/-! ## The dimension of a received vector -/

namespace HttpApi

variable {convert : List Char → Option UInt32} {dim : UInt32}
  {vec : Vec dim} {p r : List Char} {key : String}

theorem length_splitOn_le (c : Char) (p : List Char) :
    (p.splitOn c).length ≤ p.length + 1 := by
  induction p with
  | nil => simp
  | cons d p ih =>
      rw [List.splitOn_cons_eq_if_modifyHead, List.length_cons]
      split_ifs
      · rw [List.length_cons]
        omega
      · rw [List.length_modifyHead]
        omega

theorem arrayText_length_le (h : arrayText p key = some r) :
    r.length ≤ p.length := by
  obtain ⟨pre, rest, hfind, _⟩ := arrayText_eq_some h
  obtain ⟨before, rfl, _⟩ := findText_eq_some hfind
  simp only [List.length_append, List.length_cons]
  omega

/-- A vector has no more components than the text has characters, and one. -/
theorem readVector_dim (h : readVector convert dim key p = .ok vec)
    (hp : p.length < 2 ^ 30) : dim.toNat ≠ 0 ∧ dim.toNat ≤ p.length + 1 := by
  obtain ⟨arr, harr, ⟨hne, hcast⟩, _⟩ := readVector_eq_ok.mp h
  have hcount : (leadingFloats convert arr).length ≤ p.length + 1 :=
    ((List.length_filterMap_le _ _).trans (length_splitOn_le ',' arr)).trans
      (Nat.succ_le_succ (arrayText_length_le harr))
  have hbits := congrArg (fun i : Int32 => i.toUInt32.toNat) hcast
  simp at hbits
  omega

end HttpApi

/-! ## The received part -/

namespace HttpRequest

open HttpApi HttpApiServer

variable {dim : UInt32} {D : Type} [Preorder D] [DecidableLT D]

/-- Whatever the server: what is received of the request changes the manager
as the whole request does, or not at all. -/
def SameOrNone (lib : ServerRuntime dim D) (floatText : UInt32 → String)
    (r : HttpRequest) (received : List Char) : Prop :=
  ∀ (ctx : RequestContext) (s : Running (HttpApiServer dim)),
    s.obj.mgr.Searchable →
      mgrAfter (handleClient lib ctx floatText received) s =
          mgrAfter (handleClient lib ctx floatText r.text) s ∨
        mgrAfter (handleClient lib ctx floatText received) s = s.obj.mgr

/-- What is received of an insert has the vector, but names another id than
the request does, or none. -/
structure LosesId (lib : ServerRuntime dim D) (r : HttpRequest)
    (received : List Char) : Prop where
  posts : r.Posts "/api/insert"
  vector : ∃ vec : Vec dim,
    readVector lib.convert dim "vector" (parseBody received) = .ok vec
  id : namedId (parseBody received) ≠ namedId r.body

variable {lib : ServerRuntime dim D} {floatText : UInt32 → String}
  {r : HttpRequest} {received : List Char} {ctx : RequestContext}
  {s : Running (HttpApiServer dim)} {vec : Vec dim}

theorem mgrAfter_of_no_headers (hreceived : received ≠ [])
    (hend : findText headersEnd received = none) :
    mgrAfter (handleClient lib ctx floatText received) s = s.obj.mgr := by
  have hbody : parseBody received = [] := by
    unfold parseBody
    rw [hend]
  rw [mgrAfter_handleClient hreceived]
  by_cases hsearch : PostsTo "/api/search" received
  · rw [mgrAfter_of_search hsearch, hbody, searchManager_refused readVector_nil]
  · by_cases hinsert : PostsTo "/api/insert" received
    · rw [mgrAfter_of_insert hinsert, hbody,
        insertManager_refused readVector_nil]
    · exact mgrAfter_of_other hsearch hinsert

theorem ne_nil_of_start {p : List Char} (hstart : r.start <+: p) : p ≠ [] := by
  rintro rfl
  exact absurd (List.prefix_nil.mp hstart) (by simp [start])

/-- An insert by a text that has what comes before the version. -/
theorem mgrAfter_insert (h : r.WellFormed) (hposts : r.Posts "/api/insert")
    {p : List Char} (hstart : r.start <+: p)
    (hread : readVector lib.convert dim "vector" (parseBody p) = .ok vec) :
    mgrAfter (handleClient lib ctx floatText p) s =
      (after (ShardManager.tryInsert ctx.os lib.rt
        ((namedId (parseBody p)).getD (UInt64.ofNat s.obj.mgr.totalVectors))
        vec) ⟨s.obj.mgr, s.memory⟩).obj := by
  rw [mgrAfter_handleClient (ne_nil_of_start hstart),
    mgrAfter_of_insert ((h.postsTo_iff hstart).mpr hposts),
    insertManager_read hread]

theorem mgrAfter_search (h : r.WellFormed) (hposts : r.Posts "/api/search")
    {p : List Char} (hstart : r.start <+: p)
    (hs : s.obj.mgr.Searchable)
    (hread : readVector lib.convert dim "query" (parseBody p) = .ok vec) :
    mgrAfter (handleClient lib ctx floatText p) s = { s.obj.mgr with
      shards := s.obj.mgr.shards.map (ShardManager.struck ctx.throws) } := by
  rw [mgrAfter_handleClient (ne_nil_of_start hstart),
    mgrAfter_of_search ((h.postsTo_iff hstart).mpr hposts),
    searchManager_read hs hread]

/-- A vector that is received is that of the request. -/
theorem WellFormed.readVector_body (h : r.WellFormed)
    (hp : received <+: r.text) {key : String}
    (hread : readVector lib.convert dim key (parseBody received) = .ok vec) :
    readVector lib.convert dim key (parseBody r.text) = .ok vec := by
  obtain ⟨rest, hrest⟩ := h.parseBody_prefix hp
  rw [h.parseBody_text, ← hrest]
  exact readVector_append hread rest

/-- A query that is received has the effect of the whole search. -/
theorem WellFormed.search_received (h : r.WellFormed) (hp : received <+: r.text)
    (hstart : r.start <+: received) (hposts : r.Posts "/api/search")
    (hs : s.obj.mgr.Searchable) :
    mgrAfter (handleClient lib ctx floatText received) s =
        mgrAfter (handleClient lib ctx floatText r.text) s ∨
      mgrAfter (handleClient lib ctx floatText received) s = s.obj.mgr := by
  cases hread : readVector lib.convert dim "query" (parseBody received) with
  | error text =>
      right
      rw [mgrAfter_handleClient (ne_nil_of_start hstart),
        mgrAfter_of_search ((h.postsTo_iff hstart).mpr hposts),
        searchManager_refused hread]
  | ok query =>
      left
      rw [mgrAfter_search h hposts hstart hs hread,
        mgrAfter_search h hposts r.start_prefix_text hs
          (h.readVector_body hp hread)]

/-- A vector that is received with the id has the effect of the whole
insert. -/
theorem WellFormed.insert_received (h : r.WellFormed) (hp : received <+: r.text)
    (hstart : r.start <+: received) (hposts : r.Posts "/api/insert")
    (hid : ¬ LosesId lib r received) :
    mgrAfter (handleClient lib ctx floatText received) s =
        mgrAfter (handleClient lib ctx floatText r.text) s ∨
      mgrAfter (handleClient lib ctx floatText received) s = s.obj.mgr := by
  cases hread : readVector lib.convert dim "vector" (parseBody received) with
  | error text =>
      right
      rw [mgrAfter_handleClient (ne_nil_of_start hstart),
        mgrAfter_of_insert ((h.postsTo_iff hstart).mpr hposts),
        insertManager_refused hread]
  | ok vec =>
      left
      have hnamed : namedId (parseBody received) = namedId r.body := by
        by_contra hne
        exact hid ⟨hposts, ⟨vec, hread⟩, hne⟩
      rw [mgrAfter_insert h hposts hstart hread,
        mgrAfter_insert h hposts r.start_prefix_text
          (h.readVector_body hp hread), hnamed, h.parseBody_text]

theorem WellFormed.sameOrNone (h : r.WellFormed) (hp : received <+: r.text)
    (hid : ¬ LosesId lib r received) :
    SameOrNone lib floatText r received := by
  intro ctx s hs
  by_cases hnil : received = []
  · right
    unfold mgrAfter handleClient
    rw [if_pos hnil]
    rfl
  · cases hend : findText headersEnd received with
    | none => exact Or.inr (mgrAfter_of_no_headers hnil hend)
    | some q =>
        have hstart := h.start_prefix hp hend
        have hposts : ∀ path, PostsTo path received → r.Posts path :=
          fun _ => (h.postsTo_iff hstart).mp
        by_cases hsearch : r.Posts "/api/search"
        · exact h.search_received hp hstart hsearch hs
        · by_cases hinsert : r.Posts "/api/insert"
          · exact h.insert_received hp hstart hinsert hid
          · right
            rw [mgrAfter_handleClient hnil]
            exact mgrAfter_of_other (fun hto => hsearch (hposts _ hto))
              fun hto => hinsert (hposts _ hto)

/-! ### An id that is lost -/

/-- Ids that are taken for the same one whether a manager is empty or has one
vector. -/
theorem eq_of_getD {a b : Option UInt64} (hzero : a.getD 0 = b.getD 0)
    (hone : a.getD 1 = b.getD 1) : a = b := by
  cases a with
  | none =>
      cases b with
      | none => rfl
      | some w =>
          rw [Option.getD_none, Option.getD_some] at hzero hone
          rw [← hzero] at hone
          exact absurd hone (by decide)
  | some v =>
      cases b with
      | none =>
          rw [Option.getD_none, Option.getD_some] at hzero hone
          rw [hzero] at hone
          exact absurd hone (by decide)
      | some w =>
          rw [Option.getD_some, Option.getD_some] at hzero
          rw [hzero]

theorem searchable_of_refines {dep : Deployment D} {ring : ConsistentHashRing}
    {states : ℕ → Stored dep.Dim} {m : ShardManager dep.Dim}
    (h : dep.Refines ring states m) : m.Searchable := by
  intro ss hss
  obtain ⟨s, hs⟩ := List.mem_iff_getElem?.mp hss
  exact (h.shard s ss hs).1.index.rep

/-- The system grants what it is asked for. -/
def grantedContext : RequestContext where
  os := .reliable
  throws := fun _ => false
  us := 0
  nowMs := 0

theorem parseBody_length_le (p : List Char) :
    (parseBody p).length ≤ p.length := by
  unfold parseBody
  cases hend : findText headersEnd p with
  | none => exact Nat.zero_le _
  | some q =>
      obtain ⟨pre, rfl, _⟩ := findText_eq_some hend
      simp only [List.length_drop, List.length_append]
      omega

/-- There is no vector without a body. -/
theorem WellFormed.start_prefix_of_read (h : r.WellFormed)
    (hp : received <+: r.text) {key : String}
    (hread : readVector lib.convert dim key (parseBody received) = .ok vec) :
    r.start <+: received := by
  cases hend : findText headersEnd received with
  | none =>
      have hbody : parseBody received = [] := by
        unfold parseBody
        rw [hend]
      rw [hbody, readVector_nil] at hread
      cases hread
  | some q => exact h.start_prefix hp hend

/-- There is a manager of which two ids, or the lack of one, make different
managers. -/
theorem exists_telling (rt : Runtime (Vec dim) D) (vec : Vec dim)
    (hdim : dim.toNat ≠ 0) (hsmall : dim.toNat ≤ 2 ^ 14)
    {a b : Option UInt64} (hab : a ≠ b) :
    ∃ m : ShardManager dim, m.Searchable ∧
      (after (ShardManager.tryInsert OS.reliable rt
          (a.getD (UInt64.ofNat m.totalVectors)) vec) ⟨m, ample⟩).obj ≠
        (after (ShardManager.tryInsert OS.reliable rt
          (b.getD (UInt64.ofNat m.totalVectors)) vec) ⟨m, ample⟩).obj ∧
      (after (ShardManager.tryInsert OS.reliable rt
        (a.getD (UInt64.ofNat m.totalVectors)) vec) ⟨m, ample⟩).obj ≠ m := by
  obtain ⟨d, rfl⟩ : ∃ d : Int32, d.toUInt32 = dim :=
    ⟨dim.toInt32, UInt32.toUInt32_toInt32 dim⟩
  have hd : 0 < d.toInt := by
    have hint : d.toInt = d.toUInt32.toNat :=
      BitVec.toInt_eq_toNat_of_lt (by
        change 2 * d.toUInt32.toNat < _
        omega)
    omega
  have hne : (Deployment.small d rt).Dim ≠ 0 := by
    intro hzero
    exact hdim (congrArg UInt32.toNat hzero)
  have hentry : WAL.entrySize (Deployment.small d rt).Dim ≤ WAL.growSize := by
    change WAL.fixedHdr + d.toUInt32.toNat * 4 ≤ _
    unfold WAL.fixedHdr WAL.growSize
    omega
  obtain ⟨count, hcount, hids⟩ : ∃ count ≤ 1,
      a.getD (UInt64.ofNat count) ≠ b.getD (UInt64.ofNat count) := by
    by_contra hall
    push Not at hall
    exact hab (eq_of_getD (hall 0 (by omega)) (hall 1 le_rfl))
  obtain ⟨ring, states, m, hrefines, hroom, htotal⟩ :=
    Deployment.exists_small hd hne hentry vec hcount
  subst htotal
  exact ⟨m, searchable_of_refines hrefines,
    hrefines.tryInsert_ne hentry hroom hids vec⟩

theorem LosesId.not_sameOrNone (hloses : LosesId lib r received)
    (h : r.WellFormed) (hp : received <+: r.text)
    (hlength : received.length ≤ 16383) :
    ¬ SameOrNone lib floatText r received := by
  intro hsame
  obtain ⟨vec, hread⟩ := hloses.vector
  have hbody := parseBody_length_le received
  have hstart := h.start_prefix_of_read hp hread
  obtain ⟨hdim, hsmall⟩ := readVector_dim hread (by omega)
  obtain ⟨m, hsearchable, htells, hchanges⟩ := exists_telling lib.rt vec hdim
    (by omega) hloses.id
  have hcall := hsame grantedContext ⟨⟨m, .initial⟩, ample⟩ hsearchable
  rw [mgrAfter_insert h hloses.posts hstart hread,
    mgrAfter_insert h hloses.posts r.start_prefix_text
      (h.readVector_body hp hread), h.parseBody_text] at hcall
  exact hcall.elim htells hchanges

/-- What is received of a request has its effect or none, unless it loses the
id of an insert. -/
theorem sameOrNone_iff (h : r.WellFormed) (hp : received <+: r.text)
    (hlength : received.length ≤ 16383) :
    SameOrNone lib floatText r received ↔ ¬ LosesId lib r received :=
  ⟨fun hsame hloses => hloses.not_sameOrNone h hp hlength hsame,
    h.sameOrNone hp⟩

/-! ## A request that is cut -/

section Examples

open Deployment

def oneShardRuntime : ServerRuntime oneShard.Dim ℕ where
  rt := oneShard.rt
  partialSorter := (Sorter.insertion _).front
  sqrt := Nat.sqrt
  convert := digitFloat
  distanceText := toString

/-- `POST /api/insert` of a vector under the id 12. -/
def insertTwelve : HttpRequest where
  method := "POST".toList
  target := "/api/insert".toList
  version := "HTTP/1.1".toList
  headers := [("Content-Length".toList, " 29".toList)]
  body := bodyWithId twelve

theorem insertTwelve_wellFormed : insertTwelve.WellFormed where
  method := by decide
  target := by decide
  version := by decide
  headers := by decide
  contentLength := ⟨_, [' '], ['2', '9'], [], List.mem_singleton_self _,
    by decide, by simp, numeral_of_all (by decide) (by decide) (by decide)⟩

/-- The two last characters are not received. -/
def cutInId : List Char := insertTwelve.text.take 76

/-- The array is not received to its end. -/
def cutInVector : List Char := insertTwelve.text.take 60

theorem sameOrNone_cutInVector :
    SameOrNone oneShardRuntime wordText insertTwelve cutInVector := by
  have hp : cutInVector <+: insertTwelve.text := List.take_prefix _ _
  refine (sameOrNone_iff insertTwelve_wellFormed hp
    (by decide)).mpr fun hloses => ?_
  obtain ⟨vec, hread⟩ := hloses.vector
  obtain ⟨arr, harr, _⟩ := readVector_eq_ok.mp hread
  have hnone : arrayText (parseBody cutInVector) "vector" = none := by decide
  rw [hnone] at harr
  cases harr

theorem cutInId_losesId : LosesId oneShardRuntime insertTwelve cutInId where
  posts := by
    unfold Posts
    decide
  vector := exists_vector (by decide)
  id := by decide

/-- The vector is inserted under the id 1. -/
theorem not_sameOrNone_cutInId :
    insertTwelve.WellFormed ∧ cutInId <+: insertTwelve.text ∧
      cutInId.length ≤ 16383 ∧
      namedId insertTwelve.body = some 12 ∧
      namedId (parseBody cutInId) = some 1 ∧
      ¬ SameOrNone oneShardRuntime wordText insertTwelve cutInId :=
  ⟨insertTwelve_wellFormed, List.take_prefix _ _, by decide, by decide,
    by decide, cutInId_losesId.not_sameOrNone insertTwelve_wellFormed
      (List.take_prefix _ _) (by decide)⟩

end Examples

end HttpRequest
end VecDB
