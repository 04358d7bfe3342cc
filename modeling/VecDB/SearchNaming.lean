import VecDB.GrpcServer
import VecDB.RingMovement
import VecDB.SearchHealth
import Mathlib.Tactic

/-!
# Which vector a search hit names

The node ids of a response are ids of the shard that found them, but the
response names shard 0 for all.  The hits of shard 0 are named as they should
be, and hits of any other shard are lost track of.
-/

namespace VecDB

/-! ## The hits of one index -/

namespace HNSWIndex

variable {V D : Type} [Preorder D] [DecidableLT D] {rt : Runtime V D}
  {index : HNSWIndex V} {layers : List ℕ} {query : V} {topK ef : Int32}
  {out : List (HNSWSearchResult D)}

theorem RepInv.search_hits (h : RepInv index layers)
    (hsearch : search rt index query topK ef = .ok out) :
    (∀ r ∈ out, DistOf rt index query r.nodeId r.dist) ∧ (ids out).Nodup := by
  by_cases hlayers : layers = []
  · have hempty := h.empty hlayers
    rw [search, if_pos (by omega)] at hsearch
    cases hsearch
    exact ⟨by simp, List.nodup_nil⟩
  · obtain ⟨ep, all, _, _, hfound, _, hresult⟩ :=
      h.search_ok rt hlayers query topK ef
    rw [hsearch] at hresult
    split_ifs at hresult
    · cases hresult
      refine ⟨fun r hr => (hfound.mem r (List.mem_of_mem_take hr)).2, ?_⟩
      exact hfound.nodup.sublist ((List.take_sublist _ _).map _)
    · cases hresult
      exact ⟨fun r hr => (hfound.mem r hr).2, hfound.nodup⟩

theorem RepInv.search_ne_nil (h : RepInv index layers) (hlayers : layers ≠ [])
    (htopK : 0 < topK.toInt)
    (hsearch : search rt index query topK ef = .ok out) : out ≠ [] := by
  obtain ⟨ep, all, _, _, hfound, _, hresult⟩ :=
    h.search_ok rt hlayers query topK ef
  rw [hsearch] at hresult
  split_ifs at hresult
  · cases hresult
    have hpos := List.length_pos_iff.mpr hfound.ne_nil
    apply List.length_pos_iff.mp
    rw [List.length_take]
    omega
  · cases hresult
    exact hfound.ne_nil

end HNSWIndex

/-! ## Runs of calls and searches -/

namespace Deployment

open LoggedStore ShardManager HNSWIndex

variable {D : Type} [Preorder D] [DecidableLT D] {dep : Deployment D}
  {os : OS} {ring : ConsistentHashRing} {states : ℕ → Stored dep.Dim}
  {m m' : ShardManager dep.Dim} {ps : PartialSorter (HNSWSearchResult D)}

/-- What can happen to a manager. -/
inductive Event (dim : UInt32) where
  | call (op : ShardManager.Op dim)
  | search (event : SearchEvent dim)

def Event.op? {dim : UInt32} : Event dim → Option (ShardManager.Op dim)
  | .call op => some op
  | .search _ => none

variable (dep os ps) in
def eventStep : Event dep.Dim → ShardManager dep.Dim →
    Except Failure (ShardManager dep.Dim)
  | .call op, m => dep.step os op m
  | .search event, m => searchStep dep.rt ps event m

variable (dep os ps) in
def eventRun : List (Event dep.Dim) → ShardManager dep.Dim →
    Except Failure (ShardManager dep.Dim)
  | [], m => .ok m
  | event :: events, m => dep.eventStep os ps event m >>= eventRun events

theorem Refines.searchStep_eq_ok (h : Refines dep ring states m)
    {event : SearchEvent dep.Dim}
    (hok : searchStep dep.rt ps event m = .ok m') :
    Refines dep ring states m' := by
  have hshard : ∀ (s : ℕ) ss', m'.shards[s]? = some ss' →
      Represents dep.cfg (states s) ss' ∧ ss'.shardId = s := by
    intro s ss' hss'
    obtain ⟨ss, hss, hself, _⟩ := ShardManager.searchStep_eq_ok hok hss'
    obtain ⟨hrep, hid⟩ := h.shard s ss hss
    rw [hself]
    exact ⟨⟨hrep.index, hrep.log, hrep.every, hrep.mark, hrep.since,
      hrep.since_lt, hrep.files⟩, hid⟩
  obtain ⟨shards, rfl, hlength⟩ := searchStep_shards hok
  exact ⟨h.ring_new, h.ring_eq, h.cfg_eq, h.shardCount_eq, h.dataDir_eq,
    hlength.trans h.length_eq, hshard⟩

theorem Refines.eventRun_eq_ok {events : List (Event dep.Dim)}
    (h : Refines dep ring states m)
    (hok : dep.eventRun os ps events m = .ok m') :
    Refines dep ring (fun s => serve 1000 Prod.snd
      (requests ring s (events.filterMap Event.op?)) (states s)) m' := by
  induction events generalizing m states with
  | nil =>
      cases hok
      exact h
  | cons event events ih =>
      rw [eventRun, except_bind_eq_ok] at hok
      obtain ⟨m₁, hstep, hok⟩ := hok
      cases event with
      | call op =>
          have hrest := ih (h.step_eq_ok hstep) hok
          have hrequests (s : ℕ) :
              requests ring s (op :: events.filterMap Event.op?) =
                (request ring s op).toList ++
                  requests ring s (events.filterMap Event.op?) := by
            unfold requests
            cases hop : request ring s op with
            | none => simp [hop]
            | some r => simp [hop]
          simp only [← serve_append, ← hrequests] at hrest
          exact hrest
      | search event => exact ih (h.searchStep_eq_ok hstep) hok

/-! ## Names -/

/-- The hit names a stored vector, and its distance is the root of what the
kernel gives for it. -/
def NamesVector {R : Type} (rt : Runtime (Vec dep.Dim) D) (sqrt : D → R)
    (m : ShardManager dep.Dim) (query : Vec dep.Dim) (hit : SearchResult R) :
    Prop :=
  hit.shardId < m.shardCount.toNat ∧
    ∃ ss vec, m.shards[hit.shardId]? = some ss ∧
      hit.nodeId < ss.index.size ∧
      ss.index.getVector hit.nodeId = .ok vec ∧
      hit.distance = sqrt (rt.l2sq vec query)

/-- Every hit names the vector it is about, and no two the same. -/
def HitsNamed {R : Type} (rt : Runtime (Vec dep.Dim) D) (sqrt : D → R)
    (m : ShardManager dep.Dim) (query : Vec dep.Dim)
    (resp : SearchResponse R) : Prop :=
  (∀ hit ∈ resp.results, NamesVector rt sqrt m query hit) ∧
    resp.results.Pairwise fun hit other =>
      (hit.shardId, hit.nodeId) ≠ (other.shardId, other.nodeId)

/-- All requests that the service accepts are answered so. -/
def AnswersNamed (dep : Deployment D) (ps : PartialSorter (HNSWSearchResult D))
    (m : ShardManager dep.Dim) : Prop :=
  ∀ {R : Type} (sqrt : D → R) (throws : ℕ → Bool) (ctx : ServerContext)
    (req : SearchRequest) (svc svc' : VectorDBService dep.Dim)
    (status : Status) (resp : SearchResponse R) (query : Vec dep.Dim),
    svc.shardMgr = m →
    svc.search dep.rt ps sqrt throws ctx req = (.ok (status, resp), svc') →
    status.isOk = true →
    VectorDBService.decodeVector dep.Dim req.query = some query →
    HitsNamed dep.rt sqrt m query resp

/-- No healthy shard but shard 0 holds a vector. -/
def OnlyShardZero (m : ShardManager dep.Dim) : Prop :=
  ∀ (s : ℕ) ss, m.shards[s]? = some ss → s ≠ 0 → ss.healthy = true →
    ss.index.size = 0

theorem Refines.repInv (h : Refines dep ring states m)
    {ss : ShardState dep.Dim} (hss : ss ∈ m.shards) :
    ∃ layers, RepInv ss.index layers := by
  obtain ⟨s, hss⟩ := List.mem_iff_getElem?.mp hss
  exact (h.shard s ss hss).1.index.rep

section Contributions

variable {ss : ShardState dep.Dim} {layers : List ℕ} {query : Vec dep.Dim}
  {topK ef : Int32} {throws : ℕ → Bool}

theorem contribution_hits (m : ShardManager dep.Dim) (query : Vec dep.Dim)
    (topK ef : Int32) (throws : ℕ → Bool) (h : RepInv ss.index layers) :
    (∀ r ∈ contribution (m.searchTasks dep.rt query topK ef throws) ss,
      DistOf dep.rt ss.index query r.nodeId r.dist) ∧
    (ids (contribution
      (m.searchTasks dep.rt query topK ef throws) ss)).Nodup := by
  unfold contribution searchTasks ShardState.searchTask
  by_cases hhealthy : ss.healthy = false
  · rw [if_pos hhealthy]
    exact ⟨by simp, List.nodup_nil⟩
  · rw [if_neg hhealthy]
    by_cases hthrows : throws ss.shardId = true
    · rw [if_pos hthrows]
      exact ⟨by simp, List.nodup_nil⟩
    · rw [if_neg hthrows]
      cases hsearch : ss.index.search dep.rt query topK
          (efActual m.cfg ef) with
      | ok out => exact h.search_hits hsearch
      | error e => exact ⟨by simp, List.nodup_nil⟩

theorem contribution_eq_nil (h : RepInv ss.index layers)
    (hss : ss.healthy = true → ss.index.size = 0) :
    contribution (m.searchTasks dep.rt query topK ef throws) ss = [] := by
  by_cases hhealthy : ss.healthy = false
  · unfold contribution
    rw [searchTasks_of_unhealthy hhealthy]
  · have hsize := hss (Bool.not_eq_false _ ▸ hhealthy)
    rw [List.eq_nil_iff_forall_not_mem]
    intro r hr
    obtain ⟨vec, hvec, _⟩ := (contribution_hits m query topK ef throws h).1 r hr
    have hlt := (List.getElem?_eq_some_iff.mp hvec).1
    rw [h.vectors, ← h.nextId] at hlt
    unfold HNSWIndex.size at hsize
    omega

/-- An index that holds vectors answers a search for one with one. -/
theorem length_contribution_one (m : ShardManager dep.Dim)
    (query : Vec dep.Dim) (ef : Int32) (h : RepInv ss.index layers)
    (hsize : ss.index.size ≠ 0) (hhealthy : ss.healthy = true) :
    (contribution (m.searchTasks dep.rt query 1 ef fun _ => false) ss).length =
      1 := by
  have htopK : 0 < (1 : Int32).toInt := by decide
  have hlayers : layers ≠ [] := by
    rintro rfl
    exact hsize h.nextId
  obtain ⟨answer, htask, hanswer⟩ : ∃ answer,
      m.searchTasks dep.rt query 1 ef (fun _ => false) ss = .ok answer ∧
        answer ≠ [] := by
    unfold searchTasks ShardState.searchTask
    rw [if_neg (by simp [hhealthy]), if_neg Bool.false_ne_true]
    obtain ⟨out, hout⟩ | ⟨hneg, _⟩ := h.search_returns dep.rt query 1
      (efActual m.cfg ef)
    · exact ⟨out, hout, h.search_ne_nil hlayers htopK hout⟩
    · omega
  have hle := searchTask_length_le htopK.le htask
  have hpos := List.length_pos_iff.mpr hanswer
  have hone : (1 : Int32).toInt.toNat = 1 := by decide
  rw [contribution, htask]
  dsimp only
  omega

end Contributions

theorem Refines.shardCount_pos (h : Refines dep ring states m) :
    0 < dep.shardCount.toNat :=
  Nat.pos_of_ne_zero fun hnone =>
    (ConsistentHashRing.new_eq_ok h.ring_new).1 (UInt32.toNat_inj.mp hnone)

/-- Shards without vectors add nothing to what shard `s` hands over. -/
theorem Refines.flatten_partials (h : Refines dep ring states m) {s : ℕ}
    {ss : ShardState dep.Dim} (hss : m.shards[s]? = some ss)
    (hothers : ∀ (t : ℕ) other, m.shards[t]? = some other → t ≠ s →
      other.healthy = true → other.index.size = 0)
    (query : Vec dep.Dim) (topK ef : Int32) (throws : ℕ → Bool) :
    (m.partials dep.rt query topK ef throws).flatten =
      contribution (m.searchTasks dep.rt query topK ef throws) ss := by
  obtain ⟨hlt, hget⟩ := List.getElem?_eq_some_iff.mp hss
  have hshards : m.shards =
      m.shards.take s ++ ss :: m.shards.drop (s + 1) := by
    rw [← hget, List.getElem_cons_drop, List.take_append_drop]
  have hnone : ∀ (t : ℕ) other, m.shards[t]? = some other → t ≠ s →
      contribution (m.searchTasks dep.rt query topK ef throws) other = [] := by
    intro t other hother hne
    obtain ⟨layers, hrep⟩ := h.repInv (List.mem_of_getElem? hother)
    exact contribution_eq_nil hrep (hothers t other hother hne)
  have hbefore : ((m.shards.take s).map (contribution
      (m.searchTasks dep.rt query topK ef throws))).flatten = [] := by
    rw [List.flatten_eq_nil_iff]
    intro answer hanswer
    obtain ⟨other, hother, rfl⟩ := List.mem_map.mp hanswer
    obtain ⟨t, ht⟩ := List.mem_iff_getElem?.mp hother
    rw [List.getElem?_take] at ht
    split_ifs at ht with hts
    exact hnone t other ht hts.ne
  have hbehind : ((m.shards.drop (s + 1)).map (contribution
      (m.searchTasks dep.rt query topK ef throws))).flatten = [] := by
    rw [List.flatten_eq_nil_iff]
    intro answer hanswer
    obtain ⟨other, hother, rfl⟩ := List.mem_map.mp hanswer
    obtain ⟨t, ht⟩ := List.mem_iff_getElem?.mp hother
    rw [List.getElem?_drop] at ht
    exact hnone _ other ht (by omega)
  unfold partials
  rw [hshards, List.map_append, List.map_cons, List.flatten_append,
    List.flatten_cons, hbefore, hbehind, List.append_nil, List.nil_append]

theorem Refines.answersNamed (h : Refines dep ring states m)
    (hzero : OnlyShardZero m) : AnswersNamed dep ps m := by
  intro R sqrt throws ctx req svc svc' status resp query hmgr hok hstatus
    hdecode
  obtain ⟨htopK, query', sr, m₁, hdecode', hsearch, rfl, _⟩ :=
    VectorDBService.search_accepted hok hstatus
  obtain rfl : query' = query := by
    rw [hdecode] at hdecode'
    exact (Option.some.inj hdecode').symm
  subst hmgr
  obtain ⟨hmerge, _⟩ := search_eq_ok hsearch
  obtain ⟨rest, hperm, _⟩ := mergeResults_eq_ok hmerge
  obtain ⟨ss₀, hss₀⟩ := h.getElem? h.shardCount_pos
  obtain ⟨layers, hrep⟩ := h.repInv (List.mem_of_getElem? hss₀)
  rw [h.flatten_partials hss₀ hzero] at hperm
  obtain ⟨hdist, hnodup⟩ := contribution_hits svc.shardMgr query' req.topK
    req.efSearch throws hrep
  constructor
  · intro hit hhit
    obtain ⟨r, hr, rfl⟩ := List.mem_map.mp hhit
    obtain ⟨vec, hvec, hroot⟩ :=
      hdist r (hperm.mem_iff.mp (List.mem_append_left _ hr))
    have hlt := (List.getElem?_eq_some_iff.mp hvec).1
    rw [hrep.vectors, ← hrep.nextId] at hlt
    refine ⟨?_, ss₀, vec, hss₀, hlt, getVector_eq_ok.mpr hvec, ?_⟩
    · rw [h.shardCount_eq]
      exact h.lt_shardCount hss₀
    · dsimp only
      rw [hroot]
  · have hids : (ids sr.results).Nodup := by
      have hall := (hperm.map HNSWSearchResult.nodeId).nodup_iff.mpr hnodup
      rw [List.map_append] at hall
      exact (List.nodup_append.mp hall).1
    unfold VectorDBService.response
    dsimp only
    rw [List.pairwise_map]
    apply (List.pairwise_map.mp hids).imp
    intro r other hne hsame
    exact hne (Prod.mk.inj hsame).2

/-- A hit of another shard is named as one of shard 0, which need not have
any vector. -/
theorem Refines.not_answersNamed (h : Refines dep ring states m)
    {s : ℕ} {ss₀ ss : ShardState dep.Dim} (hss₀ : m.shards[0]? = some ss₀)
    (hempty : ss₀.index.size = 0) (hss : m.shards[s]? = some ss)
    (hhealthy : ss.healthy = true) (hsize : ss.index.size ≠ 0)
    (hothers : ∀ (t : ℕ) other, m.shards[t]? = some other → t ≠ s →
      other.healthy = true → other.index.size = 0) :
    ¬ AnswersNamed dep ps m := by
  intro hnamed
  let query := List.replicate (dep.Dim.toNat * 4) (0 : UInt8)
  let req : SearchRequest := ⟨query, 1, 1⟩
  let svc : VectorDBService dep.Dim := {
    shardMgr := m
    auth := ⟨[], true⟩
    rateLimiter := ⟨1, 1, true, fun _ => none⟩ }
  have htopK : 0 < req.topK.toInt := (by decide : 0 < (1 : Int32).toInt)
  have hquery : req.query.length = dep.Dim.toNat * 4 := List.length_replicate
  -- the shard answers, so the response is not empty
  obtain ⟨layers, hrep⟩ := h.repInv (List.mem_of_getElem? hss)
  have hone : (m.partials dep.rt (Vec.ofBytes dep.Dim query) req.topK
      req.efSearch fun _ => false).flatten.length = 1 := by
    rw [h.flatten_partials hss hothers]
    exact length_contribution_one m _ _ hrep hsize hhealthy
  have hcounts : CountsEnough (m.partials dep.rt (Vec.ofBytes dep.Dim query)
      req.topK req.efSearch fun _ => false) req.topK := by
    left
    rw [hone]
    norm_num
  obtain ⟨resp, svc', hok⟩ := VectorDBService.search_open dep.rt ps id
    (fun _ => false) ⟨none, "", 0⟩ svc rfl rfl htopK hquery hcounts
  obtain ⟨_, vec, sr, m₁, hdecode, hsearch, rfl, _⟩ :=
    VectorDBService.search_accepted hok rfl
  obtain ⟨hall, _⟩ := hnamed id (fun _ => false) _ req svc svc' _ _ vec rfl hok
    rfl hdecode
  obtain rfl : vec = Vec.ofBytes dep.Dim query := by
    have hbytes : VectorDBService.decodeVector dep.Dim req.query =
        some (Vec.ofBytes dep.Dim query) := if_neg (not_not.mpr hquery)
    rw [hdecode] at hbytes
    exact Option.some.inj hbytes
  obtain ⟨hmerge, _⟩ := search_eq_ok hsearch
  obtain ⟨_, _, hlength, _⟩ := mergeResults_eq_ok hmerge
  have hresults : sr.results ≠ [] := by
    apply List.length_pos_iff.mp
    rw [hlength, hcounts.toNat_min, hone]
    exact (by decide : 0 < min 1 (1 : Int32).toInt.toNat)
  -- and its first hit names a node of shard 0, which has none
  obtain ⟨r, rest, hr⟩ := List.exists_cons_of_ne_nil hresults
  obtain ⟨_, ss', _, hss', hlt, _⟩ := hall ⟨0, r.nodeId, r.dist⟩ (by
    simp [VectorDBService.response, hr])
  rw [hss₀, Option.some.injEq] at hss'
  rw [← hss', hempty] at hlt
  exact absurd hlt (Nat.not_lt_zero _)

theorem insert_healthy {vectorId : UInt64} {vec : Vec dep.Dim} {out : ℕ × ℕ}
    (hok : m.insert os dep.rt vectorId vec = .ok (out, m')) {s : ℕ}
    {ss' : ShardState dep.Dim} (hss' : m'.shards[s]? = some ss') :
    ∃ ss, m.shards[s]? = some ss ∧ ss'.healthy = ss.healthy := by
  rw [ShardManager.insert, except_bind_eq_ok] at hok
  obtain ⟨t, _, hok⟩ := hok
  cases hss : m.shards[t]? with
  | none =>
      rw [hss] at hok
      cases hok
  | some ss =>
      rw [hss] at hok
      dsimp only at hok
      rw [except_bind_eq_ok] at hok
      obtain ⟨⟨nodeId, ss₁⟩, hinsert, hok⟩ := hok
      cases hok
      rw [ShardState.insert_eq, except_bind_eq_ok] at hinsert
      obtain ⟨ss₂, happend, hindex⟩ := hinsert
      have hhealthy : ss₁.healthy = ss.healthy := by
        unfold ShardState.appendStep at happend
        rw [ShardState.indexStep, except_bind_eq_ok] at hindex
        obtain ⟨⟨_, _⟩, _, hindex⟩ := hindex
        cases hindex
        cases hrun : (WAL.append os vectorId vec).run ss.wal with
        | error e w => simp [hrun] at happend
        | ok lsn w =>
            rw [hrun] at happend
            cases happend
            rfl
      dsimp only at hss'
      rw [List.getElem?_set] at hss'
      split_ifs at hss' with hst hlt
      · cases hss'
        subst hst
        exact ⟨ss, hss, hhealthy⟩
      · exact ⟨ss', hss', rfl⟩

theorem insert_elsewhere_not_named {rngs : ℕ → ℕ → ℕ}
    (hentry : WAL.entrySize dep.Dim ≤ WAL.growSize)
    (hstart : dep.start OS.reliable rngs (fun _ => ShardState.noFiles) =
      .ok m) {vectorId : UInt64} {s : ℕ}
    (hs : m.ring.getShard vectorId = .ok s) (hne : s ≠ 0)
    (ps : PartialSorter (HNSWSearchResult D)) (vec : Vec dep.Dim) :
    ∃ m', dep.eventRun OS.reliable ps [.call (.insert vectorId vec)] m =
      .ok m' ∧ ¬ AnswersNamed dep ps m' := by
  have h := start_fresh hstart
  obtain ⟨m', hinsert⟩ := h.insert_ok hentry hs (by simp [empty])
    ⟨by simp [empty], by simp [empty]⟩ vec
  obtain ⟨_, _, h'⟩ := h.insert_eq_ok hinsert
  have hlt : s < dep.shardCount.toNat := by
    obtain ⟨t, ht, hlt⟩ := h.getShard_lt vectorId
    rw [hs, Except.ok.injEq] at ht
    rwa [ht]
  have hcount : 0 < dep.shardCount.toNat := by omega
  obtain ⟨ss₀, hss₀⟩ := h'.getElem? hcount
  obtain ⟨ss, hss⟩ := h'.getElem? hlt
  have hothers : ∀ (t : ℕ) other, m'.shards[t]? = some other → t ≠ s →
      other.index.size = 0 := by
    intro t other hother hts
    rw [((h'.shard t other hother).1.index).size_eq]
    simp [request, hs, hts.symm, empty]
  have hsize : ss.index.size ≠ 0 := by
    rw [((h'.shard s ss hss).1.index).size_eq]
    simp [request, hs, add]
  have hhealthy : ss.healthy = true := by
    obtain ⟨ss₁, hss₁, hsame⟩ := insert_healthy hinsert hss
    rw [hsame]
    exact start_healthy hstart hss₁
  refine ⟨m', ?_, h'.not_answersNamed hss₀
    (hothers 0 ss₀ hss₀ hne.symm) hss hhealthy hsize
    fun t other hother hts _ => hothers t other hother hts⟩
  rw [eventRun, eventStep, step_insert hinsert]
  rfl

/-- All answers in all runs are named as they should be if and only if the
ring routes every id to shard 0; in a state that holds no vectors elsewhere
they are in any case. -/
theorem answers_named_iff {rngs : ℕ → ℕ → ℕ}
    (hentry : WAL.entrySize dep.Dim ≤ WAL.growSize)
    (hstart : dep.start OS.reliable rngs (fun _ => ShardState.noFiles) =
      .ok m) :
    ((∀ events m', dep.eventRun OS.reliable ps events m = .ok m' →
        AnswersNamed dep ps m') ↔
      ∀ vectorId, m.ring.getShard vectorId = .ok 0) ∧
    ∀ events m', dep.eventRun OS.reliable ps events m = .ok m' →
      OnlyShardZero m' → AnswersNamed dep ps m' := by
  have h := start_fresh hstart
  refine ⟨⟨?_, ?_⟩, ?_⟩
  · intro hnamed vectorId
    obtain ⟨s, hs, _⟩ := h.getShard_lt vectorId
    by_contra hother
    have hne : s ≠ 0 := by
      rintro rfl
      exact hother hs
    obtain ⟨m', hrun, hnot⟩ := insert_elsewhere_not_named hentry hstart hs hne
      ps (Vec.ofBytes _ [])
    exact hnot (hnamed _ m' hrun)
  · intro hzero events m' hrun
    have h' := h.eventRun_eq_ok hrun
    apply h'.answersNamed
    intro s ss hss hne _
    have hnone : inserted (requests m.ring s (events.filterMap Event.op?)) =
        [] := by
      rw [inserted_requests, routedTo, List.filter_eq_nil_iff]
      intro call _
      rw [hzero call.1, decide_eq_true_eq, Except.ok.injEq]
      exact Ne.symm hne
    have hstores := (h'.shard s ss hss).1.index
    rw [hstores.size_eq, (serve_blank 1000 Prod.snd hnone blank_empty).live]
    rfl
  · intro events m' hrun hzero
    exact (h.eventRun_eq_ok hrun).answersNamed hzero

theorem answers_named_oneShard :
    ∃ m, oneShard.start OS.reliable (fun _ _ => 0)
        (fun _ => ShardState.noFiles) = .ok m ∧
      ∀ events m', oneShard.eventRun OS.reliable (Sorter.insertion _).front
        events m = .ok m' →
        AnswersNamed oneShard (Sorter.insertion _).front m' := by
  obtain ⟨m, hstart⟩ := oneShard_start fun _ _ => 0
  exact ⟨m, hstart, (answers_named_iff oneShard_entrySize hstart).1.mpr
    (oneShard_getShard (start_fresh hstart))⟩

/-! ### Two shards -/

def twoShards : Deployment ℕ where
  cfg := HNSWIndex.smallConfig
  shardCount := 2
  dataDir := "data"
  virtualNodes := 2
  sorter := Sorter.insertion _
  rt := wordLine _

/-- The id `2 ^ 32` belongs to shard 1, and the hit that finds its vector
names shard 0. -/
theorem hit_of_shard_one_misnamed :
    ∃ m m', twoShards.start OS.reliable (fun _ _ => 0)
        (fun _ => ShardState.noFiles) = .ok m ∧
      m.ring.getShard 4294967296 = .ok 1 ∧
      twoShards.eventRun OS.reliable (Sorter.insertion _).front
        [.call (.insert 4294967296 (Vec.ofBytes _ [1, 0, 0, 0]))] m = .ok m' ∧
      ¬ AnswersNamed twoShards (Sorter.insertion _).front m' := by
  obtain ⟨m, hstart⟩ : ∃ m, twoShards.start OS.reliable (fun _ _ => 0)
      (fun _ => ShardState.noFiles) = .ok m := by
    apply start_fresh_ok
    · exact {
        dim := by decide
        M := by decide
        efConstruction := by decide
        maxLayers := by decide }
    · decide
    · decide
    · decide
  have hdistinct : ConsistentHashRing.DistinctPositions
      twoShards.shardCount.toNat twoShards.virtualNodes.toNat := by
    decide +kernel
  have hid : (4294967296 : UInt64) ∈ ConsistentHashRing.block 1
      twoShards.virtualNodes.toNat := by
    decide
  have hs := ConsistentHashRing.getShard_block (start_fresh hstart).ring_new
    hdistinct (by decide) hid
  obtain ⟨m', hrun, hnot⟩ := insert_elsewhere_not_named (by decide) hstart hs
    one_ne_zero (Sorter.insertion _).front (Vec.ofBytes _ [1, 0, 0, 0])
  exact ⟨m, m', hstart, hs, hrun, hnot⟩

end Deployment
end VecDB
