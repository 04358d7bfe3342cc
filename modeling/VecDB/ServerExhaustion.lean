import VecDB.ComparableDistances
import VecDB.HnswExhaustion
import VecDB.PeerRates
import Mathlib.Tactic

/-!
# A server that has run out of memory

The service answers a call that throws and goes on with the next one, on
whatever the call has left behind.  Memory may run out anywhere, and the log may
refuse any entry: what was acknowledged stays where it is, and searches answer
from what was stored.
-/

namespace VecDB

open StateRules Running

/-! ## The shards behind an insert -/

section Indexes

variable {dim : UInt32} {D : Type} [Preorder D] [DecidableLT D] {os : OS}
  {rt : Runtime (Vec dim) D} {vectorId : UInt64} {vec : Vec dim}

namespace ShardState

/-- An insert that the log refuses does not come to the index. -/
theorem after_tryInsert_index (s : Running (ShardState dim)) :
    (after (tryInsert os rt vectorId vec) s).obj.index = s.obj.index ∨
      (after (tryInsert os rt vectorId vec) s).obj.index =
        (after (HNSWIndex.tryInsert rt (Vec.zero dim) vec)
          ⟨s.obj.index, s.memory⟩).obj := by
  cases happend : (WAL.append os vectorId vec).run s.obj.wal with
  | error e wal =>
      rw [after_of_error (tryInsert_of_append_error happend)]
      exact Or.inl rfl
  | ok lsn wal =>
      have hrun : (tryInsert os rt vectorId vec).run s =
          (onIndex (HNSWIndex.tryInsert rt (Vec.zero dim) vec)).run
            ⟨{ s.obj with wal := wal }, s.memory⟩ :=
        tryInsert_of_append happend
      have hafter : after (tryInsert os rt vectorId vec) s =
          after (onIndex (HNSWIndex.tryInsert rt (Vec.zero dim) vec))
            ⟨{ s.obj with wal := wal }, s.memory⟩ := by
        unfold after
        rw [hrun]
      rw [hafter, onIndex, after_onPart]
      exact Or.inr rfl

end ShardState

namespace ShardManager

/-- What a call on the manager leaves of the shards: `T` holds of each of
them and of the one that was there before. -/
def Becomes (T : ShardState dim → ShardState dim → Prop)
    (m m' : ShardManager dim) : Prop :=
  m'.shards.length = m.shards.length ∧
    ∀ (s : ℕ) (ss' : ShardState dim), m'.shards[s]? = some ss' →
      ∃ ss, m.shards[s]? = some ss ∧ T ss ss'

theorem becomes_set {T : ShardState dim → ShardState dim → Prop}
    (hrefl : ∀ ss, T ss ss) {m : ShardManager dim} {s : ℕ}
    {ss ss' : ShardState dim} (hss : m.shards[s]? = some ss) (h : T ss ss') :
    Becomes T m { m with shards := m.shards.set s ss' } := by
  refine ⟨List.length_set .., fun i st hst => ?_⟩
  by_cases hi : i = s
  · subst hi
    have hlt := (List.getElem?_eq_some_iff.mp hss).1
    rw [List.getElem?_set_self hlt] at hst
    cases hst
    exact ⟨ss, hss, h⟩
  · rw [List.getElem?_set_ne fun heq => hi heq.symm] at hst
    exact ⟨st, hst, hrefl st⟩

theorem after_tryInsert (s : Running (ShardManager dim)) :
    Becomes (fun ss ss' => ss'.index = ss.index ∨ ∃ memory, ss'.index =
        (after (HNSWIndex.tryInsert rt (Vec.zero dim) vec)
          ⟨ss.index, memory⟩).obj)
      s.obj (after (tryInsert os rt vectorId vec) s).obj := by
  have hshard : ∀ ss : ShardState dim,
      (after (ShardState.tryInsert os rt vectorId vec)
        ⟨ss, s.memory⟩).obj.index = ss.index ∨ ∃ memory,
      (after (ShardState.tryInsert os rt vectorId vec)
        ⟨ss, s.memory⟩).obj.index =
        (after (HNSWIndex.tryInsert rt (Vec.zero dim) vec)
          ⟨ss.index, memory⟩).obj :=
    fun ss => (ShardState.after_tryInsert_index ⟨ss, s.memory⟩).imp_right
      fun hnew => ⟨_, hnew⟩
  cases hrun : (tryInsert os rt vectorId vec).run s with
  | ok out s' =>
      obtain ⟨ss, t, howns, hinsert, rfl⟩ := tryInsert_eq_ok hrun
      have hnext := hshard ss
      rw [after_of_ok hinsert] at hnext
      rw [after_of_ok hrun]
      exact becomes_set (fun _ => Or.inl rfl) howns.2 hnext
  | error e s' =>
      rw [after_of_error hrun]
      rcases tryInsert_eq_error hrun with
        ⟨_, rfl⟩ | ⟨shardId, ss, t, howns, hinsert, rfl⟩
      · exact ⟨rfl, fun _ ss hss => ⟨ss, hss, Or.inl rfl⟩⟩
      · have hnext := hshard ss
        rw [after_of_error hinsert] at hnext
        exact becomes_set (fun _ => Or.inl rfl) howns.2 hnext

/-- The indexes behind at most `n` inserts, some of which may have thrown;
shard `s` still has the vectors `bases s` where they were. -/
structure Grown (cfg : HNSWConfig) (P : Vec dim → Prop)
    (bases : List (List (Vec dim))) (n : ℕ) (m : ShardManager dim) : Prop where
  length_eq : m.shards.length = bases.length
  index : ∀ s ss, m.shards[s]? = some ss →
    HNSWIndex.Grown cfg P (bases.getD s []) n ss.index

variable {cfg : HNSWConfig} {P : Vec dim → Prop}
  {bases : List (List (Vec dim))} {n : ℕ}

theorem Grown.mono {m : ShardManager dim} (h : m.Grown cfg P bases n) {n' : ℕ}
    (hle : n ≤ n') : m.Grown cfg P bases n' :=
  ⟨h.length_eq, fun s ss hss => (h.index s ss hss).mono hle⟩

theorem Grown.becomes {T : ShardState dim → ShardState dim → Prop}
    {m m' : ShardManager dim} {n' : ℕ} (h : m.Grown cfg P bases n)
    (hm : Becomes T m m')
    (hT : ∀ {base ss ss'}, T ss ss' → HNSWIndex.Grown cfg P base n ss.index →
      HNSWIndex.Grown cfg P base n' ss'.index) : m'.Grown cfg P bases n' := by
  refine ⟨hm.1.trans h.length_eq, fun s ss' hss' => ?_⟩
  obtain ⟨ss, hss, hstep⟩ := hm.2 s ss' hss'
  exact hT hstep (h.index s ss hss)

theorem Grown.tryInsert (haccepted : HNSWIndex.Accepted cfg)
    (hn : n + 1 < 2 ^ 32) (os : OS) (rt : Runtime (Vec dim) D)
    (vectorId : UInt64) (hvec : P vec) {s : Running (ShardManager dim)}
    (h : s.obj.Grown cfg P bases n) :
    (after (ShardManager.tryInsert os rt vectorId vec) s).obj.Grown cfg P bases
      (n + 1) := by
  refine h.becomes (after_tryInsert s) ?_
  rintro base ss ss' (hsame | ⟨memory, hnew⟩) hindex
  · rw [hsame]
    exact hindex.mono (Nat.le_succ n)
  · rw [hnew]
    exact HNSWIndex.Grown.tryInsert (s := ⟨ss.index, memory⟩) rt hindex
      haccepted hn (Vec.zero dim) hvec

/-- A search only marks shards. -/
theorem Grown.search {m : ShardManager dim} (h : m.Grown cfg P bases n)
    (rt : Runtime (Vec dim) D) (ps : PartialSorter (HNSWSearchResult D))
    (query : Vec dim) (topK ef : Int32) (throws : ℕ → Bool) :
    (m.search rt ps query topK ef throws).2.Grown cfg P bases n := by
  rw [search_snd]
  refine ⟨by rw [List.length_map, h.length_eq], fun s ss' hss' => ?_⟩
  rw [List.getElem?_map, Option.map_eq_some_iff] at hss'
  obtain ⟨ss, hss, rfl⟩ := hss'
  unfold settled
  split_ifs
  · exact h.index s ss hss
  · exact h.index s ss hss

theorem Grown.httpSearch {m : ShardManager dim} (h : m.Grown cfg P bases n)
    (rt : Runtime (Vec dim) D) (convert : List Char → Option UInt32)
    (ps : PartialSorter (HNSWSearchResult D)) (throws : ℕ → Bool)
    (distanceText : D → String) (us : ℕ) (body : List Char) :
    (HttpApi.handleSearch convert rt ps throws distanceText us body
      m).2.Grown cfg P bases n := by
  unfold HttpApi.handleSearch
  cases HttpApi.readVector convert dim "query" body with
  | error refusal => exact h
  | ok query => exact h.search rt ps query (HttpApi.searchTopK body) 0 throws

end ShardManager

end Indexes

/-! ## Calls that insert -/

section Calls

variable {dim : UInt32} {D : Type} [Preorder D] [DecidableLT D]
  {cfg : HNSWConfig} {P : Vec dim → Prop} {bases : List (List (Vec dim))}
  {n : ℕ}

/-- The vectors that a call asks to insert. -/
def ServerRuntime.posted (lib : ServerRuntime dim D) :
    ServiceCall → List (Vec dim)
  | .vectors (.insert _ _ req) =>
      (VectorDBService.decodeVector dim req.vector).toList
  | .vectors (.bulkInsert _ msgs) =>
      msgs.filterMap fun msg =>
        VectorDBService.decodeVector dim msg.2.vector
  | .vectors (.httpInsert _ _ body) =>
      (HttpApi.readVector lib.convert dim "vector" body).toOption.toList
  | .vectors (.search _ _ _) => []
  | .vectors (.httpSearch _ _ _) => []
  | .delete _ => []
  | .getInfo _ => []

/-- The manager ends behind `n` inserts at most, whether the call returns or
throws. -/
def EndsGrown {α : Type} (cfg : HNSWConfig) (P : Vec dim → Prop)
    (bases : List (List (Vec dim))) (n n' : ℕ)
    (x : EStateM Failure (Running (ShardManager dim)) α) : Prop :=
  Meets (On (ShardManager.Grown cfg P bases n)) x
    (fun _ => On (ShardManager.Grown cfg P bases n'))
    (fun _ => On (ShardManager.Grown cfg P bases n'))

section EndsGrown

variable {α β : Type} {n' k : ℕ}
  {x : EStateM Failure (Running (ShardManager dim)) α}

theorem endsGrown_pure (a : α) (hle : n ≤ n') : EndsGrown cfg P bases n n'
    (pure a : EStateM Failure (Running (ShardManager dim)) α) :=
  meets_pure fun _ h => ShardManager.Grown.mono h hle

theorem EndsGrown.bind {f : α → EStateM Failure (Running (ShardManager dim)) β}
    (hx : EndsGrown cfg P bases n n' x)
    (hf : ∀ a, EndsGrown cfg P bases n' k (f a)) (hle : n' ≤ k) :
    EndsGrown cfg P bases n k (x >>= f) :=
  Meets.bind (Meets.weaken_error hx
    fun _ _ h => ShardManager.Grown.mono h hle) hf

theorem endsGrown_request (hle : n ≤ n') : EndsGrown cfg P bases n n'
    (request : EStateM Failure (Running (ShardManager dim)) Unit) :=
  (meets_request fun _ h => ShardManager.Grown.mono h hle).weaken
    (fun _ h => h) fun _ _ h => ShardManager.Grown.mono h hle

theorem endsGrown_compute (f : ShardManager dim → Except Failure α) :
    EndsGrown cfg P bases n n (compute f) :=
  (keeps_compute f).meets

theorem endsGrown_tryInsert (haccepted : HNSWIndex.Accepted cfg)
    (hn : n + 1 < 2 ^ 32) (os : OS) (rt : Runtime (Vec dim) D)
    (vectorId : UInt64) {vec : Vec dim} (hvec : P vec) :
    EndsGrown cfg P bases n (n + 1)
      (ShardManager.tryInsert os rt vectorId vec) := by
  intro s hs
  have hnext := ShardManager.Grown.tryInsert haccepted hn os rt vectorId hvec
    hs
  constructor
  · intro out t hok
    rwa [after_of_ok hok] at hnext
  · intro e t herr
    rwa [after_of_error herr] at hnext

theorem EndsGrown.caught {stops : Failure → Prop} [DecidablePred stops]
    (hx : EndsGrown cfg P bases n n' x) :
    EndsGrown cfg P bases n n' (caught stops x) := by
  intro s hs
  have hcall := hx s hs
  rw [caught_run]
  cases hrun : x.run s with
  | ok a t =>
      constructor
      · intro b r hok
        cases hok
        exact hcall.1 a t hrun
      · intro e r herr
        cases herr
  | error e t =>
      have ht := hcall.2 e t hrun
      dsimp only
      split_ifs
      · constructor
        · intro b r hok
          cases hok
        · intro e' r herr
          cases herr
          exact ht
      · constructor
        · intro b r hok
          cases hok
          exact ht
        · intro e' r herr
          cases herr

end EndsGrown

section Messages

variable (rt : Runtime (Vec dim) D)

open VectorDBService

theorem bulkMessage_ends (haccepted : HNSWIndex.Accepted cfg) (os : OS)
    {req : InsertRequest} (resp : BulkInsertResponse)
    (hn : n + (decodeVector dim req.vector).toList.length < 2 ^ 32)
    (hreq : ∀ vec ∈ decodeVector dim req.vector, P vec) :
    EndsGrown cfg P bases n (n + (decodeVector dim req.vector).toList.length)
      (bulkMessage rt os req resp) := by
  unfold bulkMessage
  cases hdecode : decodeVector dim req.vector with
  | none => exact endsGrown_pure _ (Nat.le_add_right _ _)
  | some vec =>
      rw [hdecode] at hn hreq
      refine (endsGrown_request le_rfl).bind (fun _ => ?_) (Nat.le_add_right _ _)
      refine (endsGrown_tryInsert haccepted hn os rt req.vectorId
        (hreq vec rfl)).caught.bind (fun out => ?_) le_rfl
      cases out with
      | some out => exact endsGrown_pure _ le_rfl
      | none => exact endsGrown_pure _ le_rfl

theorem bulkLoop_ends (haccepted : HNSWIndex.Accepted cfg)
    {msgs : List (OS × InsertRequest)} (resp : BulkInsertResponse)
    (hn : n + (msgs.filterMap fun msg =>
      decodeVector dim msg.2.vector).length < 2 ^ 32)
    (hmsgs : ∀ vec ∈ msgs.filterMap fun msg => decodeVector dim msg.2.vector,
      P vec) :
    EndsGrown cfg P bases n (n + (msgs.filterMap fun msg =>
        decodeVector dim msg.2.vector).length)
      (bulkLoop rt msgs resp) := by
  induction msgs generalizing resp n with
  | nil => exact endsGrown_pure _ le_rfl
  | cons msg msgs ih =>
      have hsplit : ((msg :: msgs).filterMap fun msg =>
          decodeVector dim msg.2.vector) =
          (decodeVector dim msg.2.vector).toList ++
            msgs.filterMap fun msg => decodeVector dim msg.2.vector := by
        rw [List.filterMap_cons]
        cases decodeVector dim msg.2.vector with
        | none => rfl
        | some vec => rfl
      rw [hsplit, List.forall_mem_append] at hmsgs
      rw [hsplit, List.length_append, ← Nat.add_assoc] at hn ⊢
      refine (bulkMessage_ends rt haccepted msg.1 resp (by omega)
        fun vec hvec => hmsgs.1 vec (Option.mem_toList.mpr hvec)).bind
          (fun resp => ih resp hn hmsgs.2) (Nat.le_add_right _ _)

theorem handleInsert_ends {convert : List Char → Option UInt32}
    (haccepted : HNSWIndex.Accepted cfg) (os : OS) (us : ℕ) {body : List Char}
    (hn : n + (HttpApi.readVector convert dim "vector"
      body).toOption.toList.length < 2 ^ 32)
    (hbody : ∀ vec ∈ (HttpApi.readVector convert dim "vector"
      body).toOption.toList, P vec) :
    EndsGrown cfg P bases n (n + (HttpApi.readVector convert dim "vector"
        body).toOption.toList.length)
      (HttpApi.handleInsert convert os rt us body) := by
  unfold HttpApi.handleInsert
  cases hread : HttpApi.readVector convert dim "vector" body with
  | error text => exact endsGrown_pure _ (Nat.le_add_right _ _)
  | ok vec =>
      rw [hread] at hn hbody
      refine (endsGrown_compute _).bind (fun vid => ?_) (Nat.le_add_right _ _)
      refine (endsGrown_tryInsert haccepted hn os rt vid.toUInt64
        (hbody vec List.mem_cons_self)).bind (fun out => ?_) le_rfl
      exact (endsGrown_compute _).bind (fun total => endsGrown_pure _ le_rfl)
        le_rfl

theorem endsGrown_answered {α : Type}
    {f : ShardManager dim → Except Failure α × ShardManager dim}
    (hf : ∀ m, m.Grown cfg P bases n → (f m).2.Grown cfg P bases n) :
    EndsGrown cfg P bases n n (answered f) :=
  (keeps_answered hf).meets

end Messages

namespace ServerRuntime

variable (lib : ServerRuntime dim D)

theorem manage_ends (haccepted : HNSWIndex.Accepted cfg) (call : ServiceCall)
    (hn : n + (lib.posted call).length < 2 ^ 32)
    (hposted : ∀ vec ∈ lib.posted call, P vec) :
    EndsGrown cfg P bases n (n + (lib.posted call).length)
      (lib.manage call) := by
  cases call with
  | vectors call =>
      cases call with
      | insert ctx os req =>
          have hpost : lib.posted (.vectors (.insert ctx os req)) =
              (VectorDBService.decodeVector dim req.vector).toList := rfl
          rw [manage]
          rw [hpost] at hn hposted ⊢
          cases hdecode : VectorDBService.decodeVector dim req.vector with
          | none => exact endsGrown_pure _ (Nat.le_add_right _ _)
          | some vec =>
              rw [hdecode] at hn hposted
              refine (endsGrown_request le_rfl).bind (fun _ => ?_)
                (Nat.le_add_right _ _)
              exact (endsGrown_tryInsert haccepted hn os lib.rt req.vectorId
                (hposted vec List.mem_cons_self)).bind
                  (fun out => endsGrown_pure _ le_rfl) le_rfl
      | bulkInsert ctx msgs =>
          exact (bulkLoop_ends lib.rt haccepted _ hn hposted).bind
            (fun resp => endsGrown_pure _ le_rfl) le_rfl
      | search ctx throws req =>
          rw [manage]
          by_cases htopK : req.topK ≤ 0
          · rw [if_pos htopK]
            exact endsGrown_pure _ le_rfl
          · rw [if_neg htopK]
            cases VectorDBService.decodeVector dim req.query with
            | none => exact endsGrown_pure _ le_rfl
            | some query =>
                exact (endsGrown_answered fun m h =>
                  h.search lib.rt lib.partialSorter query req.topK req.efSearch
                    throws).bind (fun sr => endsGrown_pure _ le_rfl) le_rfl
      | httpInsert os us body =>
          exact (handleInsert_ends lib.rt haccepted os us hn hposted).bind
            (fun text => endsGrown_pure _ le_rfl) le_rfl
      | httpSearch throws us body =>
          exact (endsGrown_answered fun m h =>
            h.httpSearch lib.rt lib.convert lib.partialSorter throws
              lib.distanceText us body).bind
                (fun text => endsGrown_pure _ le_rfl) le_rfl
  | delete ctx => exact endsGrown_pure _ le_rfl
  | getInfo ctx => exact endsGrown_pure _ le_rfl

/-- A run of calls, of which the gate admits some. -/
theorem serveCalls_grown (haccepted : HNSWIndex.Accepted cfg)
    (calls : List ServiceCall) {s : Running (VectorDBService dim)}
    (hs : s.obj.shardMgr.Grown cfg P bases n)
    (hn : n + ((lib.admittedCalls calls s).flatMap lib.posted).length <
      2 ^ 32)
    (hposted : ∀ vec ∈ (lib.admittedCalls calls s).flatMap lib.posted,
      P vec) :
    (lib.serveCalls calls s).obj.shardMgr.Grown cfg P bases
      (n + ((lib.admittedCalls calls s).flatMap lib.posted).length) := by
  induction calls generalizing s n with
  | nil => exact hs
  | cons call calls ih =>
      have hnext : lib.serveCalls (call :: calls) s =
          lib.serveCalls calls (after (lib.serveCall call) s) := rfl
      have hmgr : (after (lib.serveCall call) s).obj.shardMgr =
          (if Admitted s.obj call then
            after (lib.manage call) (VectorDBService.managed s)
          else VectorDBService.managed s).obj := by
        rw [after_serveCall]
        rfl
      rw [hnext]
      rw [admittedCalls] at hn hposted ⊢
      by_cases hadmitted : Admitted s.obj call
      · rw [if_pos hadmitted] at hn hposted hmgr ⊢
        rw [List.singleton_append, List.flatMap_cons] at hn hposted ⊢
        rw [List.forall_mem_append] at hposted
        rw [List.length_append, ← Nat.add_assoc] at hn ⊢
        refine ih ?_ hn hposted.2
        rw [hmgr]
        exact (lib.manage_ends haccepted call (by omega) hposted.1).after
          (fun _ _ h => h) (fun _ _ h => h) hs
      · rw [if_neg hadmitted] at hn hposted hmgr ⊢
        refine ih ?_ hn hposted
        rw [hmgr]
        exact hs

theorem admittedCalls_append (before later : List ServiceCall)
    (s : Running (VectorDBService dim)) :
    lib.admittedCalls (before ++ later) s = lib.admittedCalls before s ++
      lib.admittedCalls later (lib.serveCalls before s) := by
  induction before generalizing s with
  | nil => rfl
  | cons call before ih =>
      rw [List.cons_append, admittedCalls, admittedCalls, ih,
        List.append_assoc]
      rfl

theorem admittedCalls_sublist (calls : List ServiceCall)
    (s : Running (VectorDBService dim)) :
    (lib.admittedCalls calls s).Sublist calls := by
  induction calls generalizing s with
  | nil => exact List.Sublist.refl _
  | cons call calls ih =>
      rw [admittedCalls]
      split_ifs
      · exact (ih _).cons_cons call
      · exact (ih _).cons call

/-- The gate only takes from what is posted. -/
theorem posted_length_le (calls : List ServiceCall)
    (s : Running (VectorDBService dim)) :
    ((lib.admittedCalls calls s).flatMap lib.posted).length ≤
      (calls.flatMap lib.posted).length :=
  (List.Sublist.flatMap (lib.admittedCalls_sublist calls s)
    lib.posted).length_le

end ServerRuntime

end Calls

/-! ## From a fresh store -/

section Fresh

variable {D : Type} [Preorder D] [DecidableLT D] {dep : Deployment D} {os : OS}
  {rngs : ℕ → ℕ → ℕ} {m₀ : ShardManager dep.Dim}

open HNSWIndex

theorem Deployment.start_accepted
    (hstart : dep.start os rngs (fun _ => ShardState.noFiles) = .ok m₀) :
    Accepted dep.cfg := by
  obtain ⟨hring, _, _, _, hlength, hshard⟩ := Deployment.start_eq_ok hstart
  have hcount : 0 < dep.shardCount.toNat :=
    Nat.pos_of_ne_zero fun hnone =>
      (ConsistentHashRing.new_eq_ok hring).1 (UInt32.toNat_inj.mp hnone)
  have hss := List.getElem?_eq_getElem (hlength ▸ hcount)
  obtain ⟨index, wal, hnew, _⟩ := ShardState.new_eq_ok.mp (hshard 0 _ hss)
  exact (new_eq_ok hnew).1

theorem Deployment.start_grown (P : Vec dep.Dim → Prop)
    (hstart : dep.start os rngs (fun _ => ShardState.noFiles) = .ok m₀) :
    m₀.Grown dep.cfg P (List.replicate m₀.shards.length []) 0 := by
  obtain ⟨_, _, _, _, _, hshard⟩ := Deployment.start_eq_ok hstart
  refine ⟨List.length_replicate.symm, fun s ss hss => ?_⟩
  obtain ⟨index, wal, hnew, _, rfl⟩ := ShardState.new_eq_ok.mp (hshard s ss hss)
  have hbase : (List.replicate m₀.shards.length ([] : List (Vec dep.Dim))).getD
      s [] = [] := by
    rw [List.getD_eq_getElem?_getD, List.getElem?_replicate]
    split_ifs
    · rfl
    · rfl
  rw [hbase]
  refine ⟨⟨_, new_walkable hnew⟩, ?_, List.nil_prefix⟩
  rw [(new_eq_ok hnew).2]

namespace ServerRuntime

variable (lib : ServerRuntime dep.Dim D)
  {s : Running (VectorDBService dep.Dim)}

/-- A shard that is asked answers. -/
theorem searchTasks_of_grown {m : ShardManager dep.Dim} {cfg : HNSWConfig}
    {P : Vec dep.Dim → Prop} {bases : List (List (Vec dep.Dim))} {n : ℕ}
    (h : m.Grown cfg P bases n) (query : Vec dep.Dim) {topK : Int32}
    (htopK : 1 ≤ topK.toInt) (ef : Int32) (throws : ℕ → Bool)
    {ss : ShardState dep.Dim} (hss : ss ∈ m.shards) :
    (m.searchTasks lib.rt query topK ef throws ss).isOk =
        !(ss.healthy && throws ss.shardId) ∧
      ∀ r ∈ contribution (m.searchTasks lib.rt query topK ef throws) ss,
        (ss.healthy = true ∧ throws ss.shardId = false) ∧
          ∃ vec, ss.index.vectors[r.nodeId]? = some vec ∧ P vec ∧
            r.dist = lib.rt.l2sq vec query := by
  obtain ⟨i, hi⟩ := List.mem_iff_getElem?.mp hss
  unfold contribution ShardManager.searchTasks ShardState.searchTask
  by_cases hhealthy : ss.healthy = false
  · rw [if_pos hhealthy, hhealthy]
    exact ⟨rfl, by simp⟩
  · rw [if_neg hhealthy]
    rw [Bool.not_eq_false] at hhealthy
    by_cases hthrows : throws ss.shardId = true
    · rw [if_pos hthrows, hhealthy, hthrows]
      exact ⟨rfl, by simp⟩
    · rw [if_neg hthrows]
      rw [Bool.not_eq_true] at hthrows
      obtain ⟨out, hsearch, _, _, hout⟩ := (h.index i ss hi).walks.search_ok
        lib.rt query htopK (ShardManager.efActual m.cfg ef)
      rw [hsearch, hhealthy, hthrows]
      exact ⟨rfl, fun r hr => ⟨⟨rfl, rfl⟩, hout r hr⟩⟩

/-- However often memory ran out and the log refused, the indexes are sound: the
next insertion into any of them returns or throws what it may throw, and a
search fails on no shard that is asked and returns what clients have posted. -/
theorem indexes_survive_exhaustion
    (hstart : dep.start os rngs (fun _ => ShardState.noFiles) = .ok m₀)
    (hs : s.obj.shardMgr = m₀) (calls : List ServiceCall)
    (hids : ((lib.admittedCalls calls s).flatMap lib.posted).length + 1 <
      2 ^ 32) :
    (∀ ss ∈ (lib.serveCalls calls s).obj.shardMgr.shards,
      ∀ vec memory e t, (HNSWIndex.tryInsert lib.rt (Vec.zero dep.Dim) vec).run
        ⟨ss.index, memory⟩ = .error e t → Exhausted dep.cfg e) ∧
    ∀ (query : Vec dep.Dim) (topK ef : Int32) (throws : ℕ → Bool),
      1 ≤ topK.toInt →
      CountsEnough ((lib.serveCalls calls s).obj.shardMgr.partials lib.rt query
        topK ef throws) topK → ∃ result m',
      (lib.serveCalls calls s).obj.shardMgr.search lib.rt lib.partialSorter
        query topK ef throws = (.ok result, m') ∧
      result.shardsErr = ((lib.serveCalls calls s).obj.shardMgr.shards.countP
        fun ss => ss.healthy && throws ss.shardId) ∧
      ∀ r ∈ result.results,
        ∃ ss ∈ (lib.serveCalls calls s).obj.shardMgr.shards,
          (ss.healthy = true ∧ throws ss.shardId = false) ∧
          ∃ vec ∈ (lib.admittedCalls calls s).flatMap lib.posted,
            ss.index.vectors[r.nodeId]? = some vec ∧
              r.dist = lib.rt.l2sq vec query := by
  have haccepted := Deployment.start_accepted hstart
  have hgrown := lib.serveCalls_grown haccepted calls
    (P := fun vec => vec ∈ (lib.admittedCalls calls s).flatMap lib.posted)
    (s := s) (by rw [hs]; exact Deployment.start_grown _ hstart)
    (by omega) fun vec hvec => hvec
  generalize (lib.serveCalls calls s).obj.shardMgr = m at hgrown ⊢
  constructor
  · intro ss hss vec memory e t herr
    obtain ⟨i, hi⟩ := List.mem_iff_getElem?.mp hss
    obtain ⟨S, hwalk⟩ := (hgrown.index i ss hi).walks
    have hnextId := (hgrown.index i ss hi).nextId_le
    have hany : Walkable dep.cfg (fun _ => True) S ss.index :=
      ⟨hwalk.cfg_eq, fun i hi => (hwalk.stored i hi).imp fun _ h => ⟨h.1, trivial⟩,
        hwalk.slots, hwalk.links, hwalk.entry, hwalk.maxLayer_lt,
        hwalk.vectors_le, hwalk.lists_le⟩
    exact ((tryInsert_meets lib.rt haccepted (Vec.zero dep.Dim) trivial
      ⟨ss.index, memory⟩ ⟨by dsimp only; omega, S, hany⟩).2 e t herr).1
  · intro query topK ef throws htopK hcounts
    obtain ⟨result, hsearch⟩ := ShardManager.search_ok lib.rt
      lib.partialSorter (by omega : 0 ≤ topK.toInt) hcounts
    obtain ⟨hmerge, _, _, herr, _⟩ := ShardManager.search_eq_ok hsearch
    have htasks : ∀ ss ∈ m.shards, _ := fun ss hss =>
      lib.searchTasks_of_grown hgrown query htopK ef throws hss
    refine ⟨result, _, hsearch, ?_, fun r hr => ?_⟩
    · rw [herr]
      refine List.countP_congr fun ss hss => ?_
      rw [(htasks ss hss).1, Bool.not_not]
    · obtain ⟨rest, hperm, _⟩ := mergeResults_eq_ok hmerge
      have hmem := hperm.mem_iff.mp (List.mem_append_left rest hr)
      obtain ⟨part, hpart, hr⟩ := List.mem_flatten.mp hmem
      obtain ⟨ss, hss, rfl⟩ := List.mem_map.mp hpart
      obtain ⟨hasked, vec, hvec, hposted, hdist⟩ := (htasks ss hss).2 r hr
      exact ⟨ss, hss, hasked, vec, hposted, hvec, hdist⟩

/-- Two inserts, the second on a full disk. -/
def retriedInsert : List ServiceCall :=
  [.vectors (.insert Deployment.someone OS.reliable Deployment.oneRequest),
    .vectors (.insert Deployment.someone WAL.fullDisk Deployment.oneRequest)]

/-- Calls add no shards. -/
theorem countsEnough_calls
    (hstart : dep.start os rngs (fun _ => ShardState.noFiles) = .ok m₀)
    (hs : s.obj.shardMgr = m₀) (calls : List ServiceCall)
    (hids : ((lib.admittedCalls calls s).flatMap lib.posted).length < 2 ^ 32)
    (query : Vec dep.Dim) {topK : Int32} (htopK : 0 ≤ topK.toInt) (ef : Int32)
    (throws : ℕ → Bool)
    (hfew : dep.shardCount.toNat * topK.toInt.toNat < 2 ^ 31) :
    CountsEnough ((lib.serveCalls calls s).obj.shardMgr.partials lib.rt query
      topK ef throws) topK := by
  have hgrown := lib.serveCalls_grown (Deployment.start_accepted hstart) calls
    (P := fun _ => True) (s := s)
    (by rw [hs]; exact Deployment.start_grown _ hstart) (by omega)
    fun _ _ => trivial
  obtain ⟨_, _, _, _, hlength, _⟩ := Deployment.start_eq_ok hstart
  apply ShardManager.countsEnough_of_shards _ _ htopK
  rwa [hgrown.length_eq, List.length_replicate, hlength]

/-- The third allocation fails. -/
theorem indexes_survive_exhaustion_oneShard : ∃ m result m',
    Deployment.oneShard.start OS.reliable (fun _ i => i)
      (fun _ => ShardState.noFiles) = .ok m ∧
    (lineServer.serveCalls retriedInsert ⟨Deployment.openService m,
      fun i => decide (i ≠ 2)⟩).obj.shardMgr.search lineServer.rt
        lineServer.partialSorter (Vec.zero _) 1 0 (fun _ => false) =
      (.ok result, m') ∧ result.shardsErr = 0 := by
  obtain ⟨m, hstart⟩ := Deployment.oneShard_start fun _ i => i
  have hposted := lineServer.posted_length_le retriedInsert
    ⟨Deployment.openService m, fun i => decide (i ≠ 2)⟩
  have htwo : (retriedInsert.flatMap lineServer.posted).length = 2 := by decide
  obtain ⟨_, hsearch⟩ := lineServer.indexes_survive_exhaustion hstart
    (s := ⟨Deployment.openService m, fun i => decide (i ≠ 2)⟩) rfl
    retriedInsert (by omega)
  obtain ⟨result, m', hok, herr, _⟩ := hsearch (Vec.zero _) 1 0
    (fun _ => false) (by decide)
    (lineServer.countsEnough_calls hstart rfl retriedInsert (by omega)
      (Vec.zero _) (by decide) 0 (fun _ => false) (by decide))
  refine ⟨m, result, m', hstart, hok, herr.trans ?_⟩
  simp

/-- The vector of an insert that returned is where the response says. -/
theorem insert_stored {ctx : ServerContext} {os' : OS} {req : InsertRequest}
    {P : Vec dep.Dim → Prop} {bases : List (List (Vec dep.Dim))} {n : ℕ}
    (h : s.obj.shardMgr.Grown dep.cfg P bases n) {status : Status}
    {shardId id : ℕ} {t : Running (VectorDBService dep.Dim)}
    (hok : (VectorDBService.insert lib.rt ctx os' req).run s =
      .ok (status, some (shardId, id)) t) :
    ∃ vec ss, VectorDBService.decodeVector dep.Dim req.vector = some vec ∧
      t.obj.shardMgr.shards[shardId]? = some ss ∧
      ss.index.vectors[id]? = some vec := by
  have hmgr := VectorDBService.gate_shardMgr ctx s.obj
  unfold VectorDBService.insert at hok
  rw [bind_of_ok (compute_run _ s), bind_of_ok (update_run _ s)] at hok
  by_cases hgate : (s.obj.gate ctx).1.isOk = false
  · rw [if_pos hgate] at hok
    cases hok
  rw [if_neg hgate] at hok
  cases hdecode : VectorDBService.decodeVector dep.Dim req.vector with
  | none =>
      rw [hdecode] at hok
      cases hok
  | some vec =>
      rw [hdecode] at hok
      obtain ⟨u, s₁, hrequest, hok⟩ := bind_eq_ok.mp hok
      have hobj : s₁.obj.shardMgr = s.obj.shardMgr := by
        rw [request_run] at hrequest
        split_ifs at hrequest
        cases hrequest
        exact hmgr
      obtain ⟨out, s₂, hmanager, hok⟩ := bind_eq_ok.mp hok
      cases hok
      obtain ⟨r, hinsert, rfl⟩ := onPart_eq_ok.mp hmanager
      obtain ⟨ss, r', howns, hshard, rfl⟩ :=
        ShardManager.tryInsert_eq_ok hinsert
      obtain ⟨lsn, s₃, hwal, hindex⟩ := bind_eq_ok.mp hshard
      obtain ⟨wal, happend, rfl⟩ := onPart_eq_ok.mp hwal
      obtain ⟨r'', hnode, rfl⟩ := onPart_eq_ok.mp hindex
      have hss : s.obj.shardMgr.shards[shardId]? = some ss := hobj ▸ howns.2
      obtain ⟨S, hwalk⟩ := (h.index shardId ss hss).walks
      have hstored := ((tryInsert_stores lib.rt (Vec.zero dep.Dim) vec
        ss.index.vectors _ ⟨rfl, hwalk.vectors_le⟩).1 id r'' hnode).2
      have hlt := (List.getElem?_eq_some_iff.mp howns.2).1
      exact ⟨vec, _, rfl, List.getElem?_set_self hlt, hstored⟩

/-- Whatever fails later, an acknowledged insert is still where its response
said. -/
theorem acknowledged_inserts_stay
    (hstart : dep.start os rngs (fun _ => ShardState.noFiles) = .ok m₀)
    (hs : s.obj.shardMgr = m₀) (before later : List ServiceCall)
    {ctx : ServerContext} {os' : OS} {req : InsertRequest}
    (hids : ((lib.admittedCalls
      (before ++ .vectors (.insert ctx os' req) :: later) s).flatMap
        lib.posted).length < 2 ^ 32)
    {status : Status} {shardId id : ℕ} {t : Running (VectorDBService dep.Dim)}
    (hok : (VectorDBService.insert lib.rt ctx os' req).run
      (lib.serveCalls before s) = .ok (status, some (shardId, id)) t) :
    ∃ vec ss, VectorDBService.decodeVector dep.Dim req.vector = some vec ∧
      (lib.serveCalls (before ++ .vectors (.insert ctx os' req) :: later)
        s).obj.shardMgr.shards[shardId]? = some ss ∧
      ss.index.vectors[id]? = some vec := by
  have haccepted := Deployment.start_accepted hstart
  have hfresh : s.obj.shardMgr.Grown dep.cfg (fun _ => True) _ 0 :=
    hs ▸ Deployment.start_grown _ hstart
  have hcall : lib.serveCalls (before ++ [.vectors (.insert ctx os' req)]) s =
      t := by
    rw [serveCalls, List.foldl_append]
    change after (lib.serve (.insert ctx os' req)) (lib.serveCalls before s) = t
    rw [serve, after_bind_pure, after_of_ok hok]
  have hrun : lib.serveCalls
      (before ++ .vectors (.insert ctx os' req) :: later) s =
        lib.serveCalls later t := by
    rw [← hcall, List.append_cons]
    exact List.foldl_append
  rw [List.append_cons, admittedCalls_append, hcall, List.flatMap_append,
    List.length_append] at hids
  have hbefore := lib.serveCalls_grown haccepted before hfresh
    (lt_of_le_of_lt ?_ hids) fun _ _ => trivial
  · obtain ⟨vec, ss, hdecode, hss, hstored⟩ := lib.insert_stored hbefore hok
    have hgrown := lib.serveCalls_grown haccepted
      (before ++ [.vectors (.insert ctx os' req)]) hfresh (by omega)
      fun _ _ => trivial
    rw [hcall] at hgrown
    have hrebased : t.obj.shardMgr.Grown dep.cfg (fun _ => True)
        (t.obj.shardMgr.shards.map fun ss => ss.index.vectors) _ :=
      ⟨(List.length_map _).symm, fun i st hst =>
        ⟨(hgrown.index i st hst).walks, (hgrown.index i st hst).nextId_le, by
          rw [List.getD_eq_getElem?_getD, List.getElem?_map, hst]
          exact List.prefix_rfl⟩⟩
    have hlast := lib.serveCalls_grown haccepted later hrebased (by omega)
      fun _ _ => trivial
    have hlt := (List.getElem?_eq_some_iff.mp hss).1
    have hlength : shardId <
        (lib.serveCalls later t).obj.shardMgr.shards.length := by
      rw [hlast.length_eq, List.length_map]
      exact hlt
    have hbase := (hlast.index shardId _
      (List.getElem?_eq_getElem hlength)).prefix_vectors
    rw [List.getD_eq_getElem?_getD, List.getElem?_map, hss] at hbase
    rw [hrun]
    refine ⟨vec, _, hdecode, List.getElem?_eq_getElem hlength, ?_⟩
    obtain ⟨more, hmore⟩ := hbase
    rw [← hmore]
    exact (List.getElem?_append_left
      (List.getElem?_eq_some_iff.mp hstored).1).trans hstored
  · rw [admittedCalls_append, List.flatMap_append, List.length_append]
    omega

theorem acknowledged_inserts_stay_oneShard : ∃ m out t ss vec,
    Deployment.oneShard.start OS.reliable (fun _ i => i)
      (fun _ => ShardState.noFiles) = .ok m ∧
    (VectorDBService.insert lineServer.rt Deployment.someone OS.reliable
      Deployment.oneRequest).run ⟨Deployment.openService m, ample⟩ =
      .ok (.ok, some out) t ∧
    VectorDBService.decodeVector _ Deployment.oneRequest.vector = some vec ∧
    (lineServer.serveCalls retriedInsert
      ⟨Deployment.openService m, ample⟩).obj.shardMgr.shards[out.1]? =
      some ss ∧ ss.index.vectors[out.2]? = some vec := by
  obtain ⟨m, hstart⟩ := Deployment.oneShard_start fun _ i => i
  obtain ⟨hvectors, out, m', hinsert, _⟩ := Deployment.insert_stored
    (by decide) ⟨by norm_num, by simp⟩ hstart
    Deployment.oneRequest.vectorId (Vec.ofBytes _ [1, 0, 0, 0])
  have hrun : (VectorDBService.insert lineServer.rt Deployment.someone
      OS.reliable Deployment.oneRequest).run ⟨Deployment.openService m, ample⟩ =
        _ :=
    VectorDBService.insert_open lineServer.rt (Deployment.openService_gate m)
      rfl hvectors hinsert
  have hposted := lineServer.posted_length_le retriedInsert
    ⟨Deployment.openService m, ample⟩
  have htwo : (retriedInsert.flatMap lineServer.posted).length = 2 := by decide
  obtain ⟨vec, ss, hdecode, hss, hvec⟩ :=
    lineServer.acknowledged_inserts_stay hstart
      (s := ⟨Deployment.openService m, ample⟩) rfl []
      [.vectors (.insert Deployment.someone WAL.fullDisk Deployment.oneRequest)]
      (lt_of_le_of_lt hposted (by omega)) hrun
  exact ⟨m, out, _, ss, vec, hstart, hrun, hdecode, hss, hvec⟩

end ServerRuntime

end Fresh

end VecDB
