import VecDB.GrpcServer
import VecDB.ShardRouting
import VecDB.ShardTraces
import Mathlib.Tactic

/-!
# Bulk inserts

`VectorDBServiceImpl::BulkInsert` inserts one message after another, catches
what an insert throws, and reports how many inserts returned.  Its report is
right as long as no failed insert has left a vector, and no index has run out
of ids.
-/

namespace VecDB

open StateRules Running

structure InsertRequest where
  vectorId : UInt64
  vector : List UInt8

structure BulkInsertResponse where
  inserted : ℕ
  failed : ℕ
  deriving DecidableEq, Repr

namespace VectorDBService

variable {dim : UInt32} {D : Type} [Preorder D] [DecidableLT D]
  (rt : Runtime (Vec dim) D)

/-! ## The call -/

/-- The body of the read loop; `os` is the system at that time.  The vector is
allocated outside the `try`. -/
def bulkMessage (os : OS) (req : InsertRequest) (resp : BulkInsertResponse) :
    EStateM Failure (Running (ShardManager dim)) BulkInsertResponse :=
  match decodeVector dim req.vector with
  | none => return { resp with failed := resp.failed + 1 }
  | some vec => do
      request
      let out ← caught (fun e => ¬ e.Thrown)
        (ShardManager.tryInsert os rt req.vectorId vec)
      match out with
      | some _ => return { resp with inserted := resp.inserted + 1 }
      | none => return { resp with failed := resp.failed + 1 }

def bulkLoop : List (OS × InsertRequest) → BulkInsertResponse →
    EStateM Failure (Running (ShardManager dim)) BulkInsertResponse
  | [], resp => pure resp
  | (os, req) :: msgs, resp => do
      let resp ← bulkMessage rt os req resp
      bulkLoop msgs resp

def onManager {α : Type}
    (x : EStateM Failure (Running (ShardManager dim)) α) :
    EStateM Failure (Running (VectorDBService dim)) α :=
  onPart (fun s => ⟨s.obj.shardMgr, s.memory⟩)
    (fun t s => ⟨{ s.obj with shardMgr := t.obj }, t.memory⟩) x

def noCounts : BulkInsertResponse where
  inserted := 0
  failed := 0

def bulkInsert (ctx : ServerContext) (msgs : List (OS × InsertRequest)) :
    EStateM Failure (Running (VectorDBService dim))
      (Status × BulkInsertResponse) := do
  let gs ← compute fun svc => .ok (svc.gate ctx).1
  update fun svc => (svc.gate ctx).2
  if gs.isOk = false then return (gs, noCounts)
  let resp ← onManager (bulkLoop rt msgs noCounts)
  return (.ok, resp)

/-- The messages that are read before the call answers. -/
def messagesRead (ctx : ServerContext) (svc : VectorDBService dim)
    (msgs : List (OS × InsertRequest)) : ℕ :=
  if (svc.gate ctx).1.isOk = false then 0 else msgs.length

/-! ## What it reports -/

/-- The report of a call that found `m` and has left `m'`. -/
structure Reported (m m' : ShardManager dim) (read : ℕ)
    (resp : BulkInsertResponse) : Prop where
  inserted : m'.totalVectors = m.totalVectors + resp.inserted
  read : resp.inserted + resp.failed = read

/-- The insert of the message counts a vector if it returns, and none if it
throws. -/
structure Counted (os : OS) (vectorId : UInt64) (vec : Vec dim)
    (s : Running (ShardManager dim)) : Prop where
  returned : ∀ out s', (ShardManager.tryInsert os rt vectorId vec).run s =
    .ok out s' → ∀ ss, s.obj.Owns vectorId out.1 ss →
      ss.index.size + 1 < 2 ^ 32
  threw : ∀ e s', (ShardManager.tryInsert os rt vectorId vec).run s =
    .error e s' → e.Thrown → ¬ s.obj.LogAccepts os vectorId

/-- Whatever is decoded from the message, once it is. -/
def MessageCounted (os : OS) (req : InsertRequest)
    (s : Running (ShardManager dim)) : Prop :=
  ∀ vec s', decodeVector dim req.vector = some vec →
    request.run s = .ok () s' → Counted rt os req.vectorId vec s'

section Steps

variable {rt} {os : OS} {req : InsertRequest} {resp resp' : BulkInsertResponse}
  {s s' : Running (ShardManager dim)}

theorem request_eq_ok {t t' : Running (ShardManager dim)} {u : Unit}
    (hok : request.run t = .ok u t') : t'.obj = t.obj := by
  rw [request_run] at hok
  split_ifs at hok
  cases hok
  rfl

theorem returned_totalVectors {vectorId : UInt64} {vec : Vec dim}
    {out : ℕ × ℕ}
    (hok : (ShardManager.tryInsert os rt vectorId vec).run s = .ok out s') :
    ∃ ss, s.obj.Owns vectorId out.1 ss ∧
      s'.obj.totalVectors + ss.index.size =
        s.obj.totalVectors + (ss.index.size + 1) % 2 ^ 32 := by
  obtain ⟨ss, t, howns, hshard, rfl⟩ := ShardManager.tryInsert_eq_ok hok
  obtain ⟨hentered, _⟩ := ShardState.tryInsert_eq_ok hshard
  exact ⟨ss, howns, ShardManager.totalVectors_entered howns.2 hentered⟩

theorem counted_of_ok {vectorId : UInt64} {vec : Vec dim} {out : ℕ × ℕ}
    (hok : (ShardManager.tryInsert os rt vectorId vec).run s = .ok out s') :
    Counted rt os vectorId vec s ↔
      s'.obj.totalVectors = s.obj.totalVectors + 1 := by
  obtain ⟨ss, howns, htotal⟩ := returned_totalVectors hok
  constructor
  · intro h
    have hroom := h.returned out s' hok ss howns
    rw [Nat.mod_eq_of_lt hroom] at htotal
    omega
  · intro hone
    refine ⟨fun out' t hok' ss' howns' => ?_, fun e t herr => ?_⟩
    · rw [hok] at hok'
      cases hok'
      rw [howns.unique howns']
      rw [hone] at htotal
      omega
    · rw [hok] at herr
      cases herr

theorem counted_of_error {vectorId : UInt64} {vec : Vec dim} {e : Failure}
    (herr : (ShardManager.tryInsert os rt vectorId vec).run s = .error e s')
    (hthrown : e.Thrown) :
    Counted rt os vectorId vec s ↔
      s'.obj.totalVectors = s.obj.totalVectors := by
  rw [ShardManager.totalVectors_iff herr hthrown]
  constructor
  · intro h
    exact h.threw e s' herr hthrown
  · intro hlog
    refine ⟨fun out t hok => ?_, fun e' t herr' _ => hlog⟩
    rw [herr] at hok
    cases hok

theorem messageCounted_iff {vec : Vec dim} {s₁ : Running (ShardManager dim)}
    (hdecode : decodeVector dim req.vector = some vec)
    (hrequest : request.run s = .ok () s₁) :
    MessageCounted rt os req s ↔ Counted rt os req.vectorId vec s₁ := by
  constructor
  · intro h
    exact h vec s₁ hdecode hrequest
  · intro h vec' s₂ hdecode' hrequest'
    rw [hdecode] at hdecode'
    rw [hrequest] at hrequest'
    cases hdecode'
    cases hrequest'
    exact h

/-- A message that is counted adds what the report says it adds. -/
theorem bulkMessage_eq_ok
    (hok : (bulkMessage rt os req resp).run s = .ok resp' s') :
    resp'.inserted + resp'.failed = resp.inserted + resp.failed + 1 ∧
      (s'.obj.totalVectors + resp.inserted =
          s.obj.totalVectors + resp'.inserted ↔
        MessageCounted rt os req s) := by
  unfold bulkMessage at hok
  cases hdecode : decodeVector dim req.vector with
  | none =>
      rw [hdecode] at hok
      cases hok
      refine ⟨by dsimp only; omega, iff_of_true rfl ?_⟩
      intro vec s₁ hsome
      rw [hdecode] at hsome
      cases hsome
  | some vec =>
      rw [hdecode] at hok
      obtain ⟨_, s₁, hrequest, hrest⟩ := bind_eq_ok.mp hok
      obtain ⟨out, s₂, hcaught, hlast⟩ := bind_eq_ok.mp hrest
      rw [messageCounted_iff hdecode hrequest]
      have hobj := request_eq_ok hrequest
      cases out with
      | some out =>
          cases hlast
          rw [counted_of_ok (caught_eq_some.mp hcaught), hobj]
          dsimp only
          omega
      | none =>
          cases hlast
          obtain ⟨e, herr, hstops⟩ := caught_eq_none.mp hcaught
          rw [counted_of_error herr (not_not.mp hstops), hobj]
          dsimp only
          omega

/-- A message behind which the call does not go on counts nothing. -/
theorem messageCounted_of_not_ok
    (hstop : ∀ resp' s', (bulkMessage rt os req resp).run s ≠ .ok resp' s') :
    MessageCounted rt os req s := by
  intro vec s₁ hdecode hrequest
  unfold bulkMessage at hstop
  rw [hdecode] at hstop
  have hcaught : ∀ out s₂, (caught (fun e => ¬ e.Thrown)
      (ShardManager.tryInsert os rt req.vectorId vec)).run s₁ ≠ .ok out s₂ := by
    intro out s₂ hout
    cases out with
    | some out =>
        exact hstop _ _ (bind_eq_ok.mpr ⟨_, _, hrequest,
          bind_eq_ok.mpr ⟨_, _, hout, rfl⟩⟩)
    | none =>
        exact hstop _ _ (bind_eq_ok.mpr ⟨_, _, hrequest,
          bind_eq_ok.mpr ⟨_, _, hout, rfl⟩⟩)
  refine ⟨fun out s₂ hok => ?_, fun e s₂ herr hthrown => ?_⟩
  · exact (hcaught _ _ (caught_eq_some.mpr hok)).elim
  · exact (hcaught _ _ (caught_eq_none.mpr
      ⟨e, herr, not_not.mpr hthrown⟩)).elim

end Steps

/-! ## Streams -/

section Streams

variable {rt} {msgs : List (OS × InsertRequest)} {s : Running (ShardManager dim)}

theorem bulkLoop_snoc_eq_ok {before : List (OS × InsertRequest)} {os : OS}
    {req : InsertRequest} {resp resp' : BulkInsertResponse}
    {s' : Running (ShardManager dim)} :
    (bulkLoop rt (before ++ [(os, req)]) resp).run s = .ok resp' s' ↔
      ∃ resp₁ s₁, (bulkLoop rt before resp).run s = .ok resp₁ s₁ ∧
        (bulkMessage rt os req resp₁).run s₁ = .ok resp' s' := by
  induction before generalizing resp s with
  | nil =>
      rw [List.nil_append]
      change (bulkMessage rt os req resp >>= bulkLoop rt []).run s = _ ↔ _
      rw [bind_eq_ok]
      constructor
      · rintro ⟨resp₁, s₁, hmessage, hrest⟩
        cases hrest
        exact ⟨resp, s, rfl, hmessage⟩
      · rintro ⟨resp₁, s₁, hnone, hmessage⟩
        cases hnone
        exact ⟨resp', s', hmessage, rfl⟩
  | cons msg before ih =>
      obtain ⟨os', req'⟩ := msg
      rw [List.cons_append, bulkLoop, bulkLoop, bind_eq_ok]
      constructor
      · rintro ⟨resp₁, s₁, hfirst, hrest⟩
        obtain ⟨resp₂, s₂, hbefore, hmessage⟩ := ih.mp hrest
        exact ⟨resp₂, s₂, bind_eq_ok.mpr ⟨resp₁, s₁, hfirst, hbefore⟩, hmessage⟩
      · rintro ⟨resp₂, s₂, hbefore, hmessage⟩
        obtain ⟨resp₁, s₁, hfirst, hrest⟩ := bind_eq_ok.mp hbefore
        exact ⟨resp₁, s₁, hfirst, ih.mpr ⟨resp₂, s₂, hrest, hmessage⟩⟩

theorem Reported.snoc_iff {m m₁ m₂ : ShardManager dim} {read : ℕ}
    {resp resp' : BulkInsertResponse} (h : Reported m m₁ read resp)
    (hread : resp'.inserted + resp'.failed =
      resp.inserted + resp.failed + 1) :
    Reported m m₂ (read + 1) resp' ↔
      m₂.totalVectors + resp.inserted = m₁.totalVectors + resp'.inserted := by
  obtain ⟨hinserted, hcount⟩ := h
  constructor
  · intro h'
    have htotal := h'.inserted
    omega
  · intro htotal
    exact ⟨by omega, by omega⟩

/-- The report on every part of the stream is right exactly when every
message of it is counted. -/
theorem bulkLoop_reported_iff :
    (∀ before after resp s', msgs = before ++ after →
        (bulkLoop rt before noCounts).run s = .ok resp s' →
          Reported s.obj s'.obj before.length resp) ↔
      ∀ before os req after resp s', msgs = before ++ (os, req) :: after →
        (bulkLoop rt before noCounts).run s = .ok resp s' →
          MessageCounted rt os req s' := by
  constructor
  · intro hreported before os req after resp s' hmsgs hbefore
    have hsofar := hreported before _ resp s' hmsgs hbefore
    by_cases hok : ∃ resp₁ s₁,
        (bulkMessage rt os req resp).run s' = .ok resp₁ s₁
    · obtain ⟨resp₁, s₁, hmessage⟩ := hok
      obtain ⟨hread, hiff⟩ := bulkMessage_eq_ok hmessage
      have hnext := hreported (before ++ [(os, req)]) after resp₁ s₁
        (by rw [hmsgs, List.append_assoc, List.singleton_append])
        (bulkLoop_snoc_eq_ok.mpr ⟨resp, s', hbefore, hmessage⟩)
      rw [List.length_append, List.length_singleton] at hnext
      exact hiff.mp ((hsofar.snoc_iff hread).mp hnext)
    · push Not at hok
      exact messageCounted_of_not_ok hok
  · intro hcounted before
    -- the last message of the part decides, as those before it are settled
    induction before using List.reverseRecOn with
    | nil =>
        intro after resp s' _ hnone
        cases hnone
        exact ⟨rfl, rfl⟩
    | append_singleton before msg ih =>
        intro after resp s' hmsgs hrun
        obtain ⟨os, req⟩ := msg
        obtain ⟨resp₁, s₁, hbefore, hmessage⟩ := bulkLoop_snoc_eq_ok.mp hrun
        rw [List.append_assoc, List.singleton_append] at hmsgs
        have hsofar := ih ((os, req) :: after) resp₁ s₁ hmsgs hbefore
        obtain ⟨hread, hiff⟩ := bulkMessage_eq_ok hmessage
        rw [List.length_append, List.length_singleton,
          hsofar.snoc_iff hread]
        exact hiff.mpr
          (hcounted before os req after resp₁ s₁ hmsgs hbefore)

end Streams

/-! ## The service -/

section Service

variable {rt} {ctx : ServerContext} {svc : VectorDBService dim}
  {memory : ℕ → Bool} {msgs : List (OS × InsertRequest)}
  {s : Running (VectorDBService dim)}

theorem bulkInsert_refused (hgate : (svc.gate ctx).1.isOk = false) :
    (bulkInsert rt ctx msgs).run ⟨svc, memory⟩ =
      .ok ((svc.gate ctx).1, noCounts) ⟨(svc.gate ctx).2, memory⟩ := by
  unfold bulkInsert
  rw [bind_of_ok (compute_run _ _), bind_of_ok (update_run _ _),
    if_pos hgate]
  rfl

theorem bulkInsert_eq_ok (hgate : (svc.gate ctx).1.isOk = true)
    {out : Status × BulkInsertResponse} :
    (bulkInsert rt ctx msgs).run ⟨svc, memory⟩ = .ok out s ↔
      ∃ t, (bulkLoop rt msgs noCounts).run ⟨svc.shardMgr, memory⟩ =
          .ok out.2 t ∧
        out.1 = .ok ∧
        s = ⟨{ (svc.gate ctx).2 with shardMgr := t.obj }, t.memory⟩ := by
  unfold bulkInsert
  rw [bind_of_ok (compute_run _ _), bind_of_ok (update_run _ _),
    if_neg (by simp [hgate]), bind_eq_ok, ← gate_shardMgr ctx svc]
  constructor
  · rintro ⟨resp, s₁, hloop, hlast⟩
    obtain ⟨t, hrun, rfl⟩ := onPart_eq_ok.mp hloop
    cases hlast
    exact ⟨t, hrun, rfl, rfl⟩
  · obtain ⟨status, resp⟩ := out
    rintro ⟨t, hrun, rfl, rfl⟩
    exact ⟨resp, _, onPart_eq_ok.mpr ⟨t, hrun, rfl⟩, rfl⟩

end Service

end VectorDBService

namespace Deployment

open VectorDBService

variable {D : Type} [Preorder D] [DecidableLT D]

/-- A failed insert leaves no trace exactly where the log refused the entry.
A bulk insert reports what it has done, for every part of its stream, exactly
when the log refused each entry of an insert that threw, and each insert that
returned found an id left. -/
theorem failed_insert_traces (dep : Deployment D) :
    (∀ m : ShardManager dep.Dim, dep.Reaches m → ∀ os vectorId vec memory e s,
      (ShardManager.tryInsert os dep.rt vectorId vec).run ⟨m, memory⟩ =
        .error e s → e.Thrown →
      (dep.NoTrace m s.obj ↔ ¬ m.LogAccepts os vectorId)) ∧
    ∀ (svc : VectorDBService dep.Dim) ctx memory msgs,
      (∀ before after out s, msgs = before ++ after →
        (bulkInsert dep.rt ctx before).run ⟨svc, memory⟩ = .ok out s →
        Reported svc.shardMgr s.obj.shardMgr (messagesRead ctx svc before)
          out.2) ↔
      ((svc.gate ctx).1.isOk = true →
        ∀ before os req after resp s, msgs = before ++ (os, req) :: after →
          (bulkLoop dep.rt before noCounts).run ⟨svc.shardMgr, memory⟩ =
            .ok resp s → MessageCounted dep.rt os req s) := by
  refine ⟨fun m h os vectorId vec memory e s hrun hthrown =>
    h.noTrace_iff hrun hthrown, fun svc ctx memory msgs => ?_⟩
  by_cases hgate : (svc.gate ctx).1.isOk = true
  · rw [forall_prop_of_true hgate, ← bulkLoop_reported_iff]
    have hread : ∀ before, messagesRead ctx svc before = before.length :=
      fun before => if_neg (by simp [hgate])
    constructor
    · intro h before after resp s hmsgs hrun
      have hout := h before after (.ok, resp) _ hmsgs
        ((bulkInsert_eq_ok hgate).mpr ⟨s, hrun, rfl, rfl⟩)
      rwa [hread] at hout
    · intro h before after out s hmsgs hrun
      obtain ⟨t, hloop, _, rfl⟩ := (bulkInsert_eq_ok hgate).mp hrun
      rw [hread]
      exact h before after out.2 t hmsgs hloop
  · have hrefused : (svc.gate ctx).1.isOk = false := by simpa using hgate
    refine iff_of_true ?_ fun h => (hgate h).elim
    intro before after out s _ hrun
    rw [bulkInsert_refused hrefused] at hrun
    cases hrun
    rw [show messagesRead ctx svc before = 0 from if_pos hrefused]
    refine ⟨?_, rfl⟩
    rw [gate_shardMgr]
    rfl

/-! ## A store that runs out of memory -/

theorem start_owns {dep : Deployment D} {os : OS} {rngs : ℕ → ℕ → ℕ}
    {m : ShardManager dep.Dim}
    (hstart : dep.start os rngs (fun _ => ShardState.noFiles) = .ok m)
    (vectorId : UInt64) :
    m.totalVectors = 0 ∧ ∃ shardId ss, m.Owns vectorId shardId ss ∧
      ss.wal = WAL.created dep.Dim 1000 ∧ ss.index.size = 0 ∧
        ss.index.neighbours = [] := by
  obtain ⟨hring, _, _, _, hlength, hshard⟩ := start_eq_ok hstart
  have hfresh : ∀ (s : ℕ) ss, m.shards[s]? = some ss →
      ss.wal = WAL.created dep.Dim 1000 ∧ ss.index.size = 0 ∧
        ss.index.neighbours = [] := by
    intro s ss hss
    obtain ⟨index, wal, hindex, hwal, rfl⟩ :=
      ShardState.new_eq_ok.mp (hshard s ss hss)
    have hempty := (HNSWIndex.new_eq_ok hindex).2
    exact ⟨WAL.new_none_eq_ok hwal, (HNSWIndex.new_stores hindex).size_eq,
      congrArg HNSWIndex.neighbours hempty⟩
  constructor
  · unfold ShardManager.totalVectors
    rw [List.sum_eq_zero_iff]
    intro size hsize
    obtain ⟨ss, hmem, rfl⟩ := List.mem_map.mp hsize
    obtain ⟨s, hss⟩ := List.mem_iff_getElem?.mp hmem
    exact (hfresh s ss hss).2.1
  · obtain ⟨s, hs, hlt⟩ := ConsistentHashRing.getShard_lt hring vectorId
    have hss := List.getElem?_eq_getElem (hlength.symm ▸ hlt)
    exact ⟨s, _, ⟨hs, hss⟩, hfresh s _ hss⟩

/-- A service with neither authentication nor rate limit. -/
def openService {dim : UInt32} (m : ShardManager dim) : VectorDBService dim where
  shardMgr := m
  auth := { tokens := [], disabled := true }
  rateLimiter := {
    capacity := 0
    refillPerSec := 0
    disabled := true
    buckets := fun _ => none }

def someone : ServerContext where
  authorization := none
  peer := "ipv4:127.0.0.1:50051"
  now := 0

def oneRequest : InsertRequest where
  vectorId := 7
  vector := [1, 0, 0, 0]

theorem openService_gate {dim : UInt32} (m : ShardManager dim) :
    (openService m).gate someone = (.ok, openService m) := by
  simp [gate, openService, AuthMiddleware.check, RateLimiter.check,
    Status.isOk, Status.ok]

theorem append_created (vectorId : UInt64) (vec : Vec oneShard.Dim) :
    ∃ lsn wal, (WAL.append OS.reliable vectorId vec).run
      (WAL.created oneShard.Dim 1000) = .ok lsn wal := by
  have hfits : WAL.entryPtr oneShard.Dim
      ((WAL.created oneShard.Dim 1000).nextLsn + 1) ≤
      (WAL.created oneShard.Dim 1000).mapSize := by
    change WAL.entryPtr oneShard.Dim 1 ≤ WAL.initialSize
    decide
  have hreserve : (WAL.reserve OS.reliable).run
      (WAL.created oneShard.Dim 1000) =
      .ok () (WAL.reserved (WAL.created oneShard.Dim 1000)) := by
    rw [WAL.reserved_of_fits hfits]
    exact WAL.reserve_of_fits hfits
  exact ⟨_, _, (WAL.created_holds oneShard.Dim 1000).append_run hreserve
    (by rwa [WAL.reserved_of_fits hfits]) vectorId vec⟩

/-- The adjacency store runs out of memory on a fresh store. -/
theorem oneShard_out_of_memory {m : ShardManager oneShard.Dim}
    {rngs : ℕ → ℕ → ℕ}
    (hstart : oneShard.start OS.reliable rngs (fun _ => ShardState.noFiles) =
      .ok m) (vectorId : UInt64) (vec : Vec oneShard.Dim)
    (memory : ℕ → Bool) (hmemory : memory 0 = false) :
    m.LogAccepts OS.reliable vectorId ∧ ∃ s,
      (ShardManager.tryInsert OS.reliable oneShard.rt vectorId vec).run
        ⟨m, memory⟩ = .error .badAlloc s ∧ s.obj.totalVectors = 1 := by
  obtain ⟨htotal, shardId, ss, howns, hwal, hsize, hlists⟩ :=
    start_owns hstart vectorId
  have hnextId : ss.index.nextId = 0 := hsize
  obtain ⟨lsn, wal, happend⟩ := append_created vectorId vec
  rw [← hwal] at happend
  have hlog : m.LogAccepts OS.reliable vectorId :=
    ⟨shardId, ss, howns, WAL.hasRoom_of_append happend⟩
  obtain ⟨t, hinsert, _⟩ := HNSWIndex.tryInsert_out_of_memory oneShard.rt
    (Vec.zero oneShard.Dim) vec (s := ⟨ss.index, memory⟩)
    (hnextId.trans_lt (by decide)) (by rw [hlists]; exact Nat.zero_le _)
    hmemory
  have hshard : (ShardState.tryInsert OS.reliable oneShard.rt vectorId vec).run
      ⟨ss, memory⟩ = .error .badAlloc
        ⟨{ ss with wal := wal, index := t.obj }, t.memory⟩ := by
    rw [ShardState.tryInsert_of_append happend, ShardState.onIndex,
      onPart_run, hinsert]
  have hid := HNSWIndex.after_tryInsert oneShard.rt (Vec.zero oneShard.Dim)
    vec ⟨ss.index, memory⟩
  rw [after_of_error hinsert] at hid
  have hentered : ss.Entered { ss with wal := wal, index := t.obj } :=
    ⟨rfl, hid⟩
  have hcount := ShardManager.totalVectors_entered howns.2 hentered
  rw [hsize, htotal] at hcount
  exact ⟨hlog, _, ShardManager.tryInsert_of_owns howns hshard, hcount⟩

/-- The call throws, and a vector more is counted; the bulk insert of the same
message reports that it failed. -/
theorem failed_insert_counts :
    ∃ m s s', oneShard.start OS.reliable (fun _ i => i)
        (fun _ => ShardState.noFiles) = .ok m ∧ oneShard.Reaches m ∧
      (ShardManager.tryInsert OS.reliable oneShard.rt 7
        (Vec.ofBytes _ [1, 0, 0, 0])).run ⟨m, fun _ => false⟩ =
        .error .badAlloc s ∧
      m.totalVectors = 0 ∧ s.obj.totalVectors = 1 ∧
      ¬ oneShard.NoTrace m s.obj ∧
      (bulkInsert oneShard.rt someone [(OS.reliable, oneRequest)]).run
        ⟨openService m, fun i => decide (i = 0)⟩ =
        .ok (.ok, { inserted := 0, failed := 1 }) s' ∧
      s'.obj.shardMgr.totalVectors = 1 := by
  obtain ⟨m, hstart⟩ := oneShard_start fun _ i => i
  have htotal := (start_owns hstart 7).1
  obtain ⟨hlog, s, hrun, hone⟩ := oneShard_out_of_memory hstart 7
    (Vec.ofBytes _ [1, 0, 0, 0]) (fun _ => false) rfl
  obtain ⟨_, t, hsecond, hbulk⟩ := oneShard_out_of_memory hstart 7
    (Vec.ofBytes _ [1, 0, 0, 0]) (fun i => decide (i + 1 = 0)) rfl
  have hreach : oneShard.Reaches m := .start hstart
  have hthrown : Failure.badAlloc.Thrown := by decide
  have hgate : (openService m).gate someone = (.ok, openService m) :=
    openService_gate m
  have hloop : (bulkLoop oneShard.rt [(OS.reliable, oneRequest)]
      noCounts).run ⟨m, fun i => decide (i = 0)⟩ =
      .ok { inserted := 0, failed := 1 } t := by
    have hcaught : (caught (fun e : Failure => ¬ e.Thrown)
        (ShardManager.tryInsert OS.reliable oneShard.rt 7
          (Vec.ofBytes _ [1, 0, 0, 0]))).run
        ⟨m, fun i => decide (i + 1 = 0)⟩ = .ok none t :=
      caught_eq_none.mpr ⟨_, hsecond, not_not.mpr hthrown⟩
    have hmessage : (bulkMessage oneShard.rt OS.reliable oneRequest
        noCounts).run ⟨m, fun i => decide (i = 0)⟩ =
        .ok { inserted := 0, failed := 1 } t :=
      bind_eq_ok.mpr ⟨(), _, rfl, bind_eq_ok.mpr ⟨_, _, hcaught, rfl⟩⟩
    change (bulkLoop oneShard.rt ([] ++ [(OS.reliable, oneRequest)])
      noCounts).run _ = _
    exact bulkLoop_snoc_eq_ok.mpr ⟨noCounts, _, rfl, hmessage⟩
  refine ⟨m, s, _, hstart, hreach, hrun, htotal, hone, ?_,
    (bulkInsert_eq_ok (by rw [hgate]; rfl)).mpr ⟨t, hloop, rfl, rfl⟩, hbulk⟩
  rw [hreach.noTrace_iff hrun hthrown]
  exact not_not.mpr hlog

/-! ## A store whose disk is full -/

/-- No entry fits the first mapping. -/
def wideShard : Deployment ℕ where
  cfg := { HNSWIndex.smallConfig with dim := 1100000 }
  shardCount := 1
  dataDir := "data"
  virtualNodes := 1
  sorter := Sorter.insertion _
  rt := wordLine _

theorem wideShard_start (rngs : ℕ → ℕ → ℕ) :
    ∃ m, wideShard.start OS.reliable rngs (fun _ => ShardState.noFiles) =
      .ok m := by
  apply start_fresh_ok
  · exact {
      dim := by decide
      M := by decide
      efConstruction := by decide
      maxLayers := by decide }
  · decide
  · decide
  · decide

theorem wideShard_full {m : ShardManager wideShard.Dim} {rngs : ℕ → ℕ → ℕ}
    (hstart : wideShard.start OS.reliable rngs (fun _ => ShardState.noFiles) =
      .ok m) (vectorId : UInt64) (vec : Vec wideShard.Dim)
    (memory : ℕ → Bool) :
    ¬ m.LogAccepts WAL.fullDisk vectorId ∧ ∃ s,
      (ShardManager.tryInsert WAL.fullDisk wideShard.rt vectorId vec).run
        ⟨m, memory⟩ =
        .error (.runtimeError "WAL: ftruncate failed") s := by
  obtain ⟨_, shardId, ss, howns, hwal, _⟩ := start_owns hstart vectorId
  have hneeded : (WAL.created wideShard.Dim 1000).mapSize <
      WAL.entryPtr wideShard.Dim
        ((WAL.created wideShard.Dim 1000).nextLsn + 1) := by
    change WAL.initialSize < WAL.entryPtr wideShard.Dim 1
    decide
  have hfull : WAL.fullDisk.ftruncate
      ((WAL.created wideShard.Dim 1000).mapSize + WAL.growSize) = false := by
    change WAL.fullDisk.ftruncate (WAL.initialSize + WAL.growSize) = false
    decide
  rw [← hwal] at hneeded hfull
  have happend := WAL.append_of_full hneeded hfull vectorId vec
  refine ⟨?_, _, ShardManager.tryInsert_of_owns howns
    (ShardState.tryInsert_of_append_error happend)⟩
  rintro ⟨other, ss', howns', hroom⟩
  rw [howns.unique howns'] at hroom
  rw [(hroom hneeded).1] at hfull
  cases hfull

/-- A failed insert and a bulk insert on a full disk. -/
theorem failed_insert_traces_wideShard :
    ∃ m s, wideShard.start OS.reliable (fun _ i => i)
        (fun _ => ShardState.noFiles) = .ok m ∧
      (ShardManager.tryInsert WAL.fullDisk wideShard.rt 7
        (Vec.zero _)).run ⟨m, ample⟩ =
        .error (.runtimeError "WAL: ftruncate failed") s ∧
      wideShard.NoTrace m s.obj ∧
      ∀ before after out s,
        [(WAL.fullDisk, (⟨7, (Vec.zero wideShard.Dim).bytes⟩ :
          InsertRequest))] = before ++ after →
        (bulkInsert wideShard.rt someone before).run
          ⟨openService m, ample⟩ = .ok out s →
        Reported m s.obj.shardMgr
          (messagesRead someone (openService m) before) out.2 := by
  obtain ⟨m, hstart⟩ := wideShard_start fun _ i => i
  obtain ⟨hlog, s, hrun⟩ := wideShard_full hstart 7 (Vec.zero _) ample
  refine ⟨m, s, hstart, hrun,
    ((failed_insert_traces wideShard).1 m (.start hstart) _ _ _ _ _ _ hrun
      (Failure.thrown_runtimeError _)).mpr hlog,
    ((failed_insert_traces wideShard).2 (openService m) someone ample _).mpr
      ?_⟩
  intro _ before os req after resp s' hmsgs hbefore
  obtain rfl : before = [] := by
    have hlength := congrArg List.length hmsgs
    simp only [List.length_append, List.length_cons,
      List.length_nil] at hlength
    exact List.length_eq_zero_iff.mp (by omega)
  cases hmsgs
  cases hbefore
  intro vec s₁ _ hrequest
  cases hrequest
  obtain ⟨_, t, herr⟩ := wideShard_full hstart 7 vec ample
  refine ⟨fun out t' hok => ?_, fun e t' _ _ => hlog⟩
  have hsame := herr.symm.trans hok
  cases hsame

end Deployment

end VecDB
