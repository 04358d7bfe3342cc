import VecDB.HnswAllocation
import VecDB.ShardRuns
import VecDB.WalSealed
import Mathlib.Tactic

/-!
# Inserts that throw

`ShardManager::insert` as a call that keeps what it has changed when it
throws.  It changes the log first and the index second: a call that throws has
either failed in the append, and changed at most the log, or behind it, and
has an entry in the log and an id taken in the index.
-/

namespace VecDB

open StateRules Running

/-- What `vectors_.resize` fills the gap with. -/
def Vec.zero (dim : UInt32) : Vec dim where
  words := List.replicate dim.toNat 0
  length_eq := List.length_replicate

/-! ## The call -/

namespace ShardState

variable {dim : UInt32} {D α : Type} [Preorder D] [DecidableLT D]

def onWal (x : EStateM Failure (WAL dim) α) :
    EStateM Failure (Running (ShardState dim)) α :=
  onPart (fun s => s.obj.wal)
    (fun wal s => { s with obj := { s.obj with wal := wal } }) x

def onIndex (x : EStateM Failure (Running (HNSWIndex (Vec dim))) α) :
    EStateM Failure (Running (ShardState dim)) α :=
  onPart (fun s => ⟨s.obj.index, s.memory⟩)
    (fun t s => ⟨{ s.obj with index := t.obj }, t.memory⟩) x

def tryInsert (os : OS) (rt : Runtime (Vec dim) D) (vectorId : UInt64)
    (vec : Vec dim) : EStateM Failure (Running (ShardState dim)) ℕ := do
  let _ ← onWal (WAL.append os vectorId vec)
  onIndex (HNSWIndex.tryInsert rt (Vec.zero dim) vec)

end ShardState

namespace ShardManager

variable {dim : UInt32} {D α : Type} [Preorder D] [DecidableLT D]

def onShard (shardId : ℕ) (ss : ShardState dim)
    (x : EStateM Failure (Running (ShardState dim)) α) :
    EStateM Failure (Running (ShardManager dim)) α :=
  onPart (fun s => ⟨ss, s.memory⟩)
    (fun t s => ⟨{ s.obj with shards := s.obj.shards.set shardId t.obj },
      t.memory⟩) x

def getState (shardId : ℕ) (m : ShardManager dim) :
    Except Failure (ShardState dim) :=
  match m.shards[shardId]? with
  | some ss => .ok ss
  | none => .error .accessViolation

def tryInsert (os : OS) (rt : Runtime (Vec dim) D) (vectorId : UInt64)
    (vec : Vec dim) : EStateM Failure (Running (ShardManager dim)) (ℕ × ℕ) := do
  let shardId ← compute fun m => m.ring.getShard vectorId
  let ss ← compute fun m => m.getState shardId
  let nodeId ← onShard shardId ss (ShardState.tryInsert os rt vectorId vec)
  return (shardId, nodeId)

end ShardManager

/-! ## How it ends -/

namespace ShardState

variable {dim : UInt32} {D : Type} [Preorder D] [DecidableLT D] {os : OS}
  {rt : Runtime (Vec dim) D} {vectorId : UInt64} {vec : Vec dim}
  {ss : ShardState dim} {memory : ℕ → Bool} {s : Running (ShardState dim)}

/-- The log has taken the entry and the index an id. -/
structure Entered (ss ss' : ShardState dim) : Prop where
  eq : ss' = { ss with wal := ss'.wal, index := ss'.index }
  nextId : ss'.index.nextId = (ss.index.nextId + 1) % 2 ^ 32

theorem tryInsert_eq_ok {nodeId : ℕ}
    (hok : (tryInsert os rt vectorId vec).run ⟨ss, memory⟩ = .ok nodeId s) :
    Entered ss s.obj ∧
      ∃ lsn, (WAL.append os vectorId vec).run ss.wal = .ok lsn s.obj.wal := by
  obtain ⟨lsn, s₁, hwal, hok⟩ := bind_eq_ok.mp hok
  obtain ⟨wal, happend, rfl⟩ := onPart_eq_ok.mp hwal
  obtain ⟨t, hinsert, rfl⟩ := onPart_eq_ok.mp hok
  have hid := HNSWIndex.after_tryInsert rt (Vec.zero dim) vec
    ⟨ss.index, memory⟩
  rw [after_of_ok hinsert] at hid
  exact ⟨⟨rfl, hid⟩, lsn, happend⟩

theorem tryInsert_eq_error {e : Failure}
    (herr : (tryInsert os rt vectorId vec).run ⟨ss, memory⟩ = .error e s) :
    (∃ wal, (WAL.append os vectorId vec).run ss.wal = .error e wal ∧
        s.obj = { ss with wal := wal }) ∨
      (Entered ss s.obj ∧
        ∃ lsn, (WAL.append os vectorId vec).run ss.wal =
          .ok lsn s.obj.wal) := by
  rcases bind_eq_error.mp herr with hwal | ⟨lsn, s₁, hwal, hindex⟩
  · obtain ⟨wal, happend, rfl⟩ := onPart_eq_error.mp hwal
    exact Or.inl ⟨wal, happend, rfl⟩
  · obtain ⟨wal, happend, rfl⟩ := onPart_eq_ok.mp hwal
    obtain ⟨t, hinsert, rfl⟩ := onPart_eq_error.mp hindex
    have hid := HNSWIndex.after_tryInsert rt (Vec.zero dim) vec
      ⟨ss.index, memory⟩
    rw [after_of_error hinsert] at hid
    exact Or.inr ⟨⟨rfl, hid⟩, lsn, happend⟩

theorem tryInsert_of_append_error {e : Failure} {wal : WAL dim}
    (happend : (WAL.append os vectorId vec).run ss.wal = .error e wal) :
    (tryInsert os rt vectorId vec).run ⟨ss, memory⟩ =
      .error e ⟨{ ss with wal := wal }, memory⟩ := by
  apply bind_of_error
  rw [onWal, onPart_run, happend]

theorem tryInsert_of_append {lsn : ℕ} {wal : WAL dim}
    (happend : (WAL.append os vectorId vec).run ss.wal = .ok lsn wal) :
    (tryInsert os rt vectorId vec).run ⟨ss, memory⟩ =
      (onIndex (HNSWIndex.tryInsert rt (Vec.zero dim) vec)).run
        ⟨{ ss with wal := wal }, memory⟩ := by
  apply bind_of_ok (a := lsn)
  rw [onWal, onPart_run, happend]

/-- With enough memory the call is the insert of the model. -/
theorem tryInsert_ample (vectorId : UInt64) (vec : Vec dim)
    (hvectors : ss.index.nextId ≤ ss.index.vectors.length) :
    Agrees (tryInsert os rt vectorId vec) ss
      (ss.insert os rt vectorId vec) := by
  unfold insert
  cases happend : (WAL.append os vectorId vec).run ss.wal with
  | error e wal => exact ⟨_, tryInsert_of_append_error happend⟩
  | ok lsn wal =>
      have hagrees := HNSWIndex.tryInsert_agrees rt (Vec.zero dim) vec hvectors
      have hrun : (tryInsert os rt vectorId vec).run ⟨ss, ample⟩ = _ :=
        tryInsert_of_append happend
      rw [onIndex, onPart_run] at hrun
      dsimp only
      cases hinsert : ss.index.insert rt vec with
      | error e =>
          rw [hinsert] at hagrees
          obtain ⟨t, ht⟩ := hagrees
          rw [ht] at hrun
          exact ⟨_, hrun⟩
      | ok out =>
          rw [hinsert] at hagrees
          rw [show (HNSWIndex.tryInsert rt (Vec.zero dim) vec).run
            ⟨ss.index, ample⟩ = .ok out.1 ⟨out.2, ample⟩ from hagrees] at hrun
          exact hrun

end ShardState

namespace ShardManager

variable {dim : UInt32} {D : Type} [Preorder D] [DecidableLT D] {os : OS}
  {rt : Runtime (Vec dim) D} {vectorId : UInt64} {vec : Vec dim}
  {m : ShardManager dim} {memory : ℕ → Bool} {s : Running (ShardManager dim)}

theorem getState_eq_ok {shardId : ℕ} {ss : ShardState dim} :
    m.getState shardId = .ok ss ↔ m.shards[shardId]? = some ss := by
  unfold getState
  cases m.shards[shardId]? with
  | none => simp
  | some st => simp

/-- The shard that owns `vectorId`. -/
def Owns (vectorId : UInt64) (m : ShardManager dim) (shardId : ℕ)
    (ss : ShardState dim) : Prop :=
  m.ring.getShard vectorId = .ok shardId ∧ m.shards[shardId]? = some ss

theorem Owns.unique {shardId shardId' : ℕ} {ss ss' : ShardState dim}
    (h : m.Owns vectorId shardId ss) (h' : m.Owns vectorId shardId' ss') :
    ss' = ss := by
  have hid : (Except.ok shardId' : Except Failure ℕ) = .ok shardId :=
    h'.1.symm.trans h.1
  cases hid
  exact Option.some.inj (h'.2.symm.trans h.2)

theorem tryInsert_eq_ok {out : ℕ × ℕ}
    (hok : (tryInsert os rt vectorId vec).run ⟨m, memory⟩ = .ok out s) :
    ∃ ss t, m.Owns vectorId out.1 ss ∧
      (ShardState.tryInsert os rt vectorId vec).run ⟨ss, memory⟩ =
        .ok out.2 t ∧
      s = ⟨{ m with shards := m.shards.set out.1 t.obj }, t.memory⟩ := by
  obtain ⟨shardId, s₁, hring, hrest⟩ := bind_eq_ok.mp hok
  obtain ⟨hget, rfl⟩ := compute_eq_ok.mp hring
  obtain ⟨ss, s₂, hstate, hlast⟩ := bind_eq_ok.mp hrest
  obtain ⟨hshard, rfl⟩ := compute_eq_ok.mp hstate
  obtain ⟨nodeId, s₃, hcall, hreturn⟩ := bind_eq_ok.mp hlast
  obtain ⟨t, hinsert, rfl⟩ := onPart_eq_ok.mp hcall
  cases hreturn
  exact ⟨ss, t, ⟨hget, getState_eq_ok.mp hshard⟩, hinsert, rfl⟩

theorem tryInsert_eq_error {e : Failure}
    (herr : (tryInsert os rt vectorId vec).run ⟨m, memory⟩ = .error e s) :
    ((∀ shardId ss, ¬ m.Owns vectorId shardId ss) ∧ s = ⟨m, memory⟩) ∨
      ∃ shardId ss t, m.Owns vectorId shardId ss ∧
        (ShardState.tryInsert os rt vectorId vec).run ⟨ss, memory⟩ =
          .error e t ∧
        s = ⟨{ m with shards := m.shards.set shardId t.obj }, t.memory⟩ := by
  rcases bind_eq_error.mp herr with hring | ⟨shardId, s₁, hring, hrest⟩
  · obtain ⟨hget, rfl⟩ := compute_eq_error.mp hring
    refine Or.inl ⟨fun shardId ss howns => ?_, rfl⟩
    have hsame := hget.symm.trans howns.1
    cases hsame
  obtain ⟨hget, rfl⟩ := compute_eq_ok.mp hring
  rcases bind_eq_error.mp hrest with hstate | ⟨ss, s₂, hstate, hlast⟩
  · obtain ⟨hshard, rfl⟩ := compute_eq_error.mp hstate
    refine Or.inl ⟨fun other ss howns => ?_, rfl⟩
    have hsame : (Except.ok other : Except Failure ℕ) = .ok shardId :=
      howns.1.symm.trans hget
    cases hsame
    have hfound := hshard.symm.trans (getState_eq_ok.mpr howns.2)
    cases hfound
  obtain ⟨hshard, rfl⟩ := compute_eq_ok.mp hstate
  rcases bind_eq_error.mp hlast with hcall | ⟨nodeId, s₃, hcall, hreturn⟩
  · obtain ⟨t, hinsert, rfl⟩ := onPart_eq_error.mp hcall
    exact Or.inr ⟨shardId, ss, t, ⟨hget, getState_eq_ok.mp hshard⟩,
      hinsert, rfl⟩
  · cases hreturn

theorem tryInsert_of_owns {shardId : ℕ} {ss : ShardState dim}
    (howns : m.Owns vectorId shardId ss) {e : Failure}
    {t : Running (ShardState dim)}
    (herr : (ShardState.tryInsert os rt vectorId vec).run ⟨ss, memory⟩ =
      .error e t) :
    (tryInsert os rt vectorId vec).run ⟨m, memory⟩ = .error e
      ⟨{ m with shards := m.shards.set shardId t.obj }, t.memory⟩ := by
  have hring : (compute fun m : ShardManager dim =>
      m.ring.getShard vectorId).run ⟨m, memory⟩ = .ok shardId ⟨m, memory⟩ :=
    compute_eq_ok.mpr ⟨howns.1, rfl⟩
  have hstate : (compute fun m : ShardManager dim => m.getState shardId).run
      ⟨m, memory⟩ = .ok ss ⟨m, memory⟩ :=
    compute_eq_ok.mpr ⟨getState_eq_ok.mpr howns.2, rfl⟩
  unfold tryInsert
  rw [bind_of_ok hring, bind_of_ok hstate]
  apply bind_of_error
  rw [onShard, onPart_run, herr]

/-- With enough memory the call is the insert of the model. -/
theorem tryInsert_ample (vectorId : UInt64) (vec : Vec dim)
    (hvectors : ∀ ss ∈ m.shards,
      ss.index.nextId ≤ ss.index.vectors.length) :
    Agrees (tryInsert os rt vectorId vec) m (m.insert os rt vectorId vec) := by
  unfold insert tryInsert
  cases hring : m.ring.getShard vectorId with
  | error e => exact agrees_compute_error hring
  | ok shardId =>
      refine agrees_compute_bind hring ?_
      rw [except_bind_ok]
      cases hshard : m.shards[shardId]? with
      | none =>
          refine agrees_compute_error (e := .accessViolation) ?_
          unfold getState
          rw [hshard]
      | some ss =>
          refine agrees_compute_bind (getState_eq_ok.mpr hshard) ?_
          have hcall : Agrees (ShardState.tryInsert os rt vectorId vec) ss
              (ss.insert os rt vectorId vec) :=
            ShardState.tryInsert_ample vectorId vec
              (hvectors ss (List.mem_of_getElem? hshard))
          dsimp only
          cases hinsert : ss.insert os rt vectorId vec with
          | error e =>
              rw [hinsert] at hcall
              obtain ⟨s, hs⟩ := hcall
              exact ⟨_, bind_of_error (onPart_of_error hs)⟩
          | ok out =>
              rw [hinsert] at hcall
              have hrun : (onShard shardId ss
                  (ShardState.tryInsert os rt vectorId vec)).run ⟨m, ample⟩ =
                  .ok out.1 ⟨{ m with
                    shards := m.shards.set shardId out.2 }, ample⟩ := by
                rw [onShard, onPart_run, hcall]
              exact bind_of_ok hrun

end ShardManager

end VecDB
