import VecDB.BulkInsert
import VecDB.HttpArrays
import VecDB.ShardRouting
import Mathlib.Tactic

/-!
# Inserts by HTTP

What a call of `handle_insert` runs: nothing where the body is refused, and
otherwise one insert of the vector under the id that it chose.
-/

namespace VecDB

open StateRules Running

/-! ## One call -/

namespace HttpApi

variable {dim : UInt32} {D : Type} [Preorder D] [DecidableLT D]
  {convert : List Char → Option UInt32} {os : OS} {rt : Runtime (Vec dim) D}
  {us : ℕ} {body : List Char} {s s' : Running (ShardManager dim)}
  {text : String} {vec : Vec dim} {out : ℕ × ℕ}

theorem handleInsert_refused
    (hread : readVector convert dim "vector" body = .error text) :
    (handleInsert convert os rt us body).run s = .ok text s := by
  unfold handleInsert
  rw [hread]
  rfl

theorem handleInsert_of_insert
    (hread : readVector convert dim "vector" body = .ok vec)
    (hinsert : (ShardManager.tryInsert os rt (insertId body s.obj).toUInt64
      vec).run s = .ok out s') :
    (handleInsert convert os rt us body).run s =
      .ok (insertText out.1 out.2 (insertId body s.obj) us
        s'.obj.totalVectors) s' := by
  unfold handleInsert
  rw [hread]
  dsimp only
  rw [bind_of_ok (compute_run _ _), bind_of_ok hinsert,
    bind_of_ok (compute_run _ _)]
  rfl

theorem handleInsert_of_insert_error {e : Failure}
    (hread : readVector convert dim "vector" body = .ok vec)
    (hinsert : (ShardManager.tryInsert os rt (insertId body s.obj).toUInt64
      vec).run s = .error e s') :
    (handleInsert convert os rt us body).run s = .error e s' := by
  unfold handleInsert
  rw [hread]
  dsimp only
  rw [bind_of_ok (compute_run _ _), bind_of_error hinsert]

theorem handleInsert_eq_ok
    (hread : readVector convert dim "vector" body = .ok vec)
    (hok : (handleInsert convert os rt us body).run s = .ok text s') :
    ∃ out, (ShardManager.tryInsert os rt (insertId body s.obj).toUInt64
        vec).run s = .ok out s' ∧
      text = insertText out.1 out.2 (insertId body s.obj) us
        s'.obj.totalVectors := by
  cases hinsert : (ShardManager.tryInsert os rt
      (insertId body s.obj).toUInt64 vec).run s with
  | ok out t =>
      rw [handleInsert_of_insert hread hinsert] at hok
      cases hok
      exact ⟨out, rfl, rfl⟩
  | error e t =>
      rw [handleInsert_of_insert_error hread hinsert] at hok
      cases hok

end HttpApi

/-! ## Inserts that the system grants -/

namespace Deployment

variable {D : Type} [Preorder D] [DecidableLT D] {dep : Deployment D}
  {ring : ConsistentHashRing} {states : ℕ → Stored dep.Dim}
  {m : ShardManager dep.Dim}

theorem Refines.vectors_le (h : Refines dep ring states m) :
    ∀ ss ∈ m.shards, ss.index.nextId ≤ ss.index.vectors.length := by
  intro ss hss
  obtain ⟨s, hs⟩ := List.mem_iff_getElem?.mp hss
  have hindex := (h.shard s ss hs).1.index
  have hsize := hindex.size_eq
  rw [← hindex.vectors_eq] at hsize
  exact hsize.le

theorem Refines.tryInsert_ok (h : Refines dep ring states m)
    (hentry : WAL.entrySize dep.Dim ≤ WAL.growSize) {vectorId : UInt64}
    {s : ℕ} (hs : ring.getShard vectorId = .ok s)
    (hlog : (states s).log.length < 2 ^ 33)
    (hroom : HNSWIndex.Storable dep.cfg ((states s).live.length + 1))
    (vec : Vec dep.Dim) :
    ∃ m', (ShardManager.tryInsert OS.reliable dep.rt vectorId vec).run
        ⟨m, ample⟩ = .ok (s, (states s).live.length) ⟨m', ample⟩ ∧
      Refines dep ring (fun t => LoggedStore.serve 1000 Prod.snd
        (request ring t (.insert vectorId vec)).toList (states t)) m' := by
  obtain ⟨m', hinsert⟩ := h.insert_ok hentry hs hlog hroom vec
  have hagrees : Agrees (ShardManager.tryInsert OS.reliable dep.rt vectorId
      vec) m (m.insert OS.reliable dep.rt vectorId vec) :=
    ShardManager.tryInsert_ample vectorId vec h.vectors_le
  rw [hinsert] at hagrees
  exact ⟨m', hagrees, (h.insert_eq_ok hinsert).2.2⟩

end Deployment
end VecDB
