import VecDB.LittleEndian
import VecDB.Platform
import VecDB.PriorityQueue
import Mathlib.Tactic

/-!
# The hash ring

The `ConsistentHashRing` class.  `std::sort` leaves the order of equal hashes
open, so the ring is built with some sorter.
-/

namespace VecDB

open LittleEndian

structure VNode where
  hash : UInt64
  shardId : ℕ
  deriving DecidableEq, Repr

structure ConsistentHashRing where
  shardCount : UInt32
  virtualNodes : UInt32
  ring : List VNode

namespace ConsistentHashRing

def fnvOffset : UInt64 := 14695981039346656037
def fnvPrime : UInt64 := 1099511628211

/-- FNV-1a. -/
def hashKey (data : List UInt8) : UInt64 :=
  data.foldl (fun h p => (h ^^^ p.toUInt64) * fnvPrime) fnvOffset

def hashVnode (shardId vnodeIdx : ℕ) : UInt64 :=
  let key := UInt64.ofNat shardId <<< 32 ||| UInt64.ofNat vnodeIdx
  hashKey (encode 8 key.toNat)

def vnodes (shardCount virtualNodes : ℕ) : List VNode :=
  (List.range shardCount).flatMap fun s =>
    (List.range virtualNodes).map fun v => ⟨hashVnode s v, s⟩

/-- The constructor. -/
def new (sorter : Sorter VNode) (shardCount virtualNodes : UInt32) :
    Except Failure ConsistentHashRing :=
  if shardCount = 0 then
    .error (.invalidArgument "ConsistentHashRing: shard_count must be > 0")
  else if virtualNodes = 0 then
    .error (.invalidArgument "ConsistentHashRing: virtual_nodes must be > 0")
  else .ok {
    shardCount := shardCount
    virtualNodes := virtualNodes
    ring := sorter.sort (fun a b => decide (a.hash < b.hash))
      (vnodes shardCount.toNat virtualNodes.toNat) }

/-- `std::lower_bound` on the ring, and the wrap around. -/
def owner (r : ConsistentHashRing) (h : UInt64) : Except Failure ℕ :=
  match r.ring.find? fun vn => !decide (vn.hash < h) with
  | some vn => .ok vn.shardId
  | none =>
      match r.ring.head? with
      | some vn => .ok vn.shardId
      | none => .error .accessViolation

def getShard (r : ConsistentHashRing) (vectorId : UInt64) :
    Except Failure ℕ :=
  r.owner (hashKey (encode 8 vectorId.toNat))

theorem new_eq_ok {sorter : Sorter VNode} {shardCount virtualNodes : UInt32}
    {r : ConsistentHashRing}
    (hnew : new sorter shardCount virtualNodes = .ok r) :
    shardCount ≠ 0 ∧ virtualNodes ≠ 0 ∧
      r.ring.Perm (vnodes shardCount.toNat virtualNodes.toNat) := by
  unfold new at hnew
  split_ifs at hnew with hshards hvnodes
  cases hnew
  exact ⟨hshards, hvnodes, sorter.perm _ _⟩

theorem mem_vnodes {shardCount virtualNodes : ℕ} {vn : VNode}
    (hvn : vn ∈ vnodes shardCount virtualNodes) : vn.shardId < shardCount := by
  obtain ⟨s, hs, hvn⟩ := List.mem_flatMap.mp hvn
  obtain ⟨v, _, rfl⟩ := List.mem_map.mp hvn
  exact List.mem_range.mp hs

theorem ring_ne_nil {sorter : Sorter VNode}
    {shardCount virtualNodes : UInt32} {r : ConsistentHashRing}
    (hnew : new sorter shardCount virtualNodes = .ok r) : r.ring ≠ [] := by
  obtain ⟨hshards, hvnodes, hperm⟩ := new_eq_ok hnew
  have hshards' : 0 < shardCount.toNat :=
    Nat.pos_of_ne_zero fun h => hshards (UInt32.toNat_inj.mp h)
  have hvnodes' : 0 < virtualNodes.toNat :=
    Nat.pos_of_ne_zero fun h => hvnodes (UInt32.toNat_inj.mp h)
  have hfirst : (⟨hashVnode 0 0, 0⟩ : VNode) ∈
      vnodes shardCount.toNat virtualNodes.toNat :=
    List.mem_flatMap.mpr ⟨0, List.mem_range.mpr hshards',
      List.mem_map.mpr ⟨0, List.mem_range.mpr hvnodes', rfl⟩⟩
  exact List.ne_nil_of_mem (hperm.mem_iff.mpr hfirst)

theorem getShard_lt {sorter : Sorter VNode} {shardCount virtualNodes : UInt32}
    {r : ConsistentHashRing}
    (hnew : new sorter shardCount virtualNodes = .ok r) (vectorId : UInt64) :
    ∃ s, r.getShard vectorId = .ok s ∧ s < shardCount.toNat := by
  obtain ⟨_, _, hperm⟩ := new_eq_ok hnew
  have hmem : ∀ vn ∈ r.ring, vn.shardId < shardCount.toNat :=
    fun vn hvn => mem_vnodes (hperm.mem_iff.mp hvn)
  have hne := ring_ne_nil hnew
  unfold getShard owner
  cases hfind : r.ring.find? fun vn =>
      !decide (vn.hash < hashKey (encode 8 vectorId.toNat)) with
  | some vn => exact ⟨vn.shardId, rfl, hmem vn (List.mem_of_find?_eq_some hfind)⟩
  | none =>
      obtain ⟨vn, ring, hring⟩ := List.exists_cons_of_ne_nil hne
      refine ⟨vn.shardId, ?_, hmem vn (by simp [hring])⟩
      simp [hring]

end ConsistentHashRing

end VecDB
