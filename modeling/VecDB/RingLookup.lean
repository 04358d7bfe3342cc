import VecDB.LowerBound
import VecDB.RingMovement
import Mathlib.Tactic

/-!
# The lookup on the ring

`std::lower_bound` by binary search finds what the ring's `owner` finds, and
this is the virtual node that is nearest clockwise.
-/

namespace VecDB
namespace ConsistentHashRing

open LittleEndian

/-- The lookup with the binary search, by places in the ring. -/
def ownerAt (r : ConsistentHashRing) (h : UInt64) : Except Failure ℕ :=
  let it := BinarySearch.lowerBound (fun vn : VNode => decide (vn.hash < h))
    r.ring 0 r.ring.length
  let it := if it = r.ring.length then 0 else it
  match r.ring[it]? with
  | some vn => .ok vn.shardId
  | none => .error .accessViolation

section Lookup

variable {sorter : Sorter VNode} {shardCount virtualNodes : UInt32}
  {r : ConsistentHashRing}

theorem new_partitioned (hnew : new sorter shardCount virtualNodes = .ok r)
    (h : UInt64) :
    BinarySearch.Partitioned (fun vn : VNode => decide (vn.hash < h))
      r.ring := by
  refine (new_sorted hnew).imp ?_
  intro a b hab hb
  have hle : a.hash ≤ b.hash := UInt64.le_iff_toNat_le.mpr hab
  have hlt : b.hash < h := of_decide_eq_true hb
  exact decide_eq_true (UInt64.lt_of_le_of_lt hle hlt)

/-- The binary search ends at the first node that is not before `h`. -/
theorem ownerAt_eq (hnew : new sorter shardCount virtualNodes = .ok r)
    (h : UInt64) : r.ownerAt h = r.owner h := by
  have hfound := BinarySearch.getElem?_lowerBound (new_partitioned hnew h)
  have hle := BinarySearch.lowerBound_le
    (fun vn : VNode => decide (vn.hash < h)) r.ring 0 r.ring.length
  unfold ownerAt owner
  rw [← hfound]
  generalize BinarySearch.lowerBound (fun vn : VNode => decide (vn.hash < h))
    r.ring 0 r.ring.length = it at hfound hle ⊢
  cases hit : r.ring[it]? with
  | some vn =>
      have hlt := (List.getElem?_eq_some_iff.mp hit).1
      simp only [Nat.ne_of_lt hlt, if_false, hit]
  | none =>
      have hge := List.getElem?_eq_none_iff.mp hit
      have hend : it = r.ring.length := by omega
      have hhead : r.ring.head? = r.ring[0]? := List.head?_eq_getElem?
      cases hfirst : r.ring[0]? with
      | some vn => simp only [if_pos hend, hhead, hfirst]
      | none => simp only [if_pos hend, hhead, hfirst]

/-! ## The nearest node clockwise -/

/-- `s` owns a virtual node, and none is nearer to `h` clockwise. -/
def NearestClockwise (shardCount virtualNodes : ℕ) (h : UInt64) (s : ℕ) :
    Prop :=
  s < shardCount ∧ ∃ v < virtualNodes,
    ∀ s' < shardCount, ∀ v' < virtualNodes,
      hashVnode s v - h ≤ hashVnode s' v' - h

theorem owner_nearest (hnew : new sorter shardCount virtualNodes = .ok r)
    (h : UInt64) :
    ∃ s, r.owner h = .ok s ∧
      NearestClockwise shardCount.toNat virtualNodes.toNat h s := by
  obtain ⟨vn, hsuccessor, howner⟩ := owner_spec hnew h
  obtain ⟨s, hs, v, hv, rfl⟩ := mem_vnodes_iff.mp hsuccessor.1
  refine ⟨s, howner, hs, v, hv, ?_⟩
  intro s' hs' v' hv'
  have hmem : (⟨hashVnode s' v', s'⟩ : VNode) ∈
      {vn | vn ∈ vnodes shardCount.toNat virtualNodes.toNat} :=
    mem_vnodes_iff.mpr ⟨s', hs', v', hv', rfl⟩
  have hdistance := hsuccessor.distance_le
    (fun vn _ => vn.hash.toNat_lt) h.toNat_lt hmem
  rw [UInt64.le_iff_toNat_le, UInt64.toNat_sub, UInt64.toNat_sub]
  exact hdistance

/-- Ids and string keys go to the clockwise successor of their hash, an id and
the string of its eight bytes to the same shard. -/
theorem getShard_clockwise
    (hnew : new sorter shardCount virtualNodes = .ok r) :
    (∀ vectorId, ∃ s, r.getShard vectorId = .ok s ∧
      NearestClockwise shardCount.toNat virtualNodes.toNat
        (hashKey (encode 8 vectorId.toNat)) s) ∧
    (∀ key, ∃ s, r.getShardOfKey key = .ok s ∧
      NearestClockwise shardCount.toNat virtualNodes.toNat
        (hashKey key) s) ∧
    ∀ vectorId,
      r.getShardOfKey (encode 8 vectorId.toNat) = r.getShard vectorId :=
  ⟨fun _ => owner_nearest hnew _, fun _ => owner_nearest hnew _,
    fun _ => rfl⟩

theorem getShard_clockwise_two :
    ∃ r, new (Sorter.insertion _) 2 2 = .ok r ∧
      ∀ vectorId, ∃ s, r.getShard vectorId = .ok s ∧
        NearestClockwise 2 2 (hashKey (encode 8 vectorId.toNat)) s := by
  have htwo : (2 : UInt32) ≠ 0 := by decide
  obtain ⟨r, hnew⟩ := new_ok (Sorter.insertion _) htwo htwo
  exact ⟨r, hnew, (getShard_clockwise hnew).1⟩

end Lookup

end ConsistentHashRing
end VecDB
