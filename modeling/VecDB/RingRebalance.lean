import VecDB.RingMovement
import Mathlib.Tactic

/-!
# Rebalancing

The shards that lose keys to a further shard are the owners of the places where
its virtual nodes will stand.
-/

namespace VecDB
namespace ConsistentHashRing

open LittleEndian

def recordOwner (affected : List ℕ) (owner : ℕ) : List ℕ :=
  if affected.any fun id => id == owner then affected
  else affected ++ [owner]

/-- Who owns the positions of the next shard now. -/
def affectedShardsOnAdd (r : ConsistentHashRing) : Except Failure (List ℕ) :=
  (List.range r.virtualNodes.toNat).foldlM (fun affected v => do
    let owner ← r.owner (hashVnode r.shardCount.toNat v)
    return recordOwner affected owner) []

theorem mem_recordOwner {affected : List ℕ} {owner s : ℕ} :
    s ∈ recordOwner affected owner ↔ s ∈ affected ∨ s = owner := by
  unfold recordOwner
  split_ifs with hany
  · obtain ⟨id, hid, heq⟩ := List.any_eq_true.mp hany
    obtain rfl : id = owner := by simpa using heq
    constructor
    · exact Or.inl
    · rintro (hs | rfl)
      · exact hs
      · exact hid
  · simp

theorem nodup_recordOwner {affected : List ℕ} (owner : ℕ)
    (hnodup : affected.Nodup) : (recordOwner affected owner).Nodup := by
  unfold recordOwner
  split_ifs with hany
  · exact hnodup
  · rw [List.nodup_append]
    refine ⟨hnodup, List.nodup_singleton owner, ?_⟩
    rintro s hs _ hmem rfl
    obtain rfl := List.mem_singleton.mp hmem
    exact hany (List.any_eq_true.mpr ⟨s, hs, by simp⟩)

/-- A loop of lookups that all succeed records each owner once. -/
theorem recordOwners_spec (lookup : ℕ → Except Failure ℕ) (indices : List ℕ)
    (hok : ∀ v ∈ indices, ∃ owner, lookup v = .ok owner)
    (affected : List ℕ) (hnodup : affected.Nodup) :
    ∃ shards, indices.foldlM (fun affected v => do
        let owner ← lookup v
        return recordOwner affected owner) affected = .ok shards ∧
      shards.Nodup ∧
      ∀ s, s ∈ shards ↔ s ∈ affected ∨ ∃ v ∈ indices, lookup v = .ok s := by
  induction indices generalizing affected with
  | nil => exact ⟨affected, rfl, hnodup, by simp⟩
  | cons v indices ih =>
      obtain ⟨owner, howner⟩ := hok v (by simp)
      obtain ⟨shards, hfold, hnodup', hmem⟩ :=
        ih (fun v' hv' => hok v' (List.mem_cons_of_mem v hv'))
          (recordOwner affected owner) (nodup_recordOwner owner hnodup)
      refine ⟨shards, ?_, hnodup', ?_⟩
      · rw [List.foldlM_cons, howner]
        exact hfold
      · intro s
        rw [hmem, mem_recordOwner]
        have hhead : lookup v = .ok s ↔ s = owner := by
          rw [howner]
          constructor
          · intro heq
            cases heq
            rfl
          · rintro rfl
            rfl
        simp only [List.mem_cons, exists_eq_or_imp, hhead, or_assoc]

section Affected

variable {sorter sorter' : Sorter VNode} {shardCount virtualNodes : UInt32}
  {r r' : ConsistentHashRing}

theorem new_fields (hnew : new sorter shardCount virtualNodes = .ok r) :
    r.shardCount = shardCount ∧ r.virtualNodes = virtualNodes := by
  unfold new at hnew
  split_ifs at hnew
  cases hnew
  exact ⟨rfl, rfl⟩

/-- A key that moves is one that the owner of a new position gives away. -/
theorem owner_of_taken (hnew : new sorter shardCount virtualNodes = .ok r)
    (hnew' : new sorter' (shardCount + 1) virtualNodes = .ok r')
    (hdistinct :
      DistinctPositions (shardCount.toNat + 1) virtualNodes.toNat)
    {h : UInt64} (htaken : r'.owner h = .ok shardCount.toNat) :
    ∃ v < virtualNodes.toNat,
      r.owner (hashVnode shardCount.toNat v) = r.owner h := by
  have hcount := toNat_succ_of_new hnew'
  obtain ⟨vn', hvn', howner'⟩ := owner_spec hnew' h
  obtain ⟨vn, hvn, howner⟩ := owner_spec hnew h
  rw [htaken] at howner'
  rw [hcount] at hvn'
  obtain ⟨s, _, v, hv, rfl⟩ := mem_vnodes_iff.mp hvn'.1
  obtain rfl : shardCount.toNat = s := by simpa using howner'
  refine ⟨v, hv, ?_⟩
  have hsub : {vn | vn ∈ vnodes shardCount.toNat virtualNodes.toNat} ⊆
      {vn | vn ∈ vnodes (shardCount.toNat + 1) virtualNodes.toNat} := by
    intro vn hmem
    change vn ∈ vnodes (shardCount.toNat + 1) virtualNodes.toNat
    rw [vnodes_succ]
    exact List.mem_append_left _ hmem
  rw [howner]
  exact owner_of_isSuccessor hnew hdistinct.of_succ (hvn.of_added hsub hvn')

/-- The shards found are those that lose an id to the new shard. -/
theorem affectedShardsOnAdd_exact
    (hnew : new sorter shardCount virtualNodes = .ok r)
    (hnew' : new sorter' (shardCount + 1) virtualNodes = .ok r')
    (hdistinct :
      DistinctPositions (shardCount.toNat + 1) virtualNodes.toNat) :
    ∃ shards, r.affectedShardsOnAdd = .ok shards ∧ shards.Nodup ∧
      ∀ s, s ∈ shards ↔ ∃ vectorId, r.getShard vectorId = .ok s ∧
        r'.getShard vectorId = .ok shardCount.toNat := by
  obtain ⟨hshards, hvnodes⟩ := new_fields hnew
  have hok (v : ℕ) : ∃ owner, r.owner (hashVnode shardCount.toNat v) =
      .ok owner := by
    obtain ⟨vn, _, howner⟩ := owner_spec hnew (hashVnode shardCount.toNat v)
    exact ⟨vn.shardId, howner⟩
  obtain ⟨shards, hfold, hnodup, hmem⟩ := recordOwners_spec
    (fun v => r.owner (hashVnode shardCount.toNat v))
    (List.range virtualNodes.toNat) (fun v _ => hok v) [] List.nodup_nil
  refine ⟨shards, ?_, hnodup, ?_⟩
  · unfold affectedShardsOnAdd
    rw [hshards, hvnodes]
    exact hfold
  intro s
  rw [hmem]
  simp only [List.not_mem_nil, false_or, List.mem_range]
  constructor
  · rintro ⟨v, hv, howner⟩
    have hshards := shardCount.toNat_lt
    have hvnodes := virtualNodes.toNat_lt
    -- the id whose eight bytes are those of the virtual node
    refine ⟨(UInt64.ofNat shardCount.toNat <<< 32) + UInt64.ofNat v, ?_, ?_⟩
    · unfold getShard
      rw [hashKey_block (by omega) (by omega), howner]
    · have hcount := toNat_succ_of_new hnew'
      refine getShard_block hnew' (hcount ▸ hdistinct) (by omega) ?_
      exact List.mem_map.mpr ⟨v, List.mem_range.mpr hv, rfl⟩
  · rintro ⟨vectorId, hold, htaken⟩
    obtain ⟨v, hv, howner⟩ := owner_of_taken hnew hnew' hdistinct htaken
    exact ⟨v, hv, howner.trans hold⟩

theorem affectedShardsOnAdd_exact_one :
    ∃ r r', new (Sorter.insertion _) 1 2 = .ok r ∧
      new (Sorter.insertion _) (1 + 1) 2 = .ok r' ∧
      ∃ shards, r.affectedShardsOnAdd = .ok shards ∧ shards.Nodup ∧
        ∀ s, s ∈ shards ↔ ∃ vectorId, r.getShard vectorId = .ok s ∧
          r'.getShard vectorId = .ok (1 : UInt32).toNat := by
  obtain ⟨r, r', hnew, hnew', hdistinct⟩ := exists_grown_ring
  exact ⟨r, r', hnew, hnew', affectedShardsOnAdd_exact hnew hnew' hdistinct⟩

end Affected

end ConsistentHashRing
end VecDB
