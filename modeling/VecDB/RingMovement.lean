import VecDB.CircleSuccessor
import VecDB.ConsistentHash
import Mathlib.Tactic

/-!
# What a ring assigns

A key belongs to the circle successor of its hash among the virtual nodes.
Hence a further shard moves keys to itself only, and the ids whose bytes are
those of a virtual node belong to the shard of that node.
-/

namespace VecDB
namespace ConsistentHashRing

open LittleEndian

/-- `get_shard` for the bytes of a string key. -/
def getShardOfKey (r : ConsistentHashRing) (key : List UInt8) :
    Except Failure ℕ :=
  r.owner (hashKey key)

def position (vn : VNode) : ℕ := vn.hash.toNat

/-- No two virtual nodes are at one position. -/
def DistinctPositions (shardCount virtualNodes : ℕ) : Prop :=
  ((vnodes shardCount virtualNodes).map VNode.hash).Nodup

instance (shardCount virtualNodes : ℕ) :
    Decidable (DistinctPositions shardCount virtualNodes) :=
  inferInstanceAs (Decidable (List.Nodup _))

theorem mem_vnodes_iff {shardCount virtualNodes : ℕ} {vn : VNode} :
    vn ∈ vnodes shardCount virtualNodes ↔
      ∃ s < shardCount, ∃ v < virtualNodes, ⟨hashVnode s v, s⟩ = vn := by
  simp only [vnodes, List.mem_flatMap, List.mem_map, List.mem_range]

theorem vnodes_succ (shardCount virtualNodes : ℕ) :
    vnodes (shardCount + 1) virtualNodes =
      vnodes shardCount virtualNodes ++
        (List.range virtualNodes).map fun v =>
          ⟨hashVnode shardCount v, shardCount⟩ := by
  unfold vnodes
  rw [List.range_succ, List.flatMap_append, List.flatMap_singleton]

namespace DistinctPositions

variable {shardCount virtualNodes : ℕ}

theorem injOn (h : DistinctPositions shardCount virtualNodes) :
    Set.InjOn position {vn | vn ∈ vnodes shardCount virtualNodes} := by
  intro vn hvn vn' hvn' hposition
  exact List.inj_on_of_nodup_map h hvn hvn' (UInt64.toNat_inj.mp hposition)

theorem of_succ (h : DistinctPositions (shardCount + 1) virtualNodes) :
    DistinctPositions shardCount virtualNodes := by
  unfold DistinctPositions at h ⊢
  rw [vnodes_succ, List.map_append] at h
  exact (List.nodup_append.mp h).1

end DistinctPositions

/-! ## Owners -/

section Owner

variable {sorter : Sorter VNode} {shardCount virtualNodes : UInt32}
  {r : ConsistentHashRing}

theorem new_sorted (hnew : new sorter shardCount virtualNodes = .ok r) :
    r.ring.Pairwise fun a b => position a ≤ position b := by
  unfold new at hnew
  split_ifs at hnew
  cases hnew
  have hsorted := sorter.sorted _
    (vnodes shardCount.toNat virtualNodes.toNat)
    (StrictWeak.ofKey position)
  simp only [decide_eq_false_iff_not, not_lt] at hsorted
  exact hsorted

theorem owner_eq (r : ConsistentHashRing) (h : UInt64) :
    r.owner h =
      match Circle.successor position r.ring h.toNat with
      | some vn => .ok vn.shardId
      | none => .error .accessViolation := by
  have hfind : (r.ring.find? fun vn => !decide (position vn < h.toNat)) =
      r.ring.find? fun vn => !decide (vn.hash < h) := rfl
  unfold owner Circle.successor
  rw [hfind]
  cases r.ring.find? fun vn => !decide (vn.hash < h) with
  | some vn => rfl
  | none => rfl

theorem owner_spec (hnew : new sorter shardCount virtualNodes = .ok r)
    (h : UInt64) :
    ∃ vn, Circle.IsSuccessor position
        {vn | vn ∈ vnodes shardCount.toNat virtualNodes.toNat} h.toNat vn ∧
      r.owner h = .ok vn.shardId := by
  obtain ⟨_, _, hperm⟩ := new_eq_ok hnew
  obtain ⟨vn, hvn⟩ := Circle.successor_isSome position
    (ring_ne_nil hnew) h.toNat
  have hsuccessor := Circle.isSuccessor_of_sorted (new_sorted hnew) hvn
  have hpoints : {vn | vn ∈ r.ring} =
      {vn | vn ∈ vnodes shardCount.toNat virtualNodes.toNat} :=
    Set.ext fun _ => hperm.mem_iff
  rw [hpoints] at hsuccessor
  refine ⟨vn, hsuccessor, ?_⟩
  rw [owner_eq, hvn]

theorem owner_of_isSuccessor
    (hnew : new sorter shardCount virtualNodes = .ok r)
    (hdistinct : DistinctPositions shardCount.toNat virtualNodes.toNat)
    {h : UInt64} {vn : VNode}
    (hvn : Circle.IsSuccessor position
      {vn | vn ∈ vnodes shardCount.toNat virtualNodes.toNat} h.toNat vn) :
    r.owner h = .ok vn.shardId := by
  obtain ⟨vn', hvn', howner⟩ := owner_spec hnew h
  rw [howner, hvn'.unique hdistinct.injOn hvn]

theorem toNat_succ_of_new {sorter' : Sorter VNode} {r' : ConsistentHashRing}
    (hnew' : new sorter' (shardCount + 1) virtualNodes = .ok r') :
    (shardCount + 1).toNat = shardCount.toNat + 1 := by
  have hne := (new_eq_ok hnew').1
  have hlt := shardCount.toNat_lt
  have hpos : (shardCount + 1).toNat ≠ 0 :=
    fun hzero => hne (UInt32.toNat_inj.mp hzero)
  rw [UInt32.toNat_add] at hpos ⊢
  simp only [UInt32.toNat_one] at hpos ⊢
  omega

/-- A further shard leaves every position to its owner or takes it over. -/
theorem owner_of_more {sorter' : Sorter VNode} {r' : ConsistentHashRing}
    (hnew : new sorter shardCount virtualNodes = .ok r)
    (hnew' : new sorter' (shardCount + 1) virtualNodes = .ok r')
    (hdistinct :
      DistinctPositions (shardCount.toNat + 1) virtualNodes.toNat)
    (h : UInt64) :
    r'.owner h = r.owner h ∨ r'.owner h = .ok shardCount.toNat := by
  have hcount := toNat_succ_of_new hnew'
  obtain ⟨vn, hvn, howner⟩ := owner_spec hnew' h
  rw [hcount, vnodes_succ] at hvn
  rw [howner]
  obtain hold | hnew := List.mem_append.mp hvn.1
  · left
    have hsuccessor := hvn.of_subset
      (fun _ hmem => List.mem_append_left _ hmem) hold
    exact (owner_of_isSuccessor hnew hdistinct.of_succ hsuccessor).symm
  · right
    obtain ⟨v, _, rfl⟩ := List.mem_map.mp hnew
    rfl

/-- Consistent hashing moves keys to the new shard only. -/
theorem keys_move_to_new_shard {sorter' : Sorter VNode}
    {r' : ConsistentHashRing}
    (hnew : new sorter shardCount virtualNodes = .ok r)
    (hnew' : new sorter' (shardCount + 1) virtualNodes = .ok r')
    (hdistinct :
      DistinctPositions (shardCount.toNat + 1) virtualNodes.toNat) :
    (∀ vectorId, ∃ s s', r.getShard vectorId = .ok s ∧
      r'.getShard vectorId = .ok s' ∧ (s' = s ∨ s' = shardCount.toNat)) ∧
    ∀ key, ∃ s s', r.getShardOfKey key = .ok s ∧
      r'.getShardOfKey key = .ok s' ∧ (s' = s ∨ s' = shardCount.toNat) := by
  have hmove (h : UInt64) : ∃ s s', r.owner h = .ok s ∧
      r'.owner h = .ok s' ∧ (s' = s ∨ s' = shardCount.toNat) := by
    obtain ⟨vn, _, howner⟩ := owner_spec hnew h
    obtain ⟨vn', _, howner'⟩ := owner_spec hnew' h
    refine ⟨vn.shardId, vn'.shardId, howner, howner', ?_⟩
    have hmore := owner_of_more hnew hnew' hdistinct h
    simpa [howner, howner'] using hmore
  exact ⟨fun vectorId => hmove _, fun key => hmove _⟩

theorem new_ok (sorter : Sorter VNode) (hshards : shardCount ≠ 0)
    (hvnodes : virtualNodes ≠ 0) :
    ∃ r, new sorter shardCount virtualNodes = .ok r := by
  unfold new
  rw [if_neg hshards, if_neg hvnodes]
  exact ⟨_, rfl⟩

/-- A ring of one shard and one of two, with two virtual nodes each. -/
theorem exists_grown_ring :
    ∃ r r', new (Sorter.insertion _) 1 2 = .ok r ∧
      new (Sorter.insertion _) (1 + 1) 2 = .ok r' ∧
      DistinctPositions ((1 : UInt32).toNat + 1) (2 : UInt32).toNat := by
  have hvnodes : (2 : UInt32) ≠ 0 := by decide
  obtain ⟨r, hnew⟩ := new_ok (Sorter.insertion _)
    (show (1 : UInt32) ≠ 0 by decide) hvnodes
  obtain ⟨r', hnew'⟩ := new_ok (Sorter.insertion _)
    (show (1 + 1 : UInt32) ≠ 0 by decide) hvnodes
  exact ⟨r, r', hnew, hnew', by decide +kernel⟩

theorem keys_move_to_new_shard_two :
    ∃ r r', new (Sorter.insertion _) 1 2 = .ok r ∧
      new (Sorter.insertion _) (1 + 1) 2 = .ok r' ∧
      ∀ vectorId, ∃ s s', r.getShard vectorId = .ok s ∧
        r'.getShard vectorId = .ok s' ∧
        (s' = s ∨ s' = (1 : UInt32).toNat) := by
  obtain ⟨r, r', hnew, hnew', hdistinct⟩ := exists_grown_ring
  exact ⟨r, r', hnew, hnew',
    (keys_move_to_new_shard hnew hnew' hdistinct).1⟩

/-! ## Ids that look like virtual nodes -/

/-- The ids `(s << 32), ..., (s << 32) + virtualNodes - 1`. -/
def block (s virtualNodes : ℕ) : List UInt64 :=
  (List.range virtualNodes).map fun v =>
    (UInt64.ofNat s <<< 32) + UInt64.ofNat v

/-- The ids are not all routed to one shard. -/
def Spread (r : ConsistentHashRing) (ids : List UInt64) : Prop :=
  ¬ ∃ s, ∀ id ∈ ids, r.getShard id = .ok s

/-- The bytes of such an id are those that place a virtual node. -/
theorem hashKey_block {s v : ℕ} (hs : s < 2 ^ 32) (hv : v < 2 ^ 32) :
    hashKey (encode 8 ((UInt64.ofNat s <<< 32) + UInt64.ofNat v).toNat) =
      hashVnode s v := by
  have hs' : (UInt64.ofNat s).toNat = s := by
    rw [UInt64.toNat_ofNat', Nat.mod_eq_of_lt (by omega)]
  have hv' : (UInt64.ofNat v).toNat = v := by
    rw [UInt64.toNat_ofNat', Nat.mod_eq_of_lt (by omega)]
  have hshift : (UInt64.ofNat s <<< 32).toNat = s <<< 32 := by
    rw [UInt64.toNat_shiftLeft, hs']
    have hlt : s <<< 32 < 2 ^ 64 := by
      rw [Nat.shiftLeft_eq]
      omega
    exact Nat.mod_eq_of_lt hlt
  have hsum : (UInt64.ofNat s <<< 32) + UInt64.ofNat v =
      UInt64.ofNat s <<< 32 ||| UInt64.ofNat v := by
    apply UInt64.toNat_inj.mp
    rw [UInt64.toNat_add, UInt64.toNat_or, hshift, hv',
      ← Nat.shiftLeft_add_eq_or_of_lt hv, Nat.mod_eq_of_lt]
    rw [Nat.shiftLeft_eq]
    omega
  rw [hsum]
  rfl

theorem getShard_block (hnew : new sorter shardCount virtualNodes = .ok r)
    (hdistinct : DistinctPositions shardCount.toNat virtualNodes.toNat)
    {s : ℕ} (hs : s < shardCount.toNat) {id : UInt64}
    (hid : id ∈ block s virtualNodes.toNat) : r.getShard id = .ok s := by
  obtain ⟨v, hv, rfl⟩ := List.mem_map.mp hid
  rw [List.mem_range] at hv
  have hshards := shardCount.toNat_lt
  have hvnodes := virtualNodes.toNat_lt
  have hmem : (⟨hashVnode s v, s⟩ : VNode) ∈
      {vn | vn ∈ vnodes shardCount.toNat virtualNodes.toNat} :=
    mem_vnodes_iff.mpr ⟨s, hs, v, hv, rfl⟩
  unfold getShard
  rw [hashKey_block (by omega) (by omega)]
  exact owner_of_isSuccessor hnew hdistinct (Circle.isSuccessor_self hmem)

/-- No block is spread, the first ids included. -/
theorem block_not_spread
    (hnew : new sorter shardCount virtualNodes = .ok r)
    (hdistinct : DistinctPositions shardCount.toNat virtualNodes.toNat) :
    (∀ s < shardCount.toNat, ¬ Spread r (block s virtualNodes.toNat)) ∧
      ¬ Spread r ((List.range virtualNodes.toNat).map UInt64.ofNat) := by
  have hall : ∀ s < shardCount.toNat,
      ¬ Spread r (block s virtualNodes.toNat) :=
    fun s hs hspread =>
      hspread ⟨s, fun id hid => getShard_block hnew hdistinct hs hid⟩
  have hfirst : block 0 virtualNodes.toNat =
      (List.range virtualNodes.toNat).map UInt64.ofNat := by
    unfold block
    apply List.map_congr_left
    intro v _
    exact UInt64.zero_add _
  have hshards : 0 < shardCount.toNat :=
    Nat.pos_of_ne_zero fun h => (new_eq_ok hnew).1 (UInt32.toNat_inj.mp h)
  rw [← hfirst]
  exact ⟨hall, hall 0 hshards⟩

theorem block_not_spread_two :
    ∃ r, new (Sorter.insertion _) 2 2 = .ok r ∧
      ∀ s < (2 : UInt32).toNat, ¬ Spread r (block s (2 : UInt32).toNat) := by
  have htwo : (2 : UInt32) ≠ 0 := by decide
  obtain ⟨r, hnew⟩ := new_ok (Sorter.insertion _) htwo htwo
  have hdistinct : DistinctPositions (2 : UInt32).toNat
      (2 : UInt32).toNat := by
    decide +kernel
  exact ⟨r, hnew, (block_not_spread hnew hdistinct).1⟩

/-- Of two shards with two virtual nodes, shard 0 owns the ids 0 and 1. -/
theorem first_ids_not_spread :
    ∃ r, new (Sorter.insertion _) 2 2 = .ok r ∧ DistinctPositions 2 2 ∧
      ¬ Spread r (block 0 2) ∧ block 0 2 = [0, 1] := by
  have htwo : (2 : UInt32) ≠ 0 := by decide
  obtain ⟨r, hnew⟩ := new_ok (Sorter.insertion _) htwo htwo
  have hdistinct : DistinctPositions 2 2 := by
    decide +kernel
  refine ⟨r, hnew, hdistinct, ?_, rfl⟩
  intro hspread
  apply hspread
  refine ⟨0, fun id hid => ?_⟩
  exact getShard_block hnew hdistinct (by decide) hid

end Owner

end ConsistentHashRing
end VecDB
