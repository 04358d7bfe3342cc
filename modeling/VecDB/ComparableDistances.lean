import VecDB.HnswDistances
import VecDB.HttpArrays
import VecDB.ServerRuns
import VecDB.ShardRouting
import VecDB.SimdDistance
import Mathlib.Data.Prod.Lex
import Mathlib.Tactic

/-!
# Comparable distances

No handler looks at the floats it decodes.  As long as the components that it
accepts are finite, every vector that is stored is finite, the distances are
numbers, and the comparisons of the heaps and sorts order them.  A NaN is
accepted like any other component, and is stored.
-/

namespace VecDB

open Binary32 StateRules Running

/-! ## Comparisons -/

/-- A strict weak order on the elements that satisfy `S`. -/
def StrictWeakOn {α : Type} (S : α → Prop) (less : α → α → Bool) : Prop :=
  StrictWeak fun a b : { x // S x } => less a.1 b.1

theorem strictWeakOn_of_key {α β : Type} [LinearOrder β] {S : α → Prop}
    {less : α → α → Bool} (key : α → β)
    (hless : ∀ a b, S a → S b → less a b = decide (key a < key b)) :
    StrictWeakOn S less := by
  have hkey : (fun a b : { x // S x } => less a.1 b.1) =
      fun a b => decide (key a.1 < key b.1) := by
    funext a b
    exact hless a.1 b.1 a.2 b.2
  unfold StrictWeakOn
  rw [hkey]
  exact StrictWeak.ofKey fun a : { x // S x } => key a.1

/-- The comparisons of an index and of the merge order the distances that
satisfy `S`. -/
structure OrderedBy (S : Binary32 → Prop) : Prop where
  candidates : StrictWeakOn
    (fun r : HNSWSearchResult Binary32 => S r.dist)
    fun a b => decide (b.dist < a.dist)
  results : StrictWeakOn
    (fun r : HNSWSearchResult Binary32 => S r.dist)
    fun a b => decide (a.dist < b.dist)
  pairs : StrictWeakOn (fun p : Binary32 × ℕ => S p.1) HNSWIndex.pairLess
  merged : StrictWeakOn
    (fun r : HNSWSearchResult Binary32 => S r.dist) closerResult

theorem pairLess_eq {a b : Binary32 × ℕ} (ha : a.1 ≠ nan) (hb : b.1 ≠ nan) :
    HNSWIndex.pairLess a b =
      decide (toLex (place a.1, a.2) < toLex (place b.1, b.2)) := by
  unfold HNSWIndex.pairLess
  rw [Bool.eq_iff_iff, Bool.or_eq_true, Bool.and_eq_true, decide_eq_true_eq,
    decide_eq_true_eq, decide_eq_true_eq, Bool.not_eq_true',
    decide_eq_false_iff_not, Binary32.lt_iff ha hb, Binary32.lt_iff hb ha,
    Prod.Lex.toLex_lt_toLex]
  constructor
  · rintro (hlt | ⟨hle, hid⟩)
    · exact Or.inl hlt
    · rcases (not_lt.mp hle).lt_or_eq with hlt | heq
      · exact Or.inl hlt
      · exact Or.inr ⟨heq, hid⟩
  · rintro (hlt | ⟨heq, hid⟩)
    · exact Or.inl hlt
    · exact Or.inr ⟨heq.le.not_gt, hid⟩

theorem orderedBy_of_ne_nan {S : Binary32 → Prop} (hS : ∀ d, S d → d ≠ nan) :
    OrderedBy S := by
  have hresults : StrictWeakOn
      (fun r : HNSWSearchResult Binary32 => S r.dist)
      fun a b => decide (a.dist < b.dist) := by
    apply strictWeakOn_of_key fun r => place r.dist
    intro a b ha hb
    exact decide_eq_decide.mpr (Binary32.lt_iff (hS _ ha) (hS _ hb))
  refine ⟨StrictWeak.flip hresults, hresults, ?_, hresults⟩
  apply strictWeakOn_of_key fun p => toLex (place p.1, p.2)
  intro a b ha hb
  exact pairLess_eq (hS _ ha) (hS _ hb)

/-- Two numbers are not less than a NaN nor it than them, but one of them is
less than the other. -/
theorem not_orderedBy_of_nan {S : Binary32 → Prop} {p q : ℚ} (hnan : S nan)
    (hp : S (finite p)) (hq : S (finite q)) (hpq : p < q) :
    ¬ OrderedBy S := by
  intro h
  have hless := h.results.neg_trans ⟨⟨finite p, 0⟩, hp⟩ ⟨⟨nan, 0⟩, hnan⟩
    ⟨⟨finite q, 0⟩, hq⟩ rfl rfl
  exact of_decide_eq_false hless hpq

/-! ## Stores of finite vectors -/

theorem Vec.isFinite_zero (dim : UInt32) : (Vec.zero dim).IsFinite := by
  intro w hw
  rw [List.eq_of_mem_replicate hw]
  decide

/-- A store that starts has no vectors. -/
theorem Deployment.start_holds {D : Type} [Preorder D] [DecidableLT D]
    {dep : Deployment D} {os : OS} {rngs : ℕ → ℕ → ℕ} {disk : ℕ → ShardFiles}
    {m : ShardManager dep.Dim} (hstart : dep.start os rngs disk = .ok m)
    (P : Vec dep.Dim → Prop) : m.Holds P := by
  obtain ⟨_, _, _, _, _, hshard⟩ := start_eq_ok hstart
  intro ss hss vec hvec
  obtain ⟨s, hs⟩ := List.mem_iff_getElem?.mp hss
  obtain ⟨index, wal, hindex, _, rfl⟩ := ShardState.new_eq_ok.mp (hshard s ss hs)
  rw [(HNSWIndex.new_eq_ok hindex).2] at hvec
  cases hvec

/-- The first insert of a store. -/
theorem Deployment.insert_stored {D : Type} [Preorder D] [DecidableLT D]
    {dep : Deployment D} {rngs : ℕ → ℕ → ℕ} {m : ShardManager dep.Dim}
    (hentry : WAL.entrySize dep.Dim ≤ WAL.growSize)
    (hroom : HNSWIndex.Storable dep.cfg 1)
    (hstart : dep.start OS.reliable rngs (fun _ => ShardState.noFiles) =
      .ok m) (vectorId : UInt64) (vec : Vec dep.Dim) :
    (∀ ss ∈ m.shards, ss.index.nextId ≤ ss.index.vectors.length) ∧
      ∃ out m', m.insert OS.reliable dep.rt vectorId vec = .ok (out, m') ∧
        ∃ ss ∈ m'.shards, vec ∈ ss.index.vectors := by
  have hfresh := start_fresh hstart
  constructor
  · intro ss hss
    obtain ⟨s, hs⟩ := List.mem_iff_getElem?.mp hss
    have hindex := (hfresh.shard s ss hs).1.index
    have hsize := hindex.size_eq
    rw [← hindex.vectors_eq] at hsize
    exact hsize.le
  obtain ⟨s, hs, hlt⟩ := hfresh.getShard_lt vectorId
  obtain ⟨m', hinsert⟩ := hfresh.insert_ok hentry hs
    (by simp [LoggedStore.empty]) hroom vec
  obtain ⟨_, _, hnext⟩ := hfresh.insert_eq_ok hinsert
  obtain ⟨ss, hss⟩ := hnext.getElem? hlt
  refine ⟨_, m', hinsert, ss, List.mem_of_getElem? hss, ?_⟩
  rw [(hnext.shard s ss hss).1.index.vectors_eq]
  simp [request, hs, LoggedStore.empty, LoggedStore.add]

namespace ServerRuntime

variable {dim : UInt32}

/-- The handlers, with the kernel that the processor has. -/
def withKernel (lib : ServerRuntime dim Binary32) (isa : Simd.ISALevel) :
    ServerRuntime dim Binary32 :=
  { lib with rt := lib.rt.withKernel isa }

section Comparable

variable (lib : ServerRuntime dim Binary32) (calls : List ServerCall)
  (s : Running (VectorDBService dim))

/-- The vector is stored behind some of the calls. -/
def Stored (vec : Vec dim) : Prop :=
  ∃ before after, calls = before ++ after ∧
    ∃ ss ∈ (lib.serveAll before s).obj.shardMgr.shards, vec ∈ ss.index.vectors

/-- The vectors between which there are distances. -/
def Measured (vec : Vec dim) : Prop :=
  lib.Stored calls s vec ∨ vec ∈ lib.acceptedAll calls s

def Distance (d : Binary32) : Prop :=
  ∃ v w, lib.Measured calls s v ∧ lib.Measured calls s w ∧ d = lib.rt.l2sq v w

/-- The components are finite, and the comparisons of a search order all that
they are applied to. -/
structure Comparable : Prop where
  finite : ∀ vec, lib.Measured calls s vec → vec.IsFinite
  differences : ∀ v w, lib.Measured calls s v → lib.Measured calls s w →
    ∀ p ∈ Simd.pairs v w, Simd.diff p ≠ nan
  ordered : OrderedBy (lib.Distance calls s)
  searches : ∀ index query, HNSWIndex.AllVectors (lib.Measured calls s) index →
    lib.Measured calls s query →
      HNSWIndex.SearchesWithin lib.rt index query (lib.Distance calls s)
  merges : ∀ before after, calls = before ++ after →
    ∀ query topK ef throws, lib.Measured calls s query →
      ∀ m, m = (lib.serveAll before s).obj.shardMgr → ∀ ss ∈ m.shards,
        ∀ r ∈ contribution (m.searchTasks lib.rt query topK ef throws) ss,
          r.Holds (lib.Distance calls s)

end Comparable

variable {lib : ServerRuntime dim Binary32} {calls : List ServerCall}
  {s : Running (VectorDBService dim)}

theorem Measured.isFinite {vec : Vec dim} (hvec : lib.Measured calls s vec)
    (hstart : s.obj.Holds Vec.IsFinite)
    (haccepted : ∀ vec ∈ lib.acceptedAll calls s, vec.IsFinite) :
    vec.IsFinite := by
  rcases hvec with ⟨before, after, rfl, ss, hss, hvec⟩ | hvec
  · rw [acceptedAll_append, List.forall_mem_append] at haccepted
    exact lib.serveAll_holds hstart (Vec.isFinite_zero dim) haccepted.1 ss hss
      vec hvec
  · exact haccepted vec hvec

/-- Whatever the order of the calls and however they end, finite components
keep the distances comparable. -/
theorem accepted_finite_comparable (isa : Simd.ISALevel)
    (hstart : s.obj.Holds Vec.IsFinite)
    (haccepted : ∀ vec ∈ (lib.withKernel isa).acceptedAll calls s,
      vec.IsFinite) :
    (lib.withKernel isa).Comparable calls s := by
  refine ⟨fun vec hvec => hvec.isFinite hstart haccepted,
    fun v w hv hw => ?_, orderedBy_of_ne_nan ?_, fun index query hindex hquery =>
      ?_, ?_⟩
  · exact Simd.differ_pairs (hv.isFinite hstart haccepted)
      (hw.isFinite hstart haccepted)
  · rintro d ⟨v, w, hv, hw, rfl⟩
    have hdiffer := Simd.differ_pairs (hv.isFinite hstart haccepted)
      (hw.isFinite hstart haccepted)
    exact (Simd.nonneg_l2Sq isa hdiffer).ne_nan
  · exact HNSWIndex.Distances.searchesWithin fun vec hvec =>
      ⟨vec, query, hindex vec hvec, hquery, rfl⟩
  · rintro before after hcalls query topK ef throws hquery m rfl ss hss
    refine ShardManager.contribution_holds fun vec hvec => ?_
    exact ⟨vec, query, Or.inl ⟨before, after, hcalls, ss, hss, hvec⟩, hquery,
      rfl⟩

end ServerRuntime

/-! ## A store of floats -/

namespace Deployment

/-- One coordinate, with sorted lists for the heaps. -/
def floatLine (dim : UInt32) : Runtime (Vec dim) Binary32 where
  l2sq := fun a b => Simd.l2SqScalar (Simd.pairs a b)
  minHeap := PriorityQueue.sortedList _ _
  maxHeap := PriorityQueue.sortedList _ _
  sorter := Sorter.insertion _
  pairSorter := Sorter.insertion _

def floatShard : Deployment Binary32 where
  cfg := HNSWIndex.smallConfig
  shardCount := 1
  dataDir := "data"
  virtualNodes := 1
  sorter := Sorter.insertion _
  rt := floatLine _

def floatServer : ServerRuntime floatShard.Dim Binary32 where
  rt := floatLine _
  partialSorter := (Sorter.insertion _).front
  sqrt := id
  convert := HttpApi.digitFloat
  distanceText := fun _ => ""

theorem floatShard_start :
    ∃ m, floatShard.start OS.reliable (fun _ i => i)
      (fun _ => ShardState.noFiles) = .ok m := by
  apply start_fresh_ok
  · exact {
      dim := by decide
      M := by decide
      efConstruction := by decide
      maxLayers := by decide }
  · decide
  · decide
  · decide

/-- The bytes of `1.0f`. -/
def oneFloat : InsertRequest where
  vectorId := 7
  vector := [0x00, 0x00, 0x80, 0x3F]

def nanFloat : InsertRequest where
  vectorId := 7
  vector := [0x00, 0x00, 0xC0, 0x7F]

def oneQuery : List Char := "\x7b\"query\":[1]\x7d".toList

/-- A vector comes in by gRPC and a query by HTTP. -/
def insertAndSearch : List ServerCall :=
  [.insert someone OS.reliable oneFloat,
    .httpSearch (fun _ => false) 0 oneQuery]

theorem accepted_finite_comparable_insertAndSearch :
    ∃ m, floatShard.start OS.reliable (fun _ i => i)
        (fun _ => ShardState.noFiles) = .ok m ∧
      (floatServer.withKernel .avx2).Comparable insertAndSearch
        ⟨openService m, ample⟩ := by
  obtain ⟨m, hstart⟩ := floatShard_start
  refine ⟨m, hstart, ServerRuntime.accepted_finite_comparable .avx2
    (start_holds hstart _) ?_⟩
  have hvector : ∀ vec ∈ (floatServer.withKernel .avx2).accepted
      (openService m) (.insert someone OS.reliable oneFloat),
      vec.IsFinite := by
    rw [ServerRuntime.accepted, openService_gate,
      if_pos (by simp [Status.isOk, Status.ok])]
    decide
  have hquery : ∀ svc, ∀ vec ∈ (floatServer.withKernel .avx2).accepted svc
      (.httpSearch (fun _ => false) 0 oneQuery), vec.IsFinite := by
    intro svc
    rw [ServerRuntime.accepted]
    decide
  exact List.forall_mem_append.mpr ⟨hvector,
    List.forall_mem_append.mpr ⟨hquery _, List.forall_mem_nil _⟩⟩

def zeroQuery : List Char := "\x7b\"query\":[0]\x7d".toList

/-- A NaN comes in, and two queries. -/
def nanAndSearches : List ServerCall :=
  [.insert someone OS.reliable nanFloat,
    .httpSearch (fun _ => false) 0 oneQuery,
    .httpSearch (fun _ => false) 0 zeroQuery]

def nanVec : Vec floatShard.Dim := Vec.ofBytes _ nanFloat.vector

def oneVec : Vec floatShard.Dim := Vec.ofBytes _ oneFloat.vector

theorem nanAndSearches_accepted (m : ShardManager floatShard.Dim) :
    (floatServer.withKernel .scalar).acceptedAll nanAndSearches
      ⟨openService m, ample⟩ = [nanVec, oneVec, Vec.zero _] := by
  have hnan : (floatServer.withKernel .scalar).accepted (openService m)
      (.insert someone OS.reliable nanFloat) = [nanVec] := by
    rw [ServerRuntime.accepted, openService_gate,
      if_pos (by simp [Status.isOk, Status.ok])]
    decide
  have hone : ∀ svc, (floatServer.withKernel .scalar).accepted svc
      (.httpSearch (fun _ => false) 0 oneQuery) = [oneVec] := by
    intro svc
    rw [ServerRuntime.accepted]
    decide
  have hzero : ∀ svc, (floatServer.withKernel .scalar).accepted svc
      (.httpSearch (fun _ => false) 0 zeroQuery) = [Vec.zero _] := by
    intro svc
    rw [ServerRuntime.accepted]
    decide
  rw [nanAndSearches, ServerRuntime.acceptedAll, ServerRuntime.acceptedAll,
    ServerRuntime.acceptedAll, hnan, hone, hzero]
  rfl

/-- The NaN is stored, and the distances are not ordered any more. -/
theorem nan_insert_not_comparable :
    ∃ m, floatShard.start OS.reliable (fun _ i => i)
        (fun _ => ShardState.noFiles) = .ok m ∧
      ¬ (floatServer.withKernel .scalar).Comparable nanAndSearches
        ⟨openService m, ample⟩ ∧
      (∃ vec, (floatServer.withKernel .scalar).Stored nanAndSearches
        ⟨openService m, ample⟩ vec ∧ ¬ vec.IsFinite) ∧
      ¬ OrderedBy ((floatServer.withKernel .scalar).Distance nanAndSearches
        ⟨openService m, ample⟩) := by
  obtain ⟨m, hstart⟩ := floatShard_start
  obtain ⟨hvectors, out, m', hinsert, ss, hss, hvec⟩ := insert_stored
    (by decide) ⟨by norm_num, by simp⟩ hstart nanFloat.vectorId
    nanVec
  have hrun : (VectorDBService.insert (floatServer.withKernel .scalar).rt
      someone OS.reliable nanFloat).run ⟨openService m, ample⟩ = _ :=
    VectorDBService.insert_open floatShard.rt (openService_gate m) rfl
      hvectors hinsert
  have hstored : (floatServer.withKernel .scalar).Stored nanAndSearches
      ⟨openService m, ample⟩ nanVec := by
    refine ⟨[.insert someone OS.reliable nanFloat], _, rfl, ss, ?_, hvec⟩
    rw [ServerRuntime.serveAll, List.foldl_cons, List.foldl_nil,
      ServerRuntime.serve, after_bind_pure, after_of_ok hrun]
    exact hss
  have hnan : ¬ nanVec.IsFinite := by
    decide
  refine ⟨m, hstart, fun h => hnan (h.finite _ (Or.inl hstored)),
    ⟨_, hstored, hnan⟩, ?_⟩
  have hmeasured : ∀ vec ∈ [nanVec, oneVec, Vec.zero _],
      (floatServer.withKernel .scalar).Measured nanAndSearches
        ⟨openService m, ample⟩ vec := by
    intro vec hvec
    rw [← nanAndSearches_accepted m] at hvec
    exact Or.inr hvec
  have hone := hmeasured oneVec (by simp)
  refine not_orderedBy_of_nan (p := 0) (q := 1) ?_ ?_ ?_ one_pos
  · exact ⟨nanVec, oneVec, hmeasured _ (by simp), hone, by decide +kernel⟩
  · exact ⟨oneVec, oneVec, hone, hone, by decide +kernel⟩
  · exact ⟨oneVec, Vec.zero _, hone, hmeasured _ (by simp), by decide +kernel⟩

end Deployment

end VecDB
