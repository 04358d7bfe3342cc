import VecDB.ShardRuns
import Mathlib.Tactic

/-!
# Where inserts go

Inserts on an empty data directory, one after another.  Each extends the log
and the index of the shard that owns its id and leaves the others alone.
-/

namespace VecDB

open LoggedStore

/-- Inserts one after another, with the pairs they returned. -/
def ShardManager.insertEach {dim : UInt32} {D : Type} [Preorder D]
    [DecidableLT D] (os : OS) (rt : Runtime (Vec dim) D) :
    List (UInt64 × Vec dim) → ShardManager dim →
    Except Failure (List (ℕ × ℕ) × ShardManager dim)
  | [], m => .ok ([], m)
  | call :: calls, m => do
      let (out, m) ← m.insert os rt call.1 call.2
      let (outs, m) ← insertEach os rt calls m
      return (out :: outs, m)

namespace Deployment

section Routed

variable {dim : UInt32}

/-- The owner of every call, and the number of calls before it that have the
same owner. -/
structure Outputs (ring : ConsistentHashRing)
    (calls : List (UInt64 × Vec dim)) (outs : List (ℕ × ℕ)) : Prop where
  length_eq : outs.length = calls.length
  out : ∀ (j : ℕ) call, calls[j]? = some call → ∃ s,
    ring.getShard call.1 = .ok s ∧
      outs[j]? = some (s, (routedTo ring s (calls.take j)).length)

theorem Outputs.nodup {ring : ConsistentHashRing}
    {calls : List (UInt64 × Vec dim)} {outs : List (ℕ × ℕ)}
    (h : Outputs ring calls outs) : outs.Nodup := by
  rw [List.nodup_iff_getElem?_ne_getElem?]
  intro i j hij hj heq
  have hi : i < calls.length := by
    rw [← h.length_eq]
    omega
  obtain ⟨s, hs, houtI⟩ :=
    h.out i calls[i] (List.getElem?_eq_getElem hi)
  obtain ⟨t, ht, houtJ⟩ := h.out j _ (List.getElem?_eq_getElem
    (show j < calls.length by rwa [← h.length_eq]))
  rw [houtI, houtJ] at heq
  simp only [Option.some.injEq, Prod.mk.injEq] at heq
  obtain ⟨rfl, hcount⟩ := heq
  have hinit : (calls.take (i + 1)) <+: (calls.take j) :=
    List.take_prefix_take_left hij
  have hsub := (hinit.sublist.filter fun call =>
    decide (ring.getShard call.1 = .ok s)).length_le
  have hself : routedTo ring s (calls.take (i + 1)) =
      routedTo ring s (calls.take i) ++ [calls[i]] := by
    rw [List.take_succ_eq_append_getElem hi, routedTo_append]
    congr 1
    simp [routedTo, hs]
  change (routedTo ring s (calls.take (i + 1))).length ≤
    (routedTo ring s (calls.take j)).length at hsub
  rw [hself, List.length_append, List.length_singleton] at hsub
  omega

end Routed

section Runs

variable {D : Type} [Preorder D] [DecidableLT D] {dep : Deployment D}
  {os : OS} {ring : ConsistentHashRing} {states : ℕ → Stored dep.Dim}
  {m m' : ShardManager dep.Dim}

theorem insertEach_cons_eq_ok {call : UInt64 × Vec dep.Dim}
    {calls : List (UInt64 × Vec dep.Dim)} {outs : List (ℕ × ℕ)}
    (hok : m.insertEach os dep.rt (call :: calls) = .ok (outs, m')) :
    ∃ out m₁ rest, m.insert os dep.rt call.1 call.2 = .ok (out, m₁) ∧
      m₁.insertEach os dep.rt calls = .ok (rest, m') ∧
      outs = out :: rest := by
  rw [ShardManager.insertEach, except_bind_eq_ok] at hok
  obtain ⟨⟨out, m₁⟩, hinsert, hok⟩ := hok
  rw [except_bind_eq_ok] at hok
  obtain ⟨⟨rest, m₂⟩, hrest, hok⟩ := hok
  cases hok
  exact ⟨out, m₁, rest, hinsert, hrest, rfl⟩

theorem insertEach_run {calls : List (UInt64 × Vec dep.Dim)}
    {outs : List (ℕ × ℕ)}
    (hok : m.insertEach os dep.rt calls = .ok (outs, m')) :
    dep.run os (calls.map fun call => .insert call.1 call.2) m = .ok m' := by
  induction calls generalizing m outs with
  | nil =>
      cases hok
      rfl
  | cons call calls ih =>
      obtain ⟨out, m₁, rest, hinsert, hrest, rfl⟩ :=
        insertEach_cons_eq_ok hok
      rw [List.map_cons, run, step, hinsert]
      exact ih hrest

theorem Refines.insertEach_eq_ok (h : Refines dep ring states m)
    {before calls : List (UInt64 × Vec dep.Dim)} {outs : List (ℕ × ℕ)}
    (hlive : ∀ s, (states s).live.length = (routedTo ring s before).length)
    (hok : m.insertEach os dep.rt calls = .ok (outs, m')) :
    outs.length = calls.length ∧ ∀ (j : ℕ) call, calls[j]? = some call →
      ∃ s, ring.getShard call.1 = .ok s ∧
        outs[j]? =
          some (s, (routedTo ring s (before ++ calls.take j)).length) := by
  induction calls generalizing m states before outs with
  | nil =>
      cases hok
      exact ⟨rfl, by simp⟩
  | cons call calls ih =>
      obtain ⟨out, m₁, rest, hinsert, hrest, rfl⟩ :=
        insertEach_cons_eq_ok hok
      obtain ⟨hs, hn, hnext⟩ := h.insert_eq_ok hinsert
      have hlive' : ∀ s, (serve 1000 Prod.snd
          (request ring s (.insert call.1 call.2)).toList
            (states s)).live.length =
          (routedTo ring s (before ++ [call])).length := by
        intro s
        rw [routedTo_append, List.length_append, ← hlive s]
        by_cases howns : ring.getShard call.1 = .ok s
        · simp [request, howns, routedTo, add]
        · simp [request, howns, routedTo]
      obtain ⟨hlength, hall⟩ := ih hnext hlive' hrest
      refine ⟨by simp [hlength], ?_⟩
      intro j c hc
      cases j with
      | zero =>
          simp only [List.getElem?_cons_zero, Option.some.injEq] at hc
          subst hc
          refine ⟨out.1, hs, ?_⟩
          rw [List.getElem?_cons_zero, List.take_zero, List.append_nil,
            ← hlive, ← hn]
      | succ j =>
          rw [List.getElem?_cons_succ] at hc
          obtain ⟨s, howner, hout⟩ := hall j c hc
          refine ⟨s, howner, ?_⟩
          rw [List.getElem?_cons_succ, hout, List.take_succ_cons,
            List.append_assoc, List.singleton_append]

/-- One insert, whatever shard it goes to. -/
theorem serve_insert_length {dim : UInt32} (ring : ConsistentHashRing) (s : ℕ)
    (vectorId : UInt64) (vec : Vec dim) (a : Stored dim) :
    (serve 1000 Prod.snd (request ring s (.insert vectorId vec)).toList
        a).live.length ≤ a.live.length + 1 ∧
      (serve 1000 Prod.snd (request ring s (.insert vectorId vec)).toList
        a).log.length ≤ a.log.length + 1 := by
  by_cases howns : ring.getShard vectorId = .ok s
  · simp [request, howns, add]
  · simp [request, howns]

theorem Refines.insertEach_ok (h : Refines dep ring states m)
    (hentry : WAL.entrySize dep.Dim ≤ WAL.growSize)
    (hMmax0 : 0 ≤ dep.cfg.Mmax0.toInt)
    (calls : List (UInt64 × Vec dep.Dim))
    (hlive : ∀ s, (states s).live.length + calls.length < 2 ^ 32)
    (hlog : ∀ s, (states s).log.length + calls.length < 2 ^ 33) :
    ∃ outs m', m.insertEach OS.reliable dep.rt calls = .ok (outs, m') := by
  induction calls generalizing m states with
  | nil => exact ⟨[], m, rfl⟩
  | cons call calls ih =>
      simp only [List.length_cons] at hlive hlog
      obtain ⟨s, hs, _⟩ := h.getShard_lt call.1
      have hliveS := hlive s
      have hlogS := hlog s
      obtain ⟨m₁, hinsert⟩ := h.insert_ok hentry hs (by omega)
        ⟨by omega, fun _ => hMmax0⟩ call.2
      obtain ⟨_, _, hnext⟩ := h.insert_eq_ok hinsert
      obtain ⟨outs, m', hrest⟩ := ih hnext
        (fun t => by
          have hliveT := hlive t
          have hgrowsT := (serve_insert_length ring t call.1 call.2
            (states t)).1
          omega)
        (fun t => by
          have hlogT := hlog t
          have hgrowsT := (serve_insert_length ring t call.1 call.2
            (states t)).2
          omega)
      refine ⟨(s, (states s).live.length) :: outs, m', ?_⟩
      rw [ShardManager.insertEach, hinsert, except_bind_ok]
      dsimp only
      rw [hrest]
      rfl

theorem start_fresh_ok (dep : Deployment D)
    (haccepted : HNSWIndex.Accepted dep.cfg) (hcount : dep.shardCount ≠ 0)
    (hvnodes : dep.virtualNodes ≠ 0) (hdim : dep.Dim ≠ 0)
    (rngs : ℕ → ℕ → ℕ) :
    ∃ m, dep.start OS.reliable rngs (fun _ => ShardState.noFiles) =
      .ok m := by
  have hwal : WAL.new OS.reliable dep.Dim 1000 none =
      .ok (WAL.created dep.Dim 1000) :=
    WAL.new_none hdim (by simp [OS.reliable, WAL.initialSize])
      (by simp [OS.reliable, WAL.initialSize])
  have hring : ∃ ring, ConsistentHashRing.new dep.sorter dep.shardCount
      dep.virtualNodes = .ok ring := by
    unfold ConsistentHashRing.new
    rw [if_neg hcount, if_neg hvnodes]
    exact ⟨_, rfl⟩
  obtain ⟨ring, hring⟩ := hring
  apply start_ok hring
  intro s _
  obtain ⟨index, hindex⟩ := haccepted.new_ok (rngs s)
  exact ⟨_, ShardState.new_eq_ok.mpr ⟨index, _, hindex, hwal, rfl⟩⟩

/-- Every insert goes to the owner of its id and gets the next node id there;
the index and the log of a shard hold what was routed to it, so that the
totals agree and no pair is returned twice. -/
theorem routing_invariant {rngs : ℕ → ℕ → ℕ} {m₀ : ShardManager dep.Dim}
    {calls : List (UInt64 × Vec dep.Dim)} {outs : List (ℕ × ℕ)}
    (hstart : dep.start os rngs (fun _ => ShardState.noFiles) = .ok m₀)
    (hok : m₀.insertEach os dep.rt calls = .ok (outs, m)) :
    outs.length = calls.length ∧
      (∀ (j : ℕ) call, calls[j]? = some call →
        ∃ s, m.ring.getShard call.1 = .ok s ∧ s < dep.shardCount.toNat ∧
          outs[j]? = some (s, (routedTo m.ring s (calls.take j)).length)) ∧
      (∀ (s : ℕ) ss, m.shards[s]? = some ss →
        ss.index.vectors = (routedTo m.ring s calls).map Prod.snd ∧
          ss.wal.replay.1.map (fun entry => (entry.vectorId, entry.vec)) =
            routedTo m.ring s calls) ∧
      m.shards.length = dep.shardCount.toNat ∧
      m.totalVectors = calls.length ∧
      m.loadDistribution.sum = calls.length ∧ outs.Nodup := by
  have hfresh := start_fresh hstart
  have hend := hfresh.run_eq_ok (insertEach_run hok)
  have hring := hend.ring_eq
  have hnone : ∀ s, (empty : Stored dep.Dim).live.length =
      (routedTo m₀.ring s ([] : List (UInt64 × Vec dep.Dim))).length :=
    fun s => rfl
  obtain ⟨hlength, houts⟩ := hfresh.insertEach_eq_ok hnone hok
  rw [← hring] at houts hend
  have hshard : ∀ (s : ℕ) ss, m.shards[s]? = some ss →
      ss.index.vectors = (routedTo m.ring s calls).map Prod.snd ∧
        ss.wal.replay.1.map (fun entry => (entry.vectorId, entry.vec)) =
          routedTo m.ring s calls := by
    intro s ss hss
    have hrep := (hend.shard s ss hss).1
    rw [requests_inserts] at hrep
    obtain ⟨hlive, hlog, _⟩ := serve_inserts 1000 Prod.snd
      (routedTo m.ring s calls) empty
    refine ⟨hrep.index.vectors_eq.trans hlive, ?_⟩
    rw [hrep.log.replay, hlog]
    apply List.ext_getElem
    · simp [empty]
    · intro i hi hi'
      simp [empty, WAL.numbered]
  have htotal : m.totalVectors = calls.length := by
    apply hend.totalVectors_eq
    intro s _
    rw [requests_inserts, (serve_inserts ..).1]
    simp [empty]
  refine ⟨hlength, ?_, hshard, hend.length_eq, htotal, htotal,
    Outputs.nodup ⟨hlength, houts⟩⟩
  intro j call hcall
  obtain ⟨s, hs, hout⟩ := houts j call hcall
  obtain ⟨t, ht, hlt⟩ := hend.getShard_lt call.1
  rw [hs, Except.ok.injEq] at ht
  exact ⟨s, hs, by omega, hout⟩

end Runs

/-! ## A deployment with one shard -/

def oneShard : Deployment ℕ where
  cfg := HNSWIndex.smallConfig
  shardCount := 1
  dataDir := "data"
  virtualNodes := 1
  sorter := Sorter.insertion _
  rt := wordLine _

theorem oneShard_start (rngs : ℕ → ℕ → ℕ) :
    ∃ m, oneShard.start OS.reliable rngs (fun _ => ShardState.noFiles) =
      .ok m := by
  apply start_fresh_ok
  · exact {
      dim := by decide
      M := by decide
      efConstruction := by decide
      maxLayers := by decide }
  · decide
  · decide
  · decide

theorem oneShard_entrySize : WAL.entrySize oneShard.Dim ≤ WAL.growSize := by
  decide

theorem oneShard_getShard {ring : ConsistentHashRing}
    {states : ℕ → Stored oneShard.Dim} {m : ShardManager oneShard.Dim}
    (h : Refines oneShard ring states m) (vectorId : UInt64) :
    ring.getShard vectorId = .ok 0 := by
  obtain ⟨s, hs, hlt⟩ := h.getShard_lt vectorId
  have hcount : oneShard.shardCount.toNat = 1 := rfl
  rw [hs, show s = 0 by omega]

theorem oneShard_routedTo {ring : ConsistentHashRing}
    {states : ℕ → Stored oneShard.Dim} {m : ShardManager oneShard.Dim}
    (h : Refines oneShard ring states m)
    (calls : List (UInt64 × Vec oneShard.Dim)) :
    routedTo ring 0 calls = calls := by
  apply List.filter_eq_self.mpr
  intro call _
  simp [oneShard_getShard h]

theorem routing_invariant_oneShard :
    ∃ m₀ outs m, oneShard.start OS.reliable (fun _ i => i)
        (fun _ => ShardState.noFiles) = .ok m₀ ∧
      m₀.insertEach OS.reliable oneShard.rt
        [(7, Vec.ofBytes _ [1, 0, 0, 0]), (8, Vec.ofBytes _ [2, 0, 0, 0]),
          (7, Vec.ofBytes _ [1, 0, 0, 0])] = .ok (outs, m) ∧
      m.totalVectors = 3 ∧ outs.length = 3 ∧ outs.Nodup := by
  obtain ⟨m₀, hstart⟩ := oneShard_start fun _ i => i
  obtain ⟨outs, m, hrun⟩ := (start_fresh hstart).insertEach_ok
    oneShard_entrySize (by decide)
    [(7, Vec.ofBytes _ [1, 0, 0, 0]), (8, Vec.ofBytes _ [2, 0, 0, 0]),
      (7, Vec.ofBytes _ [1, 0, 0, 0])]
    (fun s => by simp [LoggedStore.empty]) (fun s => by simp [LoggedStore.empty])
  obtain ⟨hlength, _, _, _, htotal, _, hnodup⟩ :=
    routing_invariant hstart hrun
  exact ⟨m₀, outs, m, hstart, hrun, htotal, hlength, hnodup⟩

end Deployment
end VecDB
