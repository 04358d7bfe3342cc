import VecDB.ShardRouting
import Mathlib.Tactic

/-!
# What comes back after a restart

A restart that loads brings back, on every shard, the snapshot and the whole
log behind it, if there is a snapshot at all.  File operations are taken to
succeed.
-/

namespace VecDB
namespace Deployment

open LoggedStore

variable {D : Type} [Preorder D] [DecidableLT D] {dep : Deployment D}
  {ring : ConsistentHashRing} {m m' : ShardManager dep.Dim}

/-- The index of every shard holds the vectors routed to it, in order. -/
def HoldsRouted (ring : ConsistentHashRing)
    (calls : List (UInt64 × Vec dep.Dim)) (m : ShardManager dep.Dim) : Prop :=
  ∀ (s : ℕ) ss, m.shards[s]? = some ss →
    ss.index.vectors = (routedTo ring s calls).map Prod.snd

theorem Refines.holdsRouted_iff {states : ℕ → Stored dep.Dim}
    (h : Refines dep ring states m) (calls : List (UInt64 × Vec dep.Dim)) :
    HoldsRouted ring calls m ↔ ∀ s < dep.shardCount.toNat,
      (states s).live = (routedTo ring s calls).map Prod.snd := by
  constructor
  · intro hholds s hs
    obtain ⟨ss, hss⟩ := h.getElem? hs
    rw [← hholds s ss hss]
    exact (h.shard s ss hss).1.index.vectors_eq.symm
  · intro hlive s ss hss
    have hs := h.lt_shardCount hss
    rw [(h.shard s ss hss).1.index.vectors_eq, hlive s hs]

theorem Refines.ring_unique {states states' : ℕ → Stored dep.Dim}
    {ring' : ConsistentHashRing} (h : Refines dep ring states m)
    (h' : Refines dep ring' states' m') : ring' = ring := by
  have hring := h'.ring_new
  rw [h.ring_new] at hring
  exact (Except.ok.inj hring).symm

theorem runFresh_prefix {os : OS} {rngs : ℕ → ℕ → ℕ}
    {before after : List (ShardManager.Op dep.Dim)}
    (hrun : dep.runFresh os rngs (before ++ after) = .ok m) :
    ∃ m₁, dep.runFresh os rngs before = .ok m₁ := by
  rw [runFresh_append, except_bind_eq_ok] at hrun
  obtain ⟨m₁, hbefore, _⟩ := hrun
  exact ⟨m₁, hbefore⟩

/-! ## Without a snapshot -/

/-- Without a snapshot nothing is loaded, so that every shard is as empty as
the calls before the restart left it. -/
theorem Refines.restart_without_snapshot
    {calls : List (UInt64 × Vec dep.Dim)} (rngs : ℕ → ℕ → ℕ)
    (h : Refines dep ring (fun s => serve 1000 Prod.snd
      (requests ring s (calls.map fun call => .insert call.1 call.2)) empty) m) :
    ∃ m', dep.restart OS.reliable true rngs m = .ok m' ∧
      (∀ ss ∈ m'.shards, ss.index.vectors = []) ∧
      (HoldsRouted ring calls m' ↔ calls = []) := by
  have hsaved : ∀ s, (serve 1000 Prod.snd (requests ring s
      (calls.map fun call => .insert call.1 call.2))
      (empty : Stored dep.Dim)).saved = none := by
    intro s
    rw [requests_inserts, (serve_inserts ..).2.2]
    rfl
  obtain ⟨m', hrestart⟩ := h.restart_ok true rngs (fun s _ vecs hvecs => by
    rw [hsaved s] at hvecs
    cases hvecs)
  have h' := h.restart_eq_ok hrestart
  have hlive : ∀ s, (serve 1000 Prod.snd [.restart true]
      (serve 1000 Prod.snd (requests ring s
        (calls.map fun call => .insert call.1 call.2))
        (empty : Stored dep.Dim))).live = [] := by
    intro s
    rw [serve_restart_load, load_of_none (by exact hsaved s)]
    rfl
  refine ⟨m', hrestart, ?_, ?_⟩
  · intro ss hmem
    obtain ⟨s, hss⟩ := List.mem_iff_getElem?.mp hmem
    rw [(h'.shard s ss hss).1.index.vectors_eq, hlive]
  · rw [h'.holdsRouted_iff]
    simp only [hlive]
    constructor
    · intro hnone
      have hsum := h.sum_routedTo calls
      have hzero : (List.range dep.shardCount.toNat).map (fun s =>
          (routedTo ring s calls).length) =
          (List.range dep.shardCount.toNat).map fun _ => 0 := by
        apply List.map_congr_left
        intro s hs
        have hs' := hnone s (List.mem_range.mp hs)
        simpa using congrArg List.length hs'.symm
      rw [hzero] at hsum
      exact List.length_eq_zero_iff.mp (by simpa using hsum.symm)
    · rintro rfl s _
      rfl

/-- After inserts on an empty directory and a restart, every index is empty:
the restart is exact only when nothing was inserted. -/
theorem recovery_without_snapshot_iff {os : OS} {rngs : ℕ → ℕ → ℕ}
    {m₀ : ShardManager dep.Dim} {calls : List (UInt64 × Vec dep.Dim)}
    {outs : List (ℕ × ℕ)} (rngs' : ℕ → ℕ → ℕ)
    (hstart : dep.start os rngs (fun _ => ShardState.noFiles) = .ok m₀)
    (hok : m₀.insertEach os dep.rt calls = .ok (outs, m)) :
    ∃ m', dep.restart OS.reliable true rngs' m = .ok m' ∧
      (HoldsRouted m.ring calls m' ↔ calls = []) := by
  have h := (start_fresh hstart).run_eq_ok (insertEach_run hok)
  rw [← h.ring_eq] at h
  obtain ⟨m', hrestart, _, hiff⟩ := h.restart_without_snapshot rngs'
  exact ⟨m', hrestart, hiff⟩

theorem recovery_without_snapshot_two :
    ∃ m₀ outs m m', oneShard.start OS.reliable (fun _ _ => 0)
        (fun _ => ShardState.noFiles) = .ok m₀ ∧
      m₀.insertEach OS.reliable oneShard.rt
        [(7, Vec.ofBytes _ [1, 0, 0, 0]), (8, Vec.ofBytes _ [2, 0, 0, 0])] =
        .ok (outs, m) ∧
      oneShard.restart OS.reliable true (fun _ _ => 0) m = .ok m' ∧
      ¬ HoldsRouted m.ring
        [(7, Vec.ofBytes _ [1, 0, 0, 0]), (8, Vec.ofBytes _ [2, 0, 0, 0])]
        m' := by
  obtain ⟨m₀, hstart⟩ := oneShard_start fun _ _ => 0
  obtain ⟨outs, m, hrun⟩ := (start_fresh hstart).insertEach_ok
    oneShard_entrySize (by decide)
    [(7, Vec.ofBytes _ [1, 0, 0, 0]), (8, Vec.ofBytes _ [2, 0, 0, 0])]
    (fun s => by simp [empty]) (fun s => by simp [empty])
  obtain ⟨m', hrestart, hiff⟩ :=
    recovery_without_snapshot_iff (fun _ _ => 0) hstart hrun
  exact ⟨m₀, outs, m, m', hstart, hrun, hrestart, mt hiff.mp (by simp)⟩

theorem insert_lost_without_snapshot :
    ∃ m₀ outs m m', oneShard.start OS.reliable (fun _ _ => 0)
        (fun _ => ShardState.noFiles) = .ok m₀ ∧
      m₀.insertEach OS.reliable oneShard.rt
        [(7, Vec.ofBytes _ [1, 0, 0, 0])] = .ok (outs, m) ∧
      oneShard.restart OS.reliable true (fun _ _ => 0) m = .ok m' ∧
      m.totalVectors = 1 ∧ (∀ ss ∈ m'.shards, ss.index.vectors = []) ∧
      ¬ HoldsRouted m.ring [(7, Vec.ofBytes _ [1, 0, 0, 0])] m' := by
  obtain ⟨m₀, hstart⟩ := oneShard_start fun _ _ => 0
  obtain ⟨outs, m, hrun⟩ := (start_fresh hstart).insertEach_ok
    oneShard_entrySize (by decide) [(7, Vec.ofBytes _ [1, 0, 0, 0])]
    (fun s => by simp [empty]) (fun s => by simp [empty])
  have h := (start_fresh hstart).run_eq_ok (insertEach_run hrun)
  have hring := h.ring_eq
  rw [← hring] at h
  obtain ⟨m', hrestart, hempty, hiff⟩ :=
    h.restart_without_snapshot fun _ _ => 0
  refine ⟨m₀, outs, m, m', hstart, hrun, hrestart, ?_, hempty, ?_⟩
  · have htotal := h.totalVectors_eq (fun s _ => by
      rw [requests_inserts, (serve_inserts ..).1, empty, List.nil_append,
        List.length_map])
    exact htotal
  · rw [hiff]
    simp

end Deployment
end VecDB
