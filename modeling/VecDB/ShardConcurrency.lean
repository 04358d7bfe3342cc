import VecDB.ShardRecovery
import Mathlib.Tactic

/-!
# Overlapping calls

Calls of `insert` from several threads.  The append to the log and the
insertion into the index are each taken to be atomic; no lock is held over
both, so that the steps of different calls interleave as they like.
-/

namespace VecDB

open LoggedStore

/-- A step of a call: its append to the log, or its insertion into the
index. -/
inductive CallStep (ι : Type) where
  | append (call : ι)
  | index (call : ι)
  deriving DecidableEq

namespace CallStep

variable {ι : Type} {dim : UInt32} (calls : ι → UInt64 × Vec dim)

def call : CallStep ι → ι
  | .append i => i
  | .index i => i

def action : CallStep ι → Action (UInt64 × Vec dim) (Vec dim)
  | .append i => .append (calls i)
  | .index i => .add (calls i).2

def appended? : CallStep ι → Option ι
  | .append i => some i
  | .index _ => none

def indexed? : CallStep ι → Option ι
  | .append _ => none
  | .index i => some i

end CallStep

/-- The calls that append in these steps, in order. -/
def appendOrder {ι : Type} (steps : List (CallStep ι)) : List ι :=
  steps.filterMap CallStep.appended?

/-- The calls that enter the index in these steps, in order. -/
def indexOrder {ι : Type} (steps : List (CallStep ι)) : List ι :=
  steps.filterMap CallStep.indexed?

/-- Every call has taken both of its steps, the append first. -/
structure Interleaves {ι : Type} (steps : List (CallStep ι)) : Prop where
  nodup : steps.Nodup
  appends : ∀ i, .append i ∈ steps
  indexes : ∀ i, .index i ∈ steps
  ordered : ∀ i, List.Sublist [.append i, .index i] steps

section Orders

variable {ι : Type} {dim : UInt32} (calls : ι → UInt64 × Vec dim)

theorem mem_appendOrder {steps : List (CallStep ι)} {i : ι} :
    i ∈ appendOrder steps ↔ .append i ∈ steps := by
  unfold appendOrder
  rw [List.mem_filterMap]
  constructor
  · rintro ⟨step, hstep, hi⟩
    cases step with
    | append j =>
        cases hi
        exact hstep
    | index j => cases hi
  · intro hi
    exact ⟨_, hi, rfl⟩

theorem mem_indexOrder {steps : List (CallStep ι)} {i : ι} :
    i ∈ indexOrder steps ↔ .index i ∈ steps := by
  unfold indexOrder
  rw [List.mem_filterMap]
  constructor
  · rintro ⟨step, hstep, hi⟩
    cases step with
    | append j => cases hi
    | index j =>
        cases hi
        exact hstep
  · intro hi
    exact ⟨_, hi, rfl⟩

theorem appendOrder_append (before after : List (CallStep ι)) :
    appendOrder (before ++ after) =
      appendOrder before ++ appendOrder after :=
  List.filterMap_append

/-- What overlapping calls make of a logged store. -/
theorem run_callSteps (steps : List (CallStep ι)) (a : Stored dim) :
    (run 1000 Prod.snd (steps.map (CallStep.action calls)) a).live =
        a.live ++ (indexOrder steps).map (fun i => (calls i).2) ∧
      (run 1000 Prod.snd (steps.map (CallStep.action calls)) a).log =
        a.log ++ (appendOrder steps).map calls ∧
      (run 1000 Prod.snd (steps.map (CallStep.action calls)) a).saved =
        a.saved := by
  have hinserts : ∀ action ∈ steps.map (CallStep.action calls),
      action.Inserts := by
    intro action haction
    obtain ⟨step, _, rfl⟩ := List.mem_map.mp haction
    cases step with
    | append i => exact Or.inl ⟨calls i, rfl⟩
    | index i => exact Or.inr ⟨(calls i).2, rfl⟩
  obtain ⟨hlive, hlog, hsaved⟩ := run_inserts 1000 Prod.snd hinserts a
  refine ⟨?_, ?_, hsaved⟩
  · rw [hlive, List.filterMap_map, indexOrder, List.map_filterMap]
    congr 2
    funext step
    cases step <;> rfl
  · rw [hlog, List.filterMap_map, appendOrder, List.map_filterMap]
    congr 2
    funext step
    cases step <;> rfl

end Orders

/-! ## The steps on a shard -/

namespace ShardState

variable {ι : Type} {dim : UInt32} {D : Type} [Preorder D] [DecidableLT D]

/-- The node id is what the call returns. -/
def callStep (os : OS) (rt : Runtime (Vec dim) D)
    (calls : ι → UInt64 × Vec dim) :
    CallStep ι → ShardState dim → Except Failure (Option ℕ × ShardState dim)
  | .append i, ss => do
      let ss ← ss.appendStep os (calls i).1 (calls i).2
      return (none, ss)
  | .index i, ss => do
      let (nodeId, ss) ← ss.indexStep rt (calls i).2
      return (some nodeId, ss)

end ShardState

namespace Represents

variable {ι : Type} {D : Type} [Preorder D] [DecidableLT D]
  {cfg : HNSWConfig} {a : Stored cfg.dim.toUInt32}
  {ss ss' : ShardState cfg.dim.toUInt32} {os : OS}
  {rt : Runtime (Vec cfg.dim.toUInt32) D}
  {calls : ι → UInt64 × Vec cfg.dim.toUInt32}

theorem callStep_eq_ok (h : Represents cfg a ss) {step : CallStep ι}
    {out : Option ℕ} (hok : ss.callStep os rt calls step = .ok (out, ss')) :
    Represents cfg ((step.action calls).apply 1000 Prod.snd a) ss' ∧
      ss'.shardId = ss.shardId ∧
      ∀ n ∈ out, (indexOrder [step]).map (fun i => (calls i).2) =
        [(calls step.call).2] ∧ n = a.live.length := by
  cases step with
  | append i =>
      rw [ShardState.callStep, except_bind_eq_ok] at hok
      obtain ⟨ss₁, happend, hok⟩ := hok
      cases hok
      obtain ⟨h', hid⟩ := h.appendStep_eq_ok happend
      exact ⟨h', hid, by simp⟩
  | index i =>
      rw [ShardState.callStep, except_bind_eq_ok] at hok
      obtain ⟨⟨n, ss₁⟩, hindex, hok⟩ := hok
      cases hok
      obtain ⟨hn, h', hid⟩ := h.indexStep_eq_ok hindex
      refine ⟨h', hid, ?_⟩
      intro k hk
      rw [Option.mem_some_iff.mp hk] at hn
      exact ⟨rfl, hn⟩

theorem callStep_ok (rt : Runtime (Vec cfg.dim.toUInt32) D)
    (calls : ι → UInt64 × Vec cfg.dim.toUInt32) (h : Represents cfg a ss)
    (hentry : WAL.entrySize cfg.dim.toUInt32 ≤ WAL.growSize)
    (hlog : a.log.length < 2 ^ 33)
    (hroom : HNSWIndex.Storable cfg (a.live.length + 1)) (step : CallStep ι) :
    ∃ out ss', ss.callStep OS.reliable rt calls step = .ok (out, ss') := by
  cases step with
  | append i =>
      obtain ⟨ss', happend⟩ := h.appendStep_ok hentry hlog (calls i).1 (calls i).2
      refine ⟨none, ss', ?_⟩
      rw [ShardState.callStep, happend]
      rfl
  | index i =>
      obtain ⟨ss', hindex⟩ := h.indexStep_ok rt hroom (calls i).2
      refine ⟨some a.live.length, ss', ?_⟩
      rw [ShardState.callStep, hindex]
      rfl

end Represents

namespace ShardManager

variable {ι : Type} {dim : UInt32} {D : Type} [Preorder D] [DecidableLT D]

/-- The step on the shard that owns the id of its call. -/
def callStep (os : OS) (rt : Runtime (Vec dim) D)
    (calls : ι → UInt64 × Vec dim) (step : CallStep ι)
    (m : ShardManager dim) :
    Except Failure (List (ι × ℕ × ℕ) × ShardManager dim) := do
  let shardId ← m.ring.getShard (calls step.call).1
  match m.shards[shardId]? with
  | none => throw .accessViolation
  | some ss =>
      let (nodeId, ss) ← ss.callStep os rt calls step
      return (nodeId.toList.map fun n => (step.call, shardId, n),
        { m with shards := m.shards.set shardId ss })

/-- Steps in the order they are scheduled, and every call that returned, with its
shard and its node id. -/
def overlap (os : OS) (rt : Runtime (Vec dim) D)
    (calls : ι → UInt64 × Vec dim) :
    List (CallStep ι) → ShardManager dim →
    Except Failure (List (ι × ℕ × ℕ) × ShardManager dim)
  | [], m => .ok ([], m)
  | step :: steps, m => do
      let (out, m) ← m.callStep os rt calls step
      let (outs, m) ← overlap os rt calls steps m
      return (out ++ outs, m)

end ShardManager

namespace Deployment

section Overlapped

variable {ι : Type} {dim : UInt32} (ring : ConsistentHashRing)
  (calls : ι → UInt64 × Vec dim) (s : ℕ)

/-- The steps of the calls that shard `s` owns. -/
def stepsOn (steps : List (CallStep ι)) : List (CallStep ι) :=
  steps.filter fun step =>
    decide (ring.getShard (calls step.call).1 = .ok s)

/-- The shard after its steps. -/
def overlapped (steps : List (CallStep ι)) (a : Stored dim) : Stored dim :=
  LoggedStore.run 1000 Prod.snd
    ((stepsOn ring calls s steps).map (CallStep.action calls)) a

theorem overlapped_cons (step : CallStep ι) (steps : List (CallStep ι))
    (a : Stored dim) :
    overlapped ring calls s (step :: steps) a =
      overlapped ring calls s steps (overlapped ring calls s [step] a) := by
  unfold overlapped stepsOn
  rw [← List.singleton_append, List.filter_append, List.map_append,
    LoggedStore.run_append]

theorem overlapped_live (steps : List (CallStep ι))
    (a : Stored dim) :
    (overlapped ring calls s steps a).live = a.live ++
      (indexOrder (stepsOn ring calls s steps)).map fun i => (calls i).2 :=
  (run_callSteps calls _ a).1

theorem overlapped_log (steps : List (CallStep ι))
    (a : Stored dim) :
    (overlapped ring calls s steps a).log = a.log ++
      (appendOrder (stepsOn ring calls s steps)).map calls :=
  (run_callSteps calls _ a).2.1

end Overlapped

section Manager

variable {ι : Type} {D : Type} [Preorder D] [DecidableLT D]
  {dep : Deployment D} {os : OS} {ring : ConsistentHashRing}
  {states : ℕ → Stored dep.Dim} {m m' : ShardManager dep.Dim}
  {calls : ι → UInt64 × Vec dep.Dim} {steps : List (CallStep ι)}

theorem Refines.callStep_eq_ok (h : Refines dep ring states m)
    {step : CallStep ι} {out : List (ι × ℕ × ℕ)}
    (hok : m.callStep os dep.rt calls step = .ok (out, m')) :
    Refines dep ring (fun s => overlapped ring calls s [step] (states s)) m' ∧
      ∀ i s n, (i, s, n) ∈ out →
        (overlapped ring calls s [step] (states s)).live[n]? =
          some (calls i).2 := by
  rw [ShardManager.callStep, except_bind_eq_ok] at hok
  obtain ⟨s, hs, hok⟩ := hok
  rw [h.ring_eq] at hs
  cases hss : m.shards[s]? with
  | none =>
      rw [hss] at hok
      cases hok
  | some ss =>
      simp only [hss, except_bind_eq_ok] at hok
      obtain ⟨⟨node, ss'⟩, hstep, hok⟩ := hok
      cases hok
      obtain ⟨hrep, hid, hnode⟩ := (h.shard s ss hss).1.callStep_eq_ok hstep
      have hself : stepsOn ring calls s [step] = [step] := by
        simp [stepsOn, hs]
      refine ⟨h.setShard hss hid ?_ ?_, ?_⟩
      · simpa only [overlapped, hself, List.map_singleton, run_singleton]
          using hrep
      · intro t hts
        have hne : ring.getShard (calls step.call).1 ≠ .ok t := by
          rw [hs]
          simpa using Ne.symm hts
        simp [overlapped, stepsOn, hne, LoggedStore.run]
      · intro i t n hmem
        obtain ⟨k, hk, heq⟩ := List.mem_map.mp hmem
        cases heq
        obtain ⟨horder, rfl⟩ := hnode n (Option.mem_toList.mp hk)
        rw [overlapped_live, hself, horder, List.getElem?_concat_length]

theorem Refines.overlap_eq_ok (h : Refines dep ring states m)
    {outs : List (ι × ℕ × ℕ)}
    (hok : m.overlap os dep.rt calls steps = .ok (outs, m')) :
    Refines dep ring (fun s => overlapped ring calls s steps (states s)) m' ∧
      ∀ i s n, (i, s, n) ∈ outs →
        (overlapped ring calls s steps (states s)).live[n]? =
          some (calls i).2 := by
  induction steps generalizing m states outs with
  | nil =>
      cases hok
      exact ⟨h, by simp⟩
  | cons step steps ih =>
      rw [ShardManager.overlap, except_bind_eq_ok] at hok
      obtain ⟨⟨out, m₁⟩, hstep, hok⟩ := hok
      rw [except_bind_eq_ok] at hok
      obtain ⟨⟨rest, m₂⟩, hrest, hok⟩ := hok
      cases hok
      obtain ⟨h₁, hout⟩ := h.callStep_eq_ok hstep
      obtain ⟨h₂, houts⟩ := ih h₁ hrest
      have hcons : (fun s =>
          overlapped ring calls s (step :: steps) (states s)) = fun s =>
          overlapped ring calls s steps
            (overlapped ring calls s [step] (states s)) :=
        funext fun s => overlapped_cons ring calls s step steps (states s)
      refine ⟨by rwa [hcons], ?_⟩
      intro i s n hmem
      rw [overlapped_cons]
      rcases List.mem_append.mp hmem with hnow | hlater
      · have hlive := hout i s n hnow
        have hlt := (List.getElem?_eq_some_iff.mp hlive).1
        rw [overlapped_live, List.getElem?_append_left hlt]
        exact hlive
      · exact houts i s n hlater

/-! ## Log order and node order -/

/-- On every shard the log carries the vectors of the nodes, in node order,
and a replay gives every call that returned its vector under its node id. -/
def ReplayKeepsIds (dep : Deployment D) (calls : ι → UInt64 × Vec dep.Dim)
    (outs : List (ι × ℕ × ℕ)) (m : ShardManager dep.Dim) : Prop :=
  ∀ (s : ℕ) ss, m.shards[s]? = some ss →
    ss.wal.replay.1.map WALEntry.vec = ss.index.vectors ∧
      ∀ rng fresh, HNSWIndex.new dep.cfg rng = .ok fresh →
        ∃ index, HNSWIndex.insertAll dep.rt
            (ss.wal.replay.1.map WALEntry.vec) fresh = .ok index ∧
          ∀ i n, (i, s, n) ∈ outs → index.getVector n = .ok (calls i).2

theorem overlap_contents
    (h : Refines dep ring (fun s =>
      overlapped ring calls s steps (empty : Stored dep.Dim)) m)
    {s : ℕ} {ss : ShardState dep.Dim} (hss : m.shards[s]? = some ss) :
    ss.wal.replay.1.map WALEntry.vec =
        (appendOrder (stepsOn ring calls s steps)).map
          (fun i => (calls i).2) ∧
      ss.index.vectors = (indexOrder (stepsOn ring calls s steps)).map
        fun i => (calls i).2 := by
  have hrep := (h.shard s ss hss).1
  rw [hrep.replay_vecs, hrep.index.vectors_eq, overlapped_log, overlapped_live]
  simp [empty, Function.comp_def]

/-- Node ids survive a replay if and only if on every shard the vectors went
into the log in the order in which they went into the index. -/
theorem replay_keeps_ids_iff {rngs : ℕ → ℕ → ℕ} {m₀ : ShardManager dep.Dim}
    {outs : List (ι × ℕ × ℕ)}
    (hstart : dep.start os rngs (fun _ => ShardState.noFiles) = .ok m₀)
    (hrun : m₀.overlap os dep.rt calls steps = .ok (outs, m)) :
    ReplayKeepsIds dep calls outs m ↔ ∀ s < dep.shardCount.toNat,
      (appendOrder (stepsOn m.ring calls s steps)).map (fun i => (calls i).2) =
        (indexOrder (stepsOn m.ring calls s steps)).map
          fun i => (calls i).2 := by
  obtain ⟨h, houts⟩ := (start_fresh hstart).overlap_eq_ok hrun
  have hring := h.ring_eq
  rw [← hring] at h houts
  constructor
  · intro hkeeps s hs
    obtain ⟨ss, hss⟩ := h.getElem? hs
    obtain ⟨hlog, hlive⟩ := overlap_contents h hss
    rw [← hlog, ← hlive]
    exact (hkeeps s ss hss).1
  · intro horder s ss hss
    have hs := h.lt_shardCount hss
    have hrep := (h.shard s ss hss).1
    obtain ⟨hlog, hlive⟩ := overlap_contents h hss
    have hsame : ss.wal.replay.1.map WALEntry.vec = ss.index.vectors := by
      rw [hlog, hlive, horder s hs]
    refine ⟨hsame, ?_⟩
    intro rng fresh hnew
    have hstores := HNSWIndex.new_stores hnew
    have hroom : HNSWIndex.Storable dep.cfg
        (([] : List (Vec dep.Dim)).length +
          (ss.wal.replay.1.map WALEntry.vec).length) := by
      rw [hsame, hrep.index.vectors_eq, List.length_nil, Nat.zero_add]
      exact hrep.index.storable
    obtain ⟨index, hreplay⟩ := hstores.insertAll_ok dep.rt hroom
    refine ⟨index, hreplay, ?_⟩
    intro i n hmem
    apply HNSWIndex.getVector_eq_ok.mpr
    rw [(hstores.insertAll_eq_ok dep.rt hreplay).vectors_eq, List.nil_append,
      hsame, hrep.index.vectors_eq]
    exact houts i s n hmem

theorem Refines.overlap_ok (h : Refines dep ring states m)
    (calls : ι → UInt64 × Vec dep.Dim) (steps : List (CallStep ι))
    (hentry : WAL.entrySize dep.Dim ≤ WAL.growSize)
    (hMmax0 : 0 ≤ dep.cfg.Mmax0.toInt)
    (hlive : ∀ s, (states s).live.length + steps.length < 2 ^ 32)
    (hlog : ∀ s, (states s).log.length + steps.length < 2 ^ 33) :
    ∃ outs m', m.overlap OS.reliable dep.rt calls steps =
      .ok (outs, m') := by
  induction steps generalizing m states with
  | nil => exact ⟨[], m, rfl⟩
  | cons step steps ih =>
      simp only [List.length_cons] at hlive hlog
      obtain ⟨s, hs, hlt⟩ := h.getShard_lt (calls step.call).1
      obtain ⟨ss, hss⟩ := h.getElem? hlt
      have hliveS := hlive s
      have hlogS := hlog s
      obtain ⟨out, ss', hone⟩ := (h.shard s ss hss).1.callStep_ok dep.rt calls
        hentry (by omega) ⟨by omega, fun _ => hMmax0⟩ step
      have hstep : ∃ out m₁, m.callStep OS.reliable dep.rt calls step =
          .ok (out, m₁) := by
        rw [ShardManager.callStep, h.ring_eq, hs, except_bind_ok]
        simp only [hss, hone, except_bind_ok]
        exact ⟨_, _, rfl⟩
      obtain ⟨out, m₁, hstep⟩ := hstep
      obtain ⟨h₁, _⟩ := h.callStep_eq_ok hstep
      have hgrows : ∀ t,
          (overlapped ring calls t [step] (states t)).live.length ≤
              (states t).live.length + 1 ∧
            (overlapped ring calls t [step] (states t)).log.length ≤
              (states t).log.length + 1 := by
        intro t
        have hsub : (stepsOn ring calls t [step]).length ≤ 1 :=
          List.length_filter_le ..
        have hindexes := List.length_filterMap_le CallStep.indexed?
          (stepsOn ring calls t [step])
        have happends := List.length_filterMap_le CallStep.appended?
          (stepsOn ring calls t [step])
        rw [overlapped_live, overlapped_log, List.length_append,
          List.length_append, List.length_map, List.length_map]
        unfold indexOrder appendOrder
        omega
      obtain ⟨outs, m', hrest⟩ := ih h₁
        (fun t => by
          have hliveT := hlive t
          have hgrowsT := (hgrows t).1
          omega)
        (fun t => by
          have hlogT := hlog t
          have hgrowsT := (hgrows t).2
          omega)
      refine ⟨out ++ outs, m', ?_⟩
      rw [ShardManager.overlap, hstep, except_bind_ok]
      dsimp only
      rw [hrest]
      rfl

end Manager

/-! ### Two calls that cross -/

def twoCalls : Bool → UInt64 × Vec oneShard.Dim
  | false => (7, Vec.ofBytes _ [1, 0, 0, 0])
  | true => (8, Vec.ofBytes _ [2, 0, 0, 0])

/-- The second call enters the index between the steps of the first. -/
def crossing : List (CallStep Bool) :=
  [.append false, .append true, .index true, .index false]

theorem crossing_interleaves : Interleaves crossing where
  nodup := by decide
  appends := by decide
  indexes := by decide
  ordered := by decide

theorem crossing_swaps_ids :
    ∃ m₀ outs m, oneShard.start OS.reliable (fun _ _ => 0)
        (fun _ => ShardState.noFiles) = .ok m₀ ∧
      m₀.overlap OS.reliable oneShard.rt twoCalls crossing =
        .ok (outs, m) ∧
      Interleaves crossing ∧ ¬ ReplayKeepsIds oneShard twoCalls outs m := by
  obtain ⟨m₀, hstart⟩ := oneShard_start fun _ _ => 0
  obtain ⟨outs, m, hrun⟩ := (start_fresh hstart).overlap_ok
    twoCalls crossing oneShard_entrySize (by decide)
    (fun s => by simp [empty, crossing]) (fun s => by simp [empty, crossing])
  obtain ⟨h, _⟩ := (start_fresh hstart).overlap_eq_ok hrun
  obtain ⟨ss, hss⟩ := h.getElem? (show 0 < oneShard.shardCount.toNat by decide)
  obtain ⟨hlog, hlive⟩ := overlap_contents h hss
  have hall : stepsOn m₀.ring twoCalls 0 crossing = crossing := by
    apply List.filter_eq_self.mpr
    intro step _
    simp [oneShard_getShard h]
  rw [hall] at hlog hlive
  refine ⟨m₀, outs, m, hstart, hrun, crossing_interleaves, ?_⟩
  intro hkeeps
  have hsame := (hkeeps 0 ss hss).1
  rw [hlog, hlive] at hsame
  exact absurd hsame (by decide)

theorem replay_keeps_ids_in_turn :
    ∃ m₀ outs m, oneShard.start OS.reliable (fun _ _ => 0)
        (fun _ => ShardState.noFiles) = .ok m₀ ∧
      m₀.overlap OS.reliable oneShard.rt twoCalls
        [.append false, .index false, .append true, .index true] =
        .ok (outs, m) ∧
      ReplayKeepsIds oneShard twoCalls outs m := by
  obtain ⟨m₀, hstart⟩ := oneShard_start fun _ _ => 0
  obtain ⟨outs, m, hrun⟩ := (start_fresh hstart).overlap_ok twoCalls
    [.append false, .index false, .append true, .index true]
    oneShard_entrySize (by decide) (fun s => by simp [empty])
    (fun s => by simp [empty])
  obtain ⟨h, _⟩ := (start_fresh hstart).overlap_eq_ok hrun
  refine ⟨m₀, outs, m, hstart, hrun, (replay_keeps_ids_iff hstart hrun).mpr ?_⟩
  intro s hs
  have hall : stepsOn m.ring twoCalls s
      [.append false, .index false, .append true, .index true] =
      [.append false, .index false, .append true, .index true] := by
    apply List.filter_eq_self.mpr
    intro step _
    have hcount : oneShard.shardCount.toNat = 1 := rfl
    rw [h.ring_eq]
    simp [oneShard_getShard h, show s = 0 by omega]
  rw [hall]
  rfl

end Deployment
end VecDB
