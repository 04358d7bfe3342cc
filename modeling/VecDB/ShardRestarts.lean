import VecDB.ShardRecovery
import Mathlib.Tactic

/-!
# Runs with restarts

Inserts, snapshots and restarts in any order, each restart loading what an
earlier snapshot left.  A snapshot that finds the checkpoint at the end of a
log keeps the log although its vectors are saved, and the next restart
replays them a second time.
-/

namespace VecDB
namespace Deployment

open LoggedStore

section Predicates

variable {D : Type} [Preorder D] [DecidableLT D] (dep : Deployment D)

/-- Every restart loads, and comes after a snapshot. -/
def LoadsSnapshots (ops : List (ShardManager.Op dep.Dim)) : Prop :=
  ∀ before load rngs after, ops = before ++ .restart load rngs :: after →
    load = true ∧ ∃ ns, .snapshotAll ns ∈ before

/-- Every restart that the run reaches comes up, with exactly the vectors that
were inserted before. -/
def RestartsExact (rngs₀ : ℕ → ℕ → ℕ)
    (ops : List (ShardManager.Op dep.Dim)) : Prop :=
  ∀ before rngs after m, ops = before ++ .restart true rngs :: after →
    dep.runFresh OS.reliable rngs₀ before = .ok m →
    ∃ m', dep.restart OS.reliable true rngs m = .ok m' ∧
      HoldsRouted m.ring (insertCalls before) m' ∧
      m'.totalVectors = (insertCalls before).length

/-- The last snapshot before every restart that the run reaches finds each log
empty, or with entries behind its checkpoint. -/
def SnapshotsCut (rngs₀ : ℕ → ℕ → ℕ)
    (ops : List (ShardManager.Op dep.Dim)) : Prop :=
  ∀ before ns middle rngs after m m',
    ops = (before ++ .snapshotAll ns :: middle) ++
      .restart true rngs :: after →
    (∀ ns', .snapshotAll ns' ∉ middle) →
    dep.runFresh OS.reliable rngs₀ before = .ok m →
    dep.runFresh OS.reliable rngs₀ (before ++ .snapshotAll ns :: middle) =
      .ok m' →
    ∀ ss ∈ m.shards,
      ss.wal.nextLsn = 0 ∨ ss.wal.checkpointLsn < ss.wal.nextLsn

end Predicates

section Split

variable {dim : UInt32} {ring : ConsistentHashRing} {s : ℕ}

theorem exists_last_snapshot {ops : List (ShardManager.Op dim)}
    {ns : ℕ → ℕ} (hmem : .snapshotAll ns ∈ ops) :
    ∃ before ns' middle, ops = before ++ .snapshotAll ns' :: middle ∧
      ∀ ns'', .snapshotAll ns'' ∉ middle := by
  induction ops using List.reverseRecOn with
  | nil => simp at hmem
  | append_singleton ops op ih =>
      rcases List.mem_append.mp hmem with hold | hlast
      · by_cases hsnap : ∃ ns', op = .snapshotAll ns'
        · obtain ⟨ns', rfl⟩ := hsnap
          exact ⟨ops, ns', [], rfl, by simp⟩
        · obtain ⟨before, ns', middle, rfl, hnone⟩ := ih hold
          refine ⟨before, ns', middle ++ [op], by simp, ?_⟩
          intro ns'' hmem''
          rcases List.mem_append.mp hmem'' with hmiddle | hop
          · exact hnone ns'' hmiddle
          · exact hsnap ⟨ns'', (List.mem_singleton.mp hop).symm⟩
      · rw [← List.mem_singleton.mp hlast]
        exact ⟨ops, ns, [], rfl, by simp⟩

theorem request_insert {vectorId : UInt64} {vec : Vec dim}
    {r : Request (UInt64 × Vec dim)}
    (hr : request ring s (.insert vectorId vec) = some r) :
    r = .insert (vectorId, vec) := by
  unfold request at hr
  dsimp only at hr
  split_ifs at hr
  exact (Option.some.inj hr).symm

theorem requests_split {ops : List (ShardManager.Op dim)}
    {before after : List (Request (UInt64 × Vec dim))} {load : Bool}
    (hsplit : requests ring s ops = before ++ .restart load :: after) :
    ∃ opsBefore rngs opsAfter,
      ops = opsBefore ++ .restart load rngs :: opsAfter ∧
        requests ring s opsBefore = before := by
  unfold requests at hsplit ⊢
  obtain ⟨first, rest, rfl, hfirst, hrest⟩ :=
    List.filterMap_eq_append_iff.mp hsplit
  obtain ⟨skipped, op, opsAfter, rfl, hskipped, hop, _⟩ :=
    List.filterMap_eq_cons_iff.mp hrest
  have hrestart : ∃ rngs, op = .restart load rngs := by
    cases op with
    | insert vectorId vec => cases request_insert hop
    | snapshotAll ns => cases hop
    | restart load' rngs =>
        cases hop
        exact ⟨rngs, rfl⟩
  obtain ⟨rngs, rfl⟩ := hrestart
  refine ⟨first ++ skipped, rngs, opsAfter, by simp, ?_⟩
  rw [List.filterMap_append, hfirst, List.filterMap_eq_nil_iff.mpr hskipped,
    List.append_nil]

theorem compact_mem_requests {ops : List (ShardManager.Op dim)} :
    .compact ∈ requests ring s ops ↔ ∃ ns, .snapshotAll ns ∈ ops := by
  unfold requests
  rw [List.mem_filterMap]
  constructor
  · rintro ⟨op, hop, hrequest⟩
    cases op with
    | insert vectorId vec => cases request_insert hrequest
    | snapshotAll ns => exact ⟨ns, hop⟩
    | restart load rngs => cases hrequest
  · rintro ⟨ns, hop⟩
    exact ⟨_, hop, rfl⟩

end Split

section Restarts

variable {D : Type} [Preorder D] [DecidableLT D] {dep : Deployment D}
  {rngs₀ : ℕ → ℕ → ℕ} {ops : List (ShardManager.Op dep.Dim)}
  {m : ShardManager dep.Dim} {s : ℕ}

theorem LoadsSnapshots.guarded (h : LoadsSnapshots dep ops)
    (ring : ConsistentHashRing) (s : ℕ) : Guarded (requests ring s ops) := by
  intro before load after hsplit
  obtain ⟨opsBefore, rngs, opsAfter, hops, rfl⟩ := requests_split hsplit
  obtain ⟨hload, hsnap⟩ := h opsBefore load rngs opsAfter hops
  exact ⟨hload, compact_mem_requests.mpr hsnap⟩

theorem LoadsSnapshots.append {more : List (ShardManager.Op dep.Dim)}
    (h : LoadsSnapshots dep (ops ++ more)) : LoadsSnapshots dep ops := by
  intro before load rngs after hsplit
  apply h before load rngs (after ++ more)
  simp [hsplit]

theorem RestartsExact.append {more : List (ShardManager.Op dep.Dim)}
    (h : RestartsExact dep rngs₀ (ops ++ more)) :
    RestartsExact dep rngs₀ ops := by
  intro before rngs after m hsplit
  apply h before rngs (after ++ more) m
  simp [hsplit]

theorem SnapshotsCut.append {more : List (ShardManager.Op dep.Dim)}
    (h : SnapshotsCut dep rngs₀ (ops ++ more)) :
    SnapshotsCut dep rngs₀ ops := by
  intro before ns middle rngs after m m' hsplit
  apply h before ns middle rngs (after ++ more) m m'
  simp [hsplit]

/-- The histories before a restart, stale entries or not: what was logged
behind the last snapshot is what the run inserted since. -/
theorem restart_live_iff {before : List (ShardManager.Op dep.Dim)}
    (hguard : LoadsSnapshots dep before) (hsnap : ∃ ns, .snapshotAll ns ∈ before)
    (hstale : NoneStale 1000 Prod.snd (requests m.ring s before)) :
    (serve 1000 Prod.snd [.restart true] (history m.ring s before)).live =
        (routedTo m.ring s (insertCalls before)).map Prod.snd ↔
      (history m.ring s before).stale = [] := by
  have hsynced := hstale.synced (hguard.guarded m.ring s)
  rw [inserted_requests] at hsynced
  apply hsynced.restart_live
  exact serve_saved_isSome 1000 Prod.snd (compact_mem_requests.mpr hsnap) empty

theorem restart_fresh {before : List (ShardManager.Op dep.Dim)}
    (hrun : dep.runFresh OS.reliable rngs₀ before = .ok m)
    (hguard : LoadsSnapshots dep before)
    (hsnap : ∃ ns, .snapshotAll ns ∈ before)
    (hnone : ∀ s < dep.shardCount.toNat,
      NoneStale 1000 Prod.snd (requests m.ring s before) ∧
        (history m.ring s before).stale = []) (rngs : ℕ → ℕ → ℕ) :
    ∃ m', dep.restart OS.reliable true rngs m = .ok m' ∧
      HoldsRouted m.ring (insertCalls before) m' ∧
      m'.totalVectors = (insertCalls before).length := by
  have h := runFresh_eq_ok hrun
  obtain ⟨m', hrestart⟩ := h.restart_ok true rngs (fun s hs vecs hvecs => by
    obtain ⟨hstale, hlast⟩ := hnone s hs
    obtain ⟨hlive, recent, hlog, hvalues⟩ :=
      hstale.synced (hguard.guarded m.ring s)
    obtain ⟨ss, hss⟩ := h.getElem? hs
    have hstorable := (h.shard s ss hss).1.index.storable
    change (history m.ring s before).live = _ at hlive
    change (history m.ring s before).log = _ at hlog
    change _ = (history m.ring s before).saved.getD [] ++ _ at hvalues
    change (history m.ring s before).stale = [] at hlast
    rw [hlive, hvalues, hvecs] at hstorable
    change (history m.ring s before).log =
      (history m.ring s before).stale ++ recent at hlog
    rw [hlog, hlast]
    simpa using hstorable)
  have h' := h.restart_eq_ok hrestart
  have hlive : ∀ s < dep.shardCount.toNat,
      (serve 1000 Prod.snd [.restart true] (history m.ring s before)).live =
        (routedTo m.ring s (insertCalls before)).map Prod.snd := by
    intro s hs
    obtain ⟨hstale, hlast⟩ := hnone s hs
    exact (restart_live_iff hguard hsnap hstale).mpr hlast
  refine ⟨m', hrestart, (h'.holdsRouted_iff _).mpr hlive, ?_⟩
  apply h'.totalVectors_eq
  intro s hs
  rw [hlive s hs, List.length_map]

theorem SnapshotsCut.stale_eq_nil {before after : List (ShardManager.Op dep.Dim)}
    {rngs : ℕ → ℕ → ℕ} (h : SnapshotsCut dep rngs₀ ops)
    (hops : ops = before ++ .restart true rngs :: after)
    (hrun : dep.runFresh OS.reliable rngs₀ before = .ok m)
    (hsnap : ∃ ns, .snapshotAll ns ∈ before)
    (hs : s < dep.shardCount.toNat) :
    (history m.ring s before).stale = [] := by
  obtain ⟨ns, hmem⟩ := hsnap
  obtain ⟨first, ns', middle, rfl, hmiddle⟩ := exists_last_snapshot hmem
  obtain ⟨m₁, hfirst⟩ := runFresh_prefix hrun
  have hrefines := runFresh_eq_ok hfirst
  have hring := hrefines.ring_unique (runFresh_eq_ok hrun)
  have hcuts := h first ns' middle rngs after m₁ m hops hmiddle hfirst hrun
  obtain ⟨ss, hss⟩ := hrefines.getElem? hs
  have hrep := (hrefines.shard s ss hss).1
  have hcut := hcuts ss (List.mem_of_getElem? hss)
  rw [hrep.log.holds.next, hrep.mark] at hcut
  have hnone : .compact ∉ requests m.ring s middle := by
    rw [compact_mem_requests]
    rintro ⟨ns'', hns⟩
    exact hmiddle ns'' hns
  have hcons : requests m.ring s (.snapshotAll ns' :: middle) =
      [.compact] ++ requests m.ring s middle := rfl
  rw [history_append, hcons, serve_append, serve_stale hnone, compact_stale,
    hring]
  exact hcut.imp List.length_eq_zero_iff.mp id

theorem SnapshotsCut.noneStale (h : SnapshotsCut dep rngs₀ ops)
    (hguard : LoadsSnapshots dep ops)
    (hrun : dep.runFresh OS.reliable rngs₀ ops = .ok m)
    (hs : s < dep.shardCount.toNat) :
    NoneStale 1000 Prod.snd (requests m.ring s ops) := by
  intro before after hsplit
  obtain ⟨opsBefore, rngs, opsAfter, rfl, rfl⟩ := requests_split hsplit
  obtain ⟨m₁, hbefore⟩ := runFresh_prefix hrun
  have hring := (runFresh_eq_ok hbefore).ring_unique (runFresh_eq_ok hrun)
  rw [hring]
  exact h.stale_eq_nil rfl hbefore (hguard opsBefore true rngs opsAfter rfl).2
    hs

theorem RestartsExact.exact (h : RestartsExact dep rngs₀ ops)
    {ring : ConsistentHashRing}
    (hreach : ∀ before rngs after,
      ops = before ++ .restart true rngs :: after →
      ∃ m, dep.runFresh OS.reliable rngs₀ before = .ok m ∧ m.ring = ring)
    (hs : s < dep.shardCount.toNat) :
    Exact 1000 Prod.snd (requests ring s ops) := by
  intro before after hsplit
  obtain ⟨opsBefore, rngs, opsAfter, hops, rfl⟩ := requests_split hsplit
  obtain ⟨m, hbefore, rfl⟩ := hreach opsBefore rngs opsAfter hops
  obtain ⟨m', hrestart, hholds, _⟩ := h opsBefore rngs opsAfter m hops hbefore
  have h' := (runFresh_eq_ok hbefore).restart_eq_ok hrestart
  rw [inserted_requests, serve_append]
  exact (h'.holdsRouted_iff _).mp hholds s hs

/-- Restarts are exact if and only if the last snapshot before each of them
found every log empty or with entries behind its checkpoint. -/
theorem restarts_exact_iff (hguard : LoadsSnapshots dep ops) :
    RestartsExact dep rngs₀ ops ↔ SnapshotsCut dep rngs₀ ops := by
  constructor
  · intro hexact before ns middle rngs after m₁ m hops hmiddle hfirst hrun
      ss hmem
    obtain ⟨s, hss⟩ := List.mem_iff_getElem?.mp hmem
    have hrefines := runFresh_eq_ok hfirst
    have hring := hrefines.ring_unique (runFresh_eq_ok hrun)
    have hs := hrefines.lt_shardCount hss
    -- the run up to and including this restart
    have hthis : ops = ((before ++ .snapshotAll ns :: middle) ++
        [.restart true rngs]) ++ after := by simp [hops]
    rw [hthis] at hguard hexact
    have hreach : ∀ first rngs' rest,
        (before ++ .snapshotAll ns :: middle) ++ [.restart true rngs] =
          first ++ .restart true rngs' :: rest →
        ∃ m', dep.runFresh OS.reliable rngs₀ first = .ok m' ∧
          m'.ring = m.ring := by
      intro first rngs' rest hsplit
      have hinit : ∃ more, before ++ .snapshotAll ns :: middle =
          first ++ more := by
        rcases List.eq_nil_or_concat rest with rfl | ⟨init, last, rfl⟩
        · exact ⟨[], by simpa using (List.append_inj' hsplit rfl).1⟩
        · rw [List.concat_eq_append, ← List.cons_append,
            ← List.append_assoc] at hsplit
          exact ⟨_, (List.append_inj' hsplit rfl).1⟩
      obtain ⟨more, hmore⟩ := hinit
      rw [hmore] at hrun
      obtain ⟨m', hfirst'⟩ := runFresh_prefix hrun
      exact ⟨m', hfirst',
        ((runFresh_eq_ok hfirst').ring_unique (runFresh_eq_ok hrun)).symm⟩
    have hnone := (exact_iff (hguard.append.guarded m.ring s)).mp
      (hexact.append.exact hreach hs)
    have hstale := hnone
      (requests m.ring s (before ++ .snapshotAll ns :: middle)) [] (by
        rw [requests_append]
        rfl)
    change (history m.ring s _).stale = [] at hstale
    have hcompact : .compact ∉ requests m.ring s middle := by
      rw [compact_mem_requests]
      rintro ⟨ns', hns⟩
      exact hmiddle ns' hns
    have hcons : requests m.ring s (.snapshotAll ns :: middle) =
        [.compact] ++ requests m.ring s middle := rfl
    rw [history_append, hcons, serve_append, serve_stale hcompact,
      compact_stale, hring] at hstale
    have hrep := (hrefines.shard s ss hss).1
    rw [hrep.log.holds.next, hrep.mark]
    exact hstale.imp List.length_eq_zero_iff.mpr id
  · intro hcuts before rngs after m hops hrun
    obtain ⟨_, hsnap⟩ := hguard before true rngs after hops
    have hstale : ∀ s < dep.shardCount.toNat,
        (history m.ring s before).stale = [] :=
      fun s hs => hcuts.stale_eq_nil hops hrun hsnap hs
    rw [hops] at hguard hcuts
    exact restart_fresh hrun hguard.append hsnap
      (fun s hs => ⟨hcuts.append.noneStale hguard.append hrun hs,
        hstale s hs⟩) rngs

end Restarts

/-! ## A log that ends at its checkpoint -/

/-- Inserts and a snapshot. -/
def insertsAndSnapshot (calls : List (UInt64 × Vec oneShard.Dim)) :
    List (ShardManager.Op oneShard.Dim) :=
  (calls.map fun call => .insert call.1 call.2) ++ [.snapshotAll fun _ => 0]

section FullPeriod

variable {calls : List (UInt64 × Vec oneShard.Dim)}

theorem insertCalls_insertsAndSnapshot :
    insertCalls (insertsAndSnapshot calls) = calls := by
  unfold insertCalls insertsAndSnapshot
  rw [List.filterMap_append, List.filterMap_map]
  have hcalls : (insertCall ∘ fun call : UInt64 × Vec oneShard.Dim =>
      ShardManager.Op.insert call.1 call.2) = some := rfl
  rw [hcalls, List.filterMap_some]
  exact List.append_nil calls

theorem insertsAndSnapshot_loads (rngs : ℕ → ℕ → ℕ) :
    LoadsSnapshots oneShard
      (insertsAndSnapshot calls ++ [.restart true rngs]) := by
  intro before load rngs' after hsplit
  rcases List.eq_nil_or_concat after with rfl | ⟨init, last, rfl⟩
  · obtain ⟨rfl, hlast⟩ := List.append_inj' hsplit rfl
    cases hlast
    exact ⟨rfl, _, List.mem_append_right _ List.mem_cons_self⟩
  · rw [List.concat_eq_append, ← List.cons_append,
      ← List.append_assoc] at hsplit
    have hinit := (List.append_inj' hsplit rfl).1
    have hmem : .restart load rngs' ∈ insertsAndSnapshot calls := by
      rw [hinit]
      exact List.mem_append_right _ List.mem_cons_self
    unfold insertsAndSnapshot at hmem
    simp at hmem

theorem restarts_exact_iff_insert :
    LoadsSnapshots oneShard (insertsAndSnapshot
        [(7, Vec.ofBytes _ [1, 0, 0, 0])] ++ [.restart true fun _ _ => 0]) ∧
      (RestartsExact oneShard (fun _ _ => 0) (insertsAndSnapshot
          [(7, Vec.ofBytes _ [1, 0, 0, 0])] ++ [.restart true fun _ _ => 0]) ↔
        SnapshotsCut oneShard (fun _ _ => 0) (insertsAndSnapshot
          [(7, Vec.ofBytes _ [1, 0, 0, 0])] ++ [.restart true fun _ _ => 0])) :=
  ⟨insertsAndSnapshot_loads _, restarts_exact_iff (insertsAndSnapshot_loads _)⟩

theorem insertsAndSnapshot_run (hlength : calls.length = 1000) :
    ∃ m, oneShard.runFresh OS.reliable (fun _ _ => 0)
      (insertsAndSnapshot calls) = .ok m := by
  obtain ⟨m₀, hstart⟩ := oneShard_start fun _ _ => 0
  obtain ⟨outs, m₁, hinserts⟩ := (start_fresh hstart).insertEach_ok
    oneShard_entrySize (by decide) calls (fun s => by simp [empty, hlength])
    (fun s => by simp [empty, hlength])
  have hrun := insertEach_run hinserts
  obtain ⟨m, hsnap⟩ := ((start_fresh hstart).run_eq_ok hrun).snapshotAll_ok
    (by decide) fun _ => 0
  refine ⟨m, ?_⟩
  unfold runFresh insertsAndSnapshot
  rw [hstart, except_bind_ok, run_append, hrun, except_bind_ok]
  simp only [run, step, hsnap, except_bind_ok]

theorem insertsAndSnapshot_history (hlength : calls.length = 1000)
    {ring : ConsistentHashRing} (hroute : routedTo ring 0 calls = calls) :
    (history ring 0 (insertsAndSnapshot calls)).saved =
        some (calls.map Prod.snd) ∧
      (history ring 0 (insertsAndSnapshot calls)).log = calls := by
  obtain ⟨hlive, hlog, _⟩ := serve_inserts 1000 Prod.snd calls empty
  have hmark := (serve_inserts_mark 1000 Prod.snd (by norm_num) calls).1
  unfold history insertsAndSnapshot
  rw [requests_append, requests_inserts, hroute]
  have hcons : requests ring 0
      ([.snapshotAll fun _ => 0] : List (ShardManager.Op oneShard.Dim)) =
      [.compact] := rfl
  rw [hcons, serve_append, serve_compact]
  have hkept : ¬ (serve 1000 Prod.snd (calls.map .insert) empty).save.mark <
      (serve 1000 Prod.snd (calls.map .insert) empty).save.log.length := by
    unfold save
    dsimp only
    rw [hmark, hlog, hlength]
    simp [empty, hlength]
  refine ⟨?_, ?_⟩
  · rw [truncate_saved, save, hlive]
    rfl
  · unfold truncate
    rw [if_neg hkept, save, hlog]
    rfl

theorem full_period_duplicated (hlength : calls.length = 1000) :
    ∃ m m', oneShard.runFresh OS.reliable (fun _ _ => 0)
        (insertsAndSnapshot calls) = .ok m ∧
      oneShard.restart OS.reliable true (fun _ _ => 0) m = .ok m' ∧
      m'.totalVectors = 2000 := by
  obtain ⟨m, hrun⟩ := insertsAndSnapshot_run hlength
  have h := runFresh_eq_ok hrun
  obtain ⟨hsaved, hlog⟩ :=
    insertsAndSnapshot_history hlength (oneShard_routedTo h calls)
  have hone : ∀ s, s < oneShard.shardCount.toNat → s = 0 := by
    intro s hs
    have hcount : oneShard.shardCount.toNat = 1 := rfl
    omega
  obtain ⟨m', hrestart⟩ := h.restart_ok true (fun _ _ => 0)
    (fun s hs vecs hvecs => by
      obtain rfl := hone s hs
      rw [hsaved] at hvecs
      cases hvecs
      rw [hlog, List.length_map, hlength]
      exact ⟨by norm_num, fun _ => by decide⟩)
  have h' := h.restart_eq_ok hrestart
  have hlive : (serve 1000 Prod.snd [.restart true]
      (history m.ring 0 (insertsAndSnapshot calls))).live =
      calls.map Prod.snd ++ calls.map Prod.snd := by
    rw [serve_restart_load, load_of_some (by exact hsaved)]
    simp only [reopen, hlog]
  refine ⟨m, m', hrun, hrestart, ?_⟩
  have hboth : m'.totalVectors = (calls ++ calls).length := by
    apply h'.totalVectors_eq
    intro s hs
    obtain rfl := hone s hs
    rw [oneShard_routedTo h (calls ++ calls), hlive]
    simp
  rw [hboth, List.length_append, hlength]

end FullPeriod

/-- A thousand inserts, a snapshot and a restart give two thousand vectors. -/
theorem thousand_inserts_duplicated :
    ∃ ops : List (ShardManager.Op oneShard.Dim),
      ops = insertsAndSnapshot
          (List.replicate 1000 (7, Vec.ofBytes _ [1, 0, 0, 0])) ++
        [.restart true fun _ _ => 0] ∧
      LoadsSnapshots oneShard ops ∧
      ¬ RestartsExact oneShard (fun _ _ => 0) ops := by
  refine ⟨_, rfl, insertsAndSnapshot_loads _, ?_⟩
  intro hexact
  have hlength : (List.replicate 1000 ((7, Vec.ofBytes _ [1, 0, 0, 0]) :
      UInt64 × Vec oneShard.Dim)).length = 1000 := List.length_replicate
  obtain ⟨m, m', hrun, hrestart, htotal⟩ := full_period_duplicated hlength
  obtain ⟨m'', hrestart', _, htotal'⟩ := hexact _ (fun _ _ => 0) [] m rfl hrun
  rw [hrestart, Except.ok.injEq] at hrestart'
  rw [← hrestart', htotal, insertCalls_insertsAndSnapshot,
    List.length_replicate] at htotal'
  omega

end Deployment
end VecDB
