import VecDB.ShardConcurrency
import Mathlib.Tactic

/-!
# A snapshot while calls are running

The save and the truncation of a snapshot are two atomic steps.  Calls may
take their steps before, between and behind them.
-/

namespace VecDB

open LoggedStore

namespace ShardState

variable {ι : Type} {dim : UInt32} {D : Type} [Preorder D] [DecidableLT D]

/-- Steps of calls that this shard owns, as they are scheduled. -/
def overlap (os : OS) (rt : Runtime (Vec dim) D)
    (calls : ι → UInt64 × Vec dim) :
    List (CallStep ι) → ShardState dim → Except Failure (ShardState dim)
  | [], ss => .ok ss
  | step :: steps, ss => do
      let (_, ss) ← ss.callStep os rt calls step
      overlap os rt calls steps ss

end ShardState

namespace Represents

variable {ι : Type} {D : Type} [Preorder D] [DecidableLT D]
  {cfg : HNSWConfig} {a : Stored cfg.dim.toUInt32}
  {ss ss' : ShardState cfg.dim.toUInt32} {os : OS}
  {rt : Runtime (Vec cfg.dim.toUInt32) D}
  {calls : ι → UInt64 × Vec cfg.dim.toUInt32}

theorem overlap_eq_ok {steps : List (CallStep ι)} (h : Represents cfg a ss)
    (hok : ss.overlap os rt calls steps = .ok ss') :
    Represents cfg
      (run 1000 Prod.snd (steps.map (CallStep.action calls)) a) ss' := by
  induction steps generalizing a ss with
  | nil =>
      cases hok
      exact h
  | cons step steps ih =>
      rw [ShardState.overlap, except_bind_eq_ok] at hok
      obtain ⟨⟨out, ss₁⟩, hstep, hok⟩ := hok
      exact ih (h.callStep_eq_ok hstep).1 hok

theorem recover_iff (rt : Runtime (Vec cfg.dim.toUInt32) D)
    (h : Represents cfg a ss) {vecs : List (Vec cfg.dim.toUInt32)}
    (hsaved : a.saved = some vecs) (rng : ℕ → ℕ) (shardId : ℕ)
    (dataDir : String) (P : List (Vec cfg.dim.toUInt32) → Prop) :
    (∃ fresh ss', ShardState.new OS.reliable cfg rng ss.close shardId =
          .ok fresh ∧
        fresh.load OS.reliable rt dataDir = .ok ss' ∧ P ss'.index.vectors) ↔
      HNSWIndex.Storable cfg (vecs.length + a.log.length) ∧
        P (vecs ++ a.log.map Prod.snd) := by
  have hload : a.reopen.load Prod.snd = { a.reopen with
      live := vecs ++ a.log.map Prod.snd
      unread := [] } := load_of_some (by exact hsaved)
  constructor
  · rintro ⟨fresh, ss', hnew, hloaded, hP⟩
    obtain ⟨hfresh, hindex, _⟩ := h.reopen_eq_ok hnew
    have hrep := (hfresh.load_eq_ok hindex hloaded).1
    rw [hload] at hrep
    have hstorable := hrep.index.storable
    rw [hrep.index.vectors_eq] at hP
    refine ⟨?_, hP⟩
    simpa using hstorable
  · rintro ⟨hroom, hP⟩
    obtain ⟨fresh, hnew⟩ := h.reopen_ok rng shardId
    obtain ⟨hfresh, hindex, _⟩ := h.reopen_eq_ok hnew
    obtain ⟨ss', hloaded⟩ := hfresh.load_ok rt hindex dataDir
      (fun values hvalues => by
        have hsame : a.saved = some values := hvalues
        rw [hsaved] at hsame
        cases hsame
        exact hroom)
    have hrep := (hfresh.load_eq_ok hindex hloaded).1
    rw [hload] at hrep
    refine ⟨fresh, ss', hnew, hloaded, ?_⟩
    rw [hrep.index.vectors_eq]
    exact hP

end Represents

namespace Deployment

variable {ι : Type} {D : Type} [Preorder D] [DecidableLT D]
  {dep : Deployment D} {os : OS} {rngs₀ : ℕ → ℕ → ℕ}
  {before : List (ShardManager.Op dep.Dim)} {m : ShardManager dep.Dim}
  {calls : ι → UInt64 × Vec dep.Dim} {first middle last : List (CallStep ι)}
  {s ns : ℕ} {ss ss₁ ss₂ ss₃ ss₄ ss₅ : ShardState dep.Dim}

/-- A new manager recovers what shard `s` held before, and every call. -/
def RecoversCalls (dep : Deployment D) (calls : ι → UInt64 × Vec dep.Dim)
    (s : ℕ) (earlier : List (Vec dep.Dim)) (ss : ShardState dep.Dim) : Prop :=
  ∀ rng, ∃ fresh ss', ShardState.new OS.reliable dep.cfg rng ss.close s =
      .ok fresh ∧
    fresh.load OS.reliable dep.rt dep.dataDir = .ok ss' ∧
    (∀ vec ∈ earlier, vec ∈ ss'.index.vectors) ∧
    ∀ i, (calls i).2 ∈ ss'.index.vectors

/-- Calls that append before the truncation and enter the index behind the
save have their vectors in the snapshot or in the log by another call. -/
def CrossersCovered (calls : ι → UInt64 × Vec dep.Dim)
    (first last : List (CallStep ι)) (earlier : List (Vec dep.Dim)) : Prop :=
  ∀ i, .append i ∉ last → .index i ∉ first →
    (calls i).2 ∈ earlier ∨ ∃ j, (calls j).2 = (calls i).2 ∧
      (.index j ∈ first ∨ .append j ∈ last)

theorem index_mem_of_append_mem {steps : List (CallStep ι)} {i : ι}
    (hsteps : Interleaves (steps ++ last)) (hi : .append i ∈ last) :
    .index i ∈ last := by
  obtain ⟨l, l', hsplit, hl, hl'⟩ :=
    List.sublist_append_iff.mp (hsteps.ordered i)
  have hbefore : .append i ∉ steps := fun hmem =>
    (List.nodup_append.mp hsteps.nodup).2.2 _ hmem _ hi rfl
  cases l with
  | nil =>
      apply hl'.subset
      rw [← List.nil_append l', ← hsplit]
      simp
  | cons step l =>
      rw [List.cons_append, List.cons.injEq] at hsplit
      exact absurd (hl.subset (by rw [← hsplit.1]; simp)) hbefore

/-- The entries behind a truncation are of calls that enter the index behind
it. -/
theorem appendOrder_length_le {steps : List (CallStep ι)}
    (hsteps : Interleaves (steps ++ last)) :
    (appendOrder last).length ≤ (indexOrder last).length := by
  have hnodup : (appendOrder last).Nodup := by
    apply List.Nodup.filterMap _ (List.nodup_append.mp hsteps.nodup).2.1
    intro step step' i hi hi'
    cases step with
    | append j =>
        cases step' with
        | append k =>
            cases hi
            cases hi'
            rfl
        | index k => cases hi'
    | index j => cases hi
  have hsub : appendOrder last ⊆ indexOrder last := by
    intro i hi
    exact mem_indexOrder.mpr
      (index_mem_of_append_mem hsteps (mem_appendOrder.mp hi))
  exact (hnodup.subperm hsub).length_le

/-- A snapshot of the first steps with the entries of the last steps has the
vector of every call. -/
theorem crossersCovered_iff {earlier : List (Vec dep.Dim)} :
    (∀ i, (calls i).2 ∈ earlier ++
        (indexOrder first).map (fun i => (calls i).2) ++
        ((appendOrder last).map calls).map Prod.snd) ↔
      CrossersCovered calls first last earlier := by
  have hsaves : ∀ vec, vec ∈ (indexOrder first).map (fun i => (calls i).2) ↔
      ∃ j, (calls j).2 = vec ∧ .index j ∈ first := by
    intro vec
    simp only [List.mem_map, mem_indexOrder, and_comm]
  have hlogs : ∀ vec, vec ∈ ((appendOrder last).map calls).map Prod.snd ↔
      ∃ j, (calls j).2 = vec ∧ .append j ∈ last := by
    intro vec
    simp only [List.map_map, List.mem_map, mem_appendOrder, Function.comp_apply,
      and_comm]
  simp only [List.mem_append, hsaves, hlogs]
  constructor
  · intro hcalls i _ _
    rcases hcalls i with (hearlier | ⟨j, hvec, hj⟩) | ⟨j, hvec, hj⟩
    · exact Or.inl hearlier
    · exact Or.inr ⟨j, hvec, Or.inl hj⟩
    · exact Or.inr ⟨j, hvec, Or.inr hj⟩
  · intro hcovered i
    by_cases hi : .append i ∈ last
    · exact Or.inr ⟨i, rfl, hi⟩
    · by_cases hi' : .index i ∈ first
      · exact Or.inl (Or.inr ⟨i, rfl, hi'⟩)
      · rcases hcovered i hi hi' with hearlier | ⟨j, hvec, hj | hj⟩
        · exact Or.inl (Or.inl hearlier)
        · exact Or.inl (Or.inr ⟨j, hvec, hj⟩)
        · exact Or.inr ⟨j, hvec, hj⟩

section Around

variable {a a₁ a₃ a₅ : Stored dep.Dim}

theorem saved_after_snapshot
    (hmiddle : LoggedStore.run 1000 Prod.snd
      (middle.map (CallStep.action calls)) a₁.save = a₃)
    (hlast : LoggedStore.run 1000 Prod.snd
      (last.map (CallStep.action calls)) a₃.truncate = a₅) :
    a₅.saved = some a₁.live := by
  rw [← hlast, (run_callSteps calls last a₃.truncate).2.2, truncate_saved,
    ← hmiddle, (run_callSteps calls middle a₁.save).2.2]
  rfl

/-- Where the snapshot cuts the log, it holds what is appended behind it. -/
theorem log_after_cut
    (hlast : LoggedStore.run 1000 Prod.snd
      (last.map (CallStep.action calls)) a₃.truncate = a₅)
    (hcut : a₃.mark < a₃.log.length) :
    a₅.log = (appendOrder last).map calls := by
  rw [← hlast, (run_callSteps calls last a₃.truncate).2.1]
  unfold truncate
  rw [if_pos hcut, List.nil_append]

/-- Where it does not, every entry is still there. -/
theorem log_after_kept
    (hfirst : LoggedStore.run 1000 Prod.snd
      (first.map (CallStep.action calls)) a = a₁)
    (hmiddle : LoggedStore.run 1000 Prod.snd
      (middle.map (CallStep.action calls)) a₁.save = a₃)
    (hlast : LoggedStore.run 1000 Prod.snd
      (last.map (CallStep.action calls)) a₃.truncate = a₅)
    (hkept : ¬ a₃.mark < a₃.log.length) :
    a₅.log = a.log ++ (appendOrder (first ++ middle ++ last)).map calls := by
  have hlog₁ := (run_callSteps calls first a).2.1
  have hlog₃ := (run_callSteps calls middle a₁.save).2.1
  have hsame : a₃.truncate.log = a₃.log := by
    unfold truncate
    rw [if_neg hkept]
  rw [hfirst] at hlog₁
  rw [hmiddle] at hlog₃
  rw [← hlast, (run_callSteps calls last a₃.truncate).2.1, hsame, hlog₃]
  unfold save
  dsimp only
  rw [hlog₁, appendOrder_append, appendOrder_append, List.map_append,
    List.map_append, List.append_assoc, List.append_assoc, List.append_assoc]

end Around

/-- Everything is recovered if and only if the calls that cross a truncation
are covered or, where the log is kept, snapshot and log fit together. -/
theorem snapshot_overlap_iff
    (hrun : dep.runFresh os rngs₀ before = .ok m)
    (hss : m.shards[s]? = some ss)
    (hsteps : Interleaves (first ++ middle ++ last))
    (hfirst : ss.overlap os dep.rt calls first = .ok ss₁)
    (hsave : ss₁.saveStep os dep.dataDir ns = .ok ss₂)
    (hmiddle : ss₂.overlap os dep.rt calls middle = .ok ss₃)
    (htruncate : ss₃.truncateStep os = .ok ss₄)
    (hlast : ss₄.overlap os dep.rt calls last = .ok ss₅) :
    RecoversCalls dep calls s ss.index.vectors ss₅ ↔
      if ss₃.wal.checkpointLsn < ss₃.wal.nextLsn then
        CrossersCovered calls first last ss.index.vectors
      else HNSWIndex.Storable dep.cfg
        (ss₁.index.vectors.length + ss₅.wal.nextLsn) := by
  have h := ((runFresh_eq_ok hrun).shard s ss hss).1
  have h₁ := h.overlap_eq_ok hfirst
  have h₃ := (h₁.saveStep_eq_ok hsave).1.overlap_eq_ok hmiddle
  have h₄ := (h₃.truncateStep_eq_ok htruncate).1
  have h₅ := h₄.overlap_eq_ok hlast
  -- name the states of the logged store between the steps
  generalize history m.ring s before = a at h h₁ h₃ h₄ h₅
  have hlive₁ := (run_callSteps calls first a).1
  generalize ha₁ : LoggedStore.run 1000 Prod.snd
    (first.map (CallStep.action calls)) a = a₁ at h₁ h₃ h₄ h₅ hlive₁
  have hlive₃ := (run_callSteps calls middle a₁.save).1
  generalize ha₃ : LoggedStore.run 1000 Prod.snd
    (middle.map (CallStep.action calls)) a₁.save = a₃ at h₃ h₄ h₅ hlive₃
  have hlive₅ := (run_callSteps calls last a₃.truncate).1
  generalize ha₅ : LoggedStore.run 1000 Prod.snd
    (last.map (CallStep.action calls)) a₃.truncate = a₅ at h₅ hlive₅
  have hrecover := fun rng =>
    h₅.recover_iff dep.rt (saved_after_snapshot ha₃ ha₅) rng s dep.dataDir
      fun vecs => (∀ vec ∈ ss.index.vectors, vec ∈ vecs) ∧
        ∀ i, (calls i).2 ∈ vecs
  have hearlier : ∀ vec ∈ a.live, ∀ log : List (UInt64 × Vec dep.Dim),
      vec ∈ a₁.live ++ log.map Prod.snd := by
    intro vec hvec log
    rw [hlive₁]
    exact List.mem_append_left _ (List.mem_append_left _ hvec)
  unfold RecoversCalls
  simp only [hrecover, forall_const]
  rw [h₃.mark, h₃.log.holds.next, h.index.vectors_eq, h₁.index.vectors_eq,
    h₅.log.holds.next]
  by_cases hcut : a₃.mark < a₃.log.length
  · have hstorable := h₅.index.storable
    rw [hlive₅, truncate_live, hlive₃] at hstorable
    have hlength := appendOrder_length_le hsteps
    rw [if_pos hcut, ← crossersCovered_iff, log_after_cut ha₅ hcut]
    constructor
    · rw [hlive₁]
      exact fun hall => hall.2.2
    · intro hcovered
      refine ⟨hstorable.mono ?_, fun vec hvec => hearlier vec hvec _, ?_⟩
      · simp only [List.length_append, List.length_map, save]
        omega
      · rwa [hlive₁]
  · rw [if_neg hcut, log_after_kept ha₁ ha₃ ha₅ hcut]
    constructor
    · exact fun hall => hall.1
    · intro hroom
      refine ⟨hroom, fun vec hvec => hearlier vec hvec _, fun i => ?_⟩
      have hi := List.mem_map_of_mem (f := calls)
        (mem_appendOrder.mpr (hsteps.appends i))
      exact List.mem_append_right _
        (List.mem_map_of_mem (List.mem_append_right _ hi))

/-! ## One call and one snapshot -/

def oneCall : Unit → UInt64 × Vec oneShard.Dim :=
  fun _ => (7, Vec.ofBytes _ [1, 0, 0, 0])

/-- The call has appended to a store that has just started. -/
theorem exists_appended :
    ∃ m ss ss₁,
      oneShard.runFresh OS.reliable (fun _ _ => 0) [] = .ok m ∧
      m.shards[0]? = some ss ∧
      ss.appendStep OS.reliable 7 (Vec.ofBytes _ [1, 0, 0, 0]) = .ok ss₁ ∧
      Represents oneShard.cfg
        (append 1000 (7, Vec.ofBytes _ [1, 0, 0, 0]) empty) ss₁ := by
  obtain ⟨m, hstart⟩ := oneShard_start fun _ _ => 0
  have hrefines := start_fresh hstart
  have hrun : oneShard.runFresh OS.reliable (fun _ _ => 0) [] = .ok m := by
    rw [runFresh_nil, hstart]
  obtain ⟨ss, hss⟩ :=
    hrefines.getElem? (show 0 < oneShard.shardCount.toNat by decide)
  have h := (hrefines.shard 0 ss hss).1
  obtain ⟨ss₁, happend⟩ := h.appendStep_ok oneShard_entrySize
    (by simp [empty]) 7 (Vec.ofBytes _ [1, 0, 0, 0])
  exact ⟨m, ss, ss₁, hrun, hss, happend, (h.appendStep_eq_ok happend).1⟩

/-- The call appends before the save and enters the index behind the
truncation. -/
theorem crossing_call_lost :
    ∃ m ss ss₁ ss₂ ss₃ ss₄,
      oneShard.runFresh OS.reliable (fun _ _ => 0) [] = .ok m ∧
      m.shards[0]? = some ss ∧
      Interleaves ([.append ()] ++ [] ++ [.index ()]) ∧
      ss.overlap OS.reliable oneShard.rt oneCall [.append ()] = .ok ss₁ ∧
      ss₁.saveStep OS.reliable oneShard.dataDir 0 = .ok ss₂ ∧
      ss₂.truncateStep OS.reliable = .ok ss₃ ∧
      ss₃.overlap OS.reliable oneShard.rt oneCall [.index ()] = .ok ss₄ ∧
      ss₄.index.vectors = [Vec.ofBytes _ [1, 0, 0, 0]] ∧
      ¬ RecoversCalls oneShard oneCall 0 ss.index.vectors ss₄ := by
  obtain ⟨m, ss, ss₁, hrun, hss, happend, h₁⟩ := exists_appended
  obtain ⟨ss₂, hsave⟩ := h₁.saveStep_ok (by decide) oneShard.dataDir 0
  have h₂ := (h₁.saveStep_eq_ok hsave).1
  obtain ⟨ss₃, htruncate⟩ := Represents.truncateStep_ok ss₂
  have h₃ := (h₂.truncateStep_eq_ok htruncate).1
  have hlive : (append 1000 (7, Vec.ofBytes _ [1, 0, 0, 0])
      (empty : Stored oneShard.Dim)).save.truncate.live = [] := by
    simp [save, empty]
  obtain ⟨ss₄, hindex⟩ := h₃.indexStep_ok oneShard.rt
    (by
      rw [hlive]
      exact ⟨by norm_num, by simp⟩) (Vec.ofBytes _ [1, 0, 0, 0])
  have h₄ := (h₃.indexStep_eq_ok hindex).2.1
  refine ⟨m, ss, ss₁, ss₂, ss₃, ss₄, hrun, hss, ?_, ?_, hsave, htruncate, ?_, ?_,
    ?_⟩
  · exact ⟨by decide, by decide, by decide, by decide⟩
  · rw [ShardState.overlap, ShardState.callStep, oneCall, happend]
    rfl
  · rw [ShardState.overlap, ShardState.callStep, oneCall, hindex]
    rfl
  · rw [h₄.index.vectors_eq, add, hlive]
    rfl
  · intro hrecovers
    have hsaved : (add (Vec.ofBytes _ [1, 0, 0, 0])
        (append 1000 (7, Vec.ofBytes _ [1, 0, 0, 0])
          (empty : Stored oneShard.Dim)).save.truncate).saved = some [] := by
      simp [add, save, empty]
    obtain ⟨_, _, hcalls⟩ := (h₄.recover_iff oneShard.rt hsaved (fun _ => 0) 0
      oneShard.dataDir fun vecs =>
        (∀ vec ∈ ss.index.vectors, vec ∈ vecs) ∧
          ∀ i, (oneCall i).2 ∈ vecs).mp (hrecovers _)
    have hlog : (add (Vec.ofBytes _ [1, 0, 0, 0])
        (append 1000 (7, Vec.ofBytes _ [1, 0, 0, 0])
          (empty : Stored oneShard.Dim)).save.truncate).log = [] := by
      simp [add, truncate, save, append, empty]
    have hmem := hcalls ()
    rw [hlog] at hmem
    simp at hmem

theorem finished_call_recovered :
    ∃ m ss ss₁ ss₂ ss₃,
      oneShard.runFresh OS.reliable (fun _ _ => 0) [] = .ok m ∧
      m.shards[0]? = some ss ∧
      ss.overlap OS.reliable oneShard.rt oneCall [.append (), .index ()] =
        .ok ss₁ ∧
      ss₁.saveStep OS.reliable oneShard.dataDir 0 = .ok ss₂ ∧
      ss₂.truncateStep OS.reliable = .ok ss₃ ∧
      RecoversCalls oneShard oneCall 0 ss.index.vectors ss₃ := by
  obtain ⟨m, ss, ss', hrun, hss, happend, h'⟩ := exists_appended
  obtain ⟨ss₁, hindex⟩ := h'.indexStep_ok oneShard.rt
    ⟨by simp [empty], by simp [empty]⟩ (Vec.ofBytes _ [1, 0, 0, 0])
  have h₁ := (h'.indexStep_eq_ok hindex).2.1
  obtain ⟨ss₂, hsave⟩ := h₁.saveStep_ok (by decide) oneShard.dataDir 0
  have h₂ := (h₁.saveStep_eq_ok hsave).1
  obtain ⟨ss₃, htruncate⟩ := Represents.truncateStep_ok ss₂
  have hcall : ss.callStep OS.reliable oneShard.rt oneCall (.append ()) =
      .ok (none, ss') := by
    rw [ShardState.callStep, oneCall, happend]
    rfl
  have hcall' : ss'.callStep OS.reliable oneShard.rt oneCall (.index ()) =
      .ok (some (append 1000 (7, Vec.ofBytes _ [1, 0, 0, 0])
        (empty : Stored oneShard.Dim)).live.length, ss₁) := by
    rw [ShardState.callStep, oneCall, hindex]
    rfl
  have hfirst : ss.overlap OS.reliable oneShard.rt oneCall
      [.append (), .index ()] = .ok ss₁ := by
    simp only [ShardState.overlap, hcall, hcall', except_bind_ok]
  have hmiddle : ss₂.overlap OS.reliable oneShard.rt oneCall [] = .ok ss₂ :=
    rfl
  have hlast : ss₃.overlap OS.reliable oneShard.rt oneCall [] = .ok ss₃ := rfl
  have hsteps : Interleaves ([.append (), .index ()] ++ [] ++ []) :=
    ⟨by decide, by decide, by decide, by decide⟩
  refine ⟨m, ss, ss₁, ss₂, ss₃, hrun, hss, hfirst, hsave, htruncate, ?_⟩
  apply (snapshot_overlap_iff hrun hss hsteps hfirst hsave hmiddle htruncate
    hlast).mpr
  have hcut : ss₂.wal.checkpointLsn < ss₂.wal.nextLsn := by
    rw [h₂.mark, h₂.log.holds.next]
    simp [save, add, append, empty]
  rw [if_pos hcut]
  intro i _ hi
  simp at hi

end Deployment
end VecDB
