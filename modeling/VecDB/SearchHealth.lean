import VecDB.ShardRouting
import VecDB.ShardSearch
import Mathlib.Tactic

/-!
# What a search says about its shards

In a run of searches a shard that fails is marked unhealthy and never asked
again.  The counters of a search tell the shards that threw from all others,
so that they account for the missing answers until the first failure.
-/

namespace VecDB
namespace ShardManager

variable {dim : UInt32} {D : Type} [LT D] [DecidableLT D]

/-! ## Runs -/

/-- A search, or a flag that is cleared from outside. -/
inductive SearchEvent (dim : UInt32) where
  | search (query : Vec dim) (topK ef : Int32) (throws : ℕ → Bool)
  | clearHealthy (s : ℕ)

def clearHealthy (s : ℕ) (m : ShardManager dim) : ShardManager dim :=
  { m with shards := m.shards.modify s fun ss => { ss with healthy := false } }

def searchStep (rt : Runtime (Vec dim) D)
    (ps : PartialSorter (HNSWSearchResult D)) :
    SearchEvent dim → ShardManager dim → Except Failure (ShardManager dim)
  | .search query topK ef throws, m => do
      let (result, m) := m.search rt ps query topK ef throws
      let _ ← result
      return m
  | .clearHealthy s, m => .ok (m.clearHealthy s)

def searchRun (rt : Runtime (Vec dim) D)
    (ps : PartialSorter (HNSWSearchResult D)) :
    List (SearchEvent dim) → ShardManager dim →
      Except Failure (ShardManager dim)
  | [], m => .ok m
  | event :: events, m => searchStep rt ps event m >>= searchRun rt ps events

/-- What becomes of a shard in a search. -/
inductive Outcome where
  | answered
  | threw
  | skipped
  deriving DecidableEq, Repr

def outcome (rt : Runtime (Vec dim) D) (query : Vec dim) (topK ef : Int32)
    (throws : ℕ → Bool) (m : ShardManager dim) (ss : ShardState dim) :
    Outcome :=
  if ss.healthy = false then .skipped
  else if (m.searchTasks rt query topK ef throws ss).isOk = true then .answered
  else .threw

/-- The event makes shard `s` fail. -/
def SearchEvent.Fails (rt : Runtime (Vec dim) D) (m : ShardManager dim)
    (s : ℕ) : SearchEvent dim → Prop
  | .search query topK ef throws => ∃ ss, m.shards[s]? = some ss ∧
      m.outcome rt query topK ef throws ss = .threw
  | .clearHealthy t => s = t

/-- Shard `s` has failed in the run. -/
def Failed (rt : Runtime (Vec dim) D)
    (ps : PartialSorter (HNSWSearchResult D)) (events : List (SearchEvent dim))
    (m : ShardManager dim) (s : ℕ) : Prop :=
  ∃ before event rest m₁, events = before ++ event :: rest ∧
    searchRun rt ps before m = .ok m₁ ∧ event.Fails rt m₁ s

section Steps

variable {rt : Runtime (Vec dim) D} {ps : PartialSorter (HNSWSearchResult D)}
  {m m' : ShardManager dim}

theorem not_failed_nil (s : ℕ) : ¬ Failed rt ps [] m s := by
  rintro ⟨before, event, rest, m₁, hevents, _⟩
  simp at hevents

theorem failed_cons {event : SearchEvent dim} {events : List (SearchEvent dim)}
    (hstep : searchStep rt ps event m = .ok m') (s : ℕ) :
    Failed rt ps (event :: events) m s ↔
      event.Fails rt m s ∨ Failed rt ps events m' s := by
  constructor
  · rintro ⟨before, failing, rest, m₁, hevents, hrun, hfails⟩
    cases before with
    | nil =>
        cases hevents
        cases hrun
        exact Or.inl hfails
    | cons first before =>
        cases hevents
        rw [searchRun, hstep] at hrun
        exact Or.inr ⟨before, failing, rest, m₁, rfl, hrun, hfails⟩
  · rintro (hfails | ⟨before, failing, rest, m₁, rfl, hrun, hfails⟩)
    · exact ⟨[], event, events, m, rfl, rfl, hfails⟩
    · refine ⟨event :: before, failing, rest, m₁, rfl, ?_, hfails⟩
      rw [searchRun, hstep]
      exact hrun

theorem searchTasks_of_unhealthy {query : Vec dim} {topK ef : Int32}
    {throws : ℕ → Bool} {ss : ShardState dim} (hss : ss.healthy = false) :
    m.searchTasks rt query topK ef throws ss = .ok [] := by
  unfold searchTasks ShardState.searchTask
  rw [if_pos hss]

theorem outcome_eq_threw_iff {query : Vec dim} {topK ef : Int32}
    {throws : ℕ → Bool} {ss : ShardState dim} :
    m.outcome rt query topK ef throws ss = .threw ↔
      (m.searchTasks rt query topK ef throws ss).isOk = false := by
  unfold outcome
  split_ifs with hss hok
  · rw [searchTasks_of_unhealthy hss]
    simp [Except.isOk, Except.toBool]
  · simp [hok]
  · simpa using hok

theorem outcome_eq_skipped_iff {query : Vec dim} {topK ef : Int32}
    {throws : ℕ → Bool} {ss : ShardState dim} :
    m.outcome rt query topK ef throws ss = .skipped ↔ ss.healthy = false := by
  unfold outcome
  split_ifs with hss hok
  · simp [hss]
  · simp [hss]
  · simp [hss]

theorem searchStep_search_eq_ok {query : Vec dim} {topK ef : Int32}
    {throws : ℕ → Bool}
    (hstep : searchStep rt ps (.search query topK ef throws) m = .ok m') :
    ∃ result, m.search rt ps query topK ef throws = (.ok result, m') := by
  rw [searchStep] at hstep
  generalize m.search rt ps query topK ef throws = out at hstep
  obtain ⟨merged, m₁⟩ := out
  obtain ⟨result, rfl, hstep⟩ := except_bind_eq_ok.mp hstep
  cases hstep
  exact ⟨result, rfl⟩

theorem searchStep_eq_ok {event : SearchEvent dim}
    (hstep : searchStep rt ps event m = .ok m') {s : ℕ} {ss' : ShardState dim}
    (hss' : m'.shards[s]? = some ss') :
    ∃ ss, m.shards[s]? = some ss ∧
      ss' = { ss with healthy := ss'.healthy } ∧
      (ss'.healthy = false ↔ ss.healthy = false ∨ event.Fails rt m s) := by
  cases event with
  | search query topK ef throws =>
      obtain ⟨result, hsearch⟩ := searchStep_search_eq_ok hstep
      obtain ⟨_, _, _, _, rfl⟩ := search_eq_ok hsearch
      rw [List.getElem?_map, Option.map_eq_some_iff] at hss'
      obtain ⟨ss, hss, rfl⟩ := hss'
      refine ⟨ss, hss, ?_, ?_⟩
      · unfold settled
        split_ifs
        · rfl
        · rfl
      · have hfails : (SearchEvent.search query topK ef throws).Fails rt m s ↔
            (m.searchTasks rt query topK ef throws ss).isOk = false := by
          rw [← outcome_eq_threw_iff]
          simp [SearchEvent.Fails, hss]
        rw [hfails]
        unfold settled
        split_ifs with hok
        · simp [hok]
        · simp [hok]
  | clearHealthy t =>
      cases hstep
      unfold clearHealthy at hss'
      dsimp only at hss'
      rw [List.getElem?_modify, Option.map_eq_map, Option.map_eq_some_iff] at hss'
      obtain ⟨ss, hss, rfl⟩ := hss'
      refine ⟨ss, hss, ?_, ?_⟩
      · split_ifs
        · rfl
        · rfl
      · by_cases hst : t = s
        · simp [SearchEvent.Fails, hst]
        · simp [SearchEvent.Fails, hst, Ne.symm hst]

theorem searchStep_shards {event : SearchEvent dim}
    (hstep : searchStep rt ps event m = .ok m') :
    ∃ shards, m' = { m with shards := shards } ∧
      shards.length = m.shards.length := by
  cases event with
  | search query topK ef throws =>
      obtain ⟨result, hsearch⟩ := searchStep_search_eq_ok hstep
      obtain ⟨_, _, _, _, rfl⟩ := search_eq_ok hsearch
      exact ⟨_, rfl, List.length_map _⟩
  | clearHealthy s =>
      cases hstep
      exact ⟨_, rfl, List.length_modify _ _ _⟩

theorem searchRun_length {events : List (SearchEvent dim)}
    (hrun : searchRun rt ps events m = .ok m') :
    m'.shards.length = m.shards.length := by
  induction events generalizing m with
  | nil =>
      cases hrun
      rfl
  | cons event events ih =>
      rw [searchRun, except_bind_eq_ok] at hrun
      obtain ⟨m₁, hstep, hrun⟩ := hrun
      obtain ⟨shards, rfl, hlength⟩ := searchStep_shards hstep
      rw [ih hrun]
      exact hlength

/-- A shard is unhealthy when it was so at first or has failed since. -/
theorem searchRun_eq_ok {events : List (SearchEvent dim)}
    (hrun : searchRun rt ps events m = .ok m') {s : ℕ} {ss' : ShardState dim}
    (hss' : m'.shards[s]? = some ss') :
    ∃ ss, m.shards[s]? = some ss ∧
      ss' = { ss with healthy := ss'.healthy } ∧
      (ss'.healthy = false ↔ ss.healthy = false ∨ Failed rt ps events m s) := by
  induction events generalizing m with
  | nil =>
      cases hrun
      exact ⟨ss', hss', rfl, by simp [not_failed_nil]⟩
  | cons event events ih =>
      rw [searchRun, except_bind_eq_ok] at hrun
      obtain ⟨m₁, hstep, hrun⟩ := hrun
      obtain ⟨ss₁, hss₁, hself, hhealthy⟩ := ih hrun
      obtain ⟨ss, hss, hself₁, hhealthy₁⟩ := searchStep_eq_ok hstep hss₁
      refine ⟨ss, hss, ?_, ?_⟩
      · rw [hself, hself₁]
      · rw [hhealthy, hhealthy₁, failed_cons hstep, or_assoc]

/-! ## What a result says -/

/-- The counters are those of the three outcomes. -/
structure Accounts (rt : Runtime (Vec dim) D) (query : Vec dim)
    (topK ef : Int32) (throws : ℕ → Bool) (m : ShardManager dim)
    (result : ShardSearchResult D) : Prop where
  degraded : result.degraded = true ↔
    ∃ ss ∈ m.shards, m.outcome rt query topK ef throws ss = .threw
  shardsErr : result.shardsErr = m.shards.countP fun ss =>
    decide (m.outcome rt query topK ef throws ss = .threw)
  shardsOk : result.shardsOk =
    (m.shards.countP fun ss =>
      decide (m.outcome rt query topK ef throws ss = .answered)) +
    m.shards.countP fun ss =>
      decide (m.outcome rt query topK ef throws ss = .skipped)

/-- The result tells whether answers are missing, and how many. -/
structure Truthful (rt : Runtime (Vec dim) D) (query : Vec dim)
    (topK ef : Int32) (throws : ℕ → Bool) (m : ShardManager dim)
    (result : ShardSearchResult D) : Prop where
  degraded : result.degraded = true ↔
    ∃ ss ∈ m.shards, m.outcome rt query topK ef throws ss ≠ .answered
  shardsErr : result.shardsErr = m.shards.countP fun ss =>
    decide (m.outcome rt query topK ef throws ss ≠ .answered)
  shardsOk : result.shardsOk = m.shards.countP fun ss =>
    decide (m.outcome rt query topK ef throws ss = .answered)

variable {query : Vec dim} {topK ef : Int32} {throws : ℕ → Bool}
  {result : ShardSearchResult D}

theorem accounts (hsearch : m.search rt ps query topK ef throws =
      (.ok result, m')) :
    Accounts rt query topK ef throws m result := by
  obtain ⟨_, hdegraded, hok, herr, _⟩ := search_eq_ok hsearch
  have hthrew (ss : ShardState dim) :
      (!(m.searchTasks rt query topK ef throws ss).isOk) =
        decide (m.outcome rt query topK ef throws ss = .threw) := by
    rw [Bool.eq_iff_iff, decide_eq_true_eq, outcome_eq_threw_iff,
      Bool.not_eq_true']
  refine ⟨?_, ?_, ?_⟩
  · simp only [hdegraded, List.any_eq_true, hthrew, decide_eq_true_eq]
  · simp only [herr, hthrew]
  · rw [hok]
    induction m.shards with
    | nil => rfl
    | cons ss shards ih =>
        rw [List.countP_cons, List.countP_cons, List.countP_cons, ih]
        have hss := hthrew ss
        cases houtcome : m.outcome rt query topK ef throws ss with
        | answered =>
            simp [houtcome] at hss
            simp [hss]
            omega
        | threw =>
            simp [houtcome] at hss
            simp [hss]
        | skipped =>
            simp [houtcome] at hss
            simp [hss]
            omega

/-- A result is truthful if and only if no shard was skipped. -/
theorem truthful_iff (h : Accounts rt query topK ef throws m result) :
    Truthful rt query topK ef throws m result ↔
      ∀ ss ∈ m.shards, ss.healthy = true := by
  constructor
  · intro htruthful ss hss
    have hcount := htruthful.shardsOk
    rw [h.shardsOk] at hcount
    have hnone : (m.shards.countP fun ss =>
        decide (m.outcome rt query topK ef throws ss = .skipped)) = 0 := by
      omega
    have hnot := List.countP_eq_zero.mp hnone ss hss
    rw [decide_eq_true_eq, outcome_eq_skipped_iff, Bool.not_eq_false] at hnot
    exact hnot
  · intro hhealthy
    have hthrew : ∀ ss ∈ m.shards,
        (m.outcome rt query topK ef throws ss = .threw ↔
          m.outcome rt query topK ef throws ss ≠ .answered) := by
      intro ss hss
      have hnot : m.outcome rt query topK ef throws ss ≠ .skipped := by
        rw [Ne, outcome_eq_skipped_iff, hhealthy ss hss]
        exact Bool.true_eq_false.mp
      cases houtcome : m.outcome rt query topK ef throws ss with
      | answered => simp
      | threw => simp
      | skipped => exact absurd houtcome hnot
    refine ⟨?_, ?_, ?_⟩
    · rw [h.degraded]
      constructor
      · rintro ⟨ss, hss, houtcome⟩
        exact ⟨ss, hss, (hthrew ss hss).mp houtcome⟩
      · rintro ⟨ss, hss, houtcome⟩
        exact ⟨ss, hss, (hthrew ss hss).mpr houtcome⟩
    · rw [h.shardsErr]
      apply List.countP_congr
      intro ss hss
      simp only [decide_eq_true_eq]
      exact hthrew ss hss
    · rw [h.shardsOk, Nat.add_eq_left, List.countP_eq_zero]
      intro ss hss
      rw [decide_eq_true_eq, outcome_eq_skipped_iff, hhealthy ss hss]
      exact Bool.true_eq_false.mp

/-- In every run a result accounts for the shards that throw in its search.
A shard that is marked or has failed before is skipped, and the result is
truthful if and only if there is no such shard. -/
theorem degraded_accounting {events : List (SearchEvent dim)}
    {m₁ m₂ : ShardManager dim}
    (hrun : searchRun rt ps events m = .ok m₁)
    (hsearch : m₁.search rt ps query topK ef throws = (.ok result, m₂)) :
    Accounts rt query topK ef throws m₁ result ∧
      (∀ (s : ℕ) ss, m₁.shards[s]? = some ss →
        (m₁.outcome rt query topK ef throws ss = .skipped ↔
          m.shardHealthy s = false ∨ Failed rt ps events m s)) ∧
      (Truthful rt query topK ef throws m₁ result ↔
        ∀ s < m.shards.length,
          m.shardHealthy s = true ∧ ¬ Failed rt ps events m s) := by
  have haccounts := accounts hsearch
  have hunhealthy : ∀ (s : ℕ) ss, m₁.shards[s]? = some ss →
      (ss.healthy = false ↔
        m.shardHealthy s = false ∨ Failed rt ps events m s) := by
    intro s ss hss
    obtain ⟨ss₀, hss₀, _, hhealthy⟩ := searchRun_eq_ok hrun hss
    rw [hhealthy, shardHealthy, hss₀]
  refine ⟨haccounts, ?_, ?_⟩
  · intro s ss hss
    rw [outcome_eq_skipped_iff]
    exact hunhealthy s ss hss
  · rw [truthful_iff haccounts]
    constructor
    · intro hall s hs
      rw [← searchRun_length hrun] at hs
      have hss := List.getElem?_eq_getElem hs
      have hnot := mt (hunhealthy s _ hss).mpr
        (by simp [hall _ (List.getElem_mem hs)])
      rw [not_or, Bool.not_eq_false] at hnot
      exact hnot
    · intro hall ss hmem
      obtain ⟨s, hss⟩ := List.mem_iff_getElem?.mp hmem
      have hs := (List.getElem?_eq_some_iff.mp hss).1
      rw [searchRun_length hrun] at hs
      obtain ⟨hhealthy, hfailed⟩ := hall s hs
      by_contra hfalse
      rw [Bool.not_eq_true] at hfalse
      obtain hbefore | hfailed' := (hunhealthy s ss hss).mp hfalse
      · rw [hhealthy] at hbefore
        cases hbefore
      · exact hfailed hfailed'

end Steps

end ShardManager

namespace Deployment

open ShardManager

theorem start_healthy {D : Type} [Preorder D] [DecidableLT D]
    {dep : Deployment D} {os : OS} {m : ShardManager dep.Dim}
    {rngs : ℕ → ℕ → ℕ} {disk : ℕ → ShardFiles}
    (hstart : dep.start os rngs disk = .ok m) {s : ℕ}
    {ss : ShardState dep.Dim} (hss : m.shards[s]? = some ss) :
    ss.healthy = true := by
  obtain ⟨_, _, _, _, _, hnew⟩ := start_eq_ok hstart
  obtain ⟨_, _, _, _, rfl⟩ := ShardState.new_eq_ok.mp (hnew s ss hss)
  rfl

theorem oneShard_shards {m : ShardManager oneShard.Dim} {rngs : ℕ → ℕ → ℕ}
    (hstart : oneShard.start OS.reliable rngs (fun _ => ShardState.noFiles) =
      .ok m) :
    ∃ ss, m.shards = [ss] ∧ ss.healthy = true := by
  obtain ⟨_, _, _, _, hlength, _⟩ := start_eq_ok hstart
  obtain ⟨ss, hshards⟩ := List.length_eq_one_iff.mp hlength
  have hss : m.shards[0]? = some ss := by
    rw [hshards]
    rfl
  exact ⟨ss, hshards, start_healthy hstart hss⟩

/-- The first search throws, the second skips the shard. -/
theorem skipped_shard_not_reported :
    ∃ m m₁ m₂ result, oneShard.start OS.reliable (fun _ _ => 0)
        (fun _ => ShardState.noFiles) = .ok m ∧
      searchRun oneShard.rt (Sorter.insertion _).front
        [.search (Vec.ofBytes _ []) 1 0 fun _ => true] m = .ok m₁ ∧
      m₁.search oneShard.rt (Sorter.insertion _).front (Vec.ofBytes _ []) 1 0
        (fun _ => false) = (.ok result, m₂) ∧
      result.degraded = false ∧ result.shardsOk = 1 ∧ result.shardsErr = 0 ∧
      ¬ Truthful oneShard.rt (Vec.ofBytes _ []) 1 0 (fun _ => false) m₁
        result := by
  obtain ⟨m, hstart⟩ := oneShard_start fun _ _ => 0
  obtain ⟨ss, hshards, hhealthy⟩ := oneShard_shards hstart
  have htopK : 0 ≤ (1 : Int32).toInt := by decide
  have hcounts : ∀ (throws : ℕ → Bool) (m : ShardManager oneShard.Dim),
      m.shards.length = 1 → CountsEnough
        (m.partials oneShard.rt (Vec.ofBytes _ []) 1 0 throws) 1 :=
    fun throws m hone => countsEnough_of_shards _ _ htopK 0 throws
      (by rw [hone]; decide)
  obtain ⟨first, hfirst⟩ := search_ok oneShard.rt (Sorter.insertion _).front
    htopK (hcounts (fun _ => true) m (by rw [hshards]; rfl))
  have hsettled : m.shards.map (settled (m.searchTasks oneShard.rt
      (Vec.ofBytes _ []) 1 0 fun _ => true)) =
      [{ ss with healthy := false }] := by
    simp [hshards, settled, searchTasks, ShardState.searchTask, hhealthy,
      Except.isOk, Except.toBool]
  rw [hsettled] at hfirst
  generalize hm₁ : { m with shards := [{ ss with healthy := false }] } = m₁
    at hfirst
  obtain ⟨result, hsecond⟩ := search_ok oneShard.rt
    (Sorter.insertion _).front htopK (hcounts (fun _ => false) m₁
      (by rw [← hm₁]; rfl))
  have hrun : searchRun oneShard.rt (Sorter.insertion _).front
      [.search (Vec.ofBytes _ []) 1 0 fun _ => true] m = .ok m₁ := by
    rw [searchRun, searchStep, hfirst]
    rfl
  have haccounts := accounts hsecond
  have houtcome : m₁.outcome oneShard.rt (Vec.ofBytes _ []) 1 0
      (fun _ => false) { ss with healthy := false } = .skipped :=
    outcome_eq_skipped_iff.mpr rfl
  have hm₁ : m₁.shards = [{ ss with healthy := false }] := by
    rw [← hm₁]
  have hdegraded : result.degraded = false := by
    rw [← Bool.not_eq_true, haccounts.degraded, hm₁]
    simp [houtcome]
  have hok : result.shardsOk = 1 := by
    rw [haccounts.shardsOk, hm₁]
    simp [houtcome]
  have herr : result.shardsErr = 0 := by
    rw [haccounts.shardsErr, hm₁]
    simp [houtcome]
  refine ⟨m, m₁, _, result, hstart, hrun, hsecond, hdegraded, hok, herr, ?_⟩
  intro htruthful
  have hnone := htruthful.shardsOk
  rw [hok, hm₁] at hnone
  simp [houtcome] at hnone

def threeShards : Deployment ℕ where
  cfg := HNSWIndex.smallConfig
  shardCount := 3
  dataDir := "data"
  virtualNodes := 1
  sorter := Sorter.insertion _
  rt := wordLine _

theorem threeShards_start (rngs : ℕ → ℕ → ℕ) :
    ∃ m, threeShards.start OS.reliable rngs (fun _ => ShardState.noFiles) =
      .ok m := by
  apply start_fresh_ok
  · exact {
      dim := by decide
      M := by decide
      efConstruction := by decide
      maxLayers := by decide }
  · decide
  · decide
  · decide

theorem threeShards_shards {m : ShardManager threeShards.Dim}
    {rngs : ℕ → ℕ → ℕ}
    (hstart : threeShards.start OS.reliable rngs
      (fun _ => ShardState.noFiles) = .ok m) :
    ∃ ss₀ ss₁ ss₂, m.shards = [ss₀, ss₁, ss₂] ∧
      (∀ ss ∈ m.shards, ss.healthy = true ∧ ss.index.maxLayer = -1) ∧
      ss₀.shardId = 0 ∧ ss₁.shardId = 1 ∧ ss₂.shardId = 2 := by
  obtain ⟨_, _, _, _, hlength, hnew⟩ := start_eq_ok hstart
  obtain ⟨ss₀, ss₁, ss₂, hshards⟩ := List.length_eq_three.mp hlength
  have hfresh : ∀ (s : ℕ) ss, m.shards[s]? = some ss → ss.shardId = s ∧
      ss.healthy = true ∧ ss.index.maxLayer = -1 := by
    intro s ss hss
    obtain ⟨index, wal, hindex, _, rfl⟩ :=
      ShardState.new_eq_ok.mp (hnew s ss hss)
    exact ⟨rfl, rfl,
      congrArg HNSWIndex.maxLayer (HNSWIndex.new_eq_ok hindex).2⟩
  refine ⟨ss₀, ss₁, ss₂, hshards, fun ss hss => ?_, ?_, ?_, ?_⟩
  · obtain ⟨s, hs⟩ := List.mem_iff_getElem?.mp hss
    exact (hfresh s ss hs).2
  · exact (hfresh 0 ss₀ (by rw [hshards]; rfl)).1
  · exact (hfresh 1 ss₁ (by rw [hshards]; rfl)).1
  · exact (hfresh 2 ss₂ (by rw [hshards]; rfl)).1

/-- Shard 1 is marked, and then shard 2 throws. -/
def failures : List (SearchEvent threeShards.Dim) :=
  [.clearHealthy 1, .search (Vec.ofBytes _ [1]) 2 0 fun s => decide (s = 2)]

theorem countsEnough_threeShards (throws : ℕ → Bool)
    {m : ShardManager threeShards.Dim} (hthree : m.shards.length = 3) :
    CountsEnough (m.partials threeShards.rt (Vec.ofBytes _ [1]) 2 0 throws) 2 :=
  countsEnough_of_shards _ _ (by decide) 0 throws (by rw [hthree]; decide)

theorem failures_run {m : ShardManager threeShards.Dim} {rngs : ℕ → ℕ → ℕ}
    (hstart : threeShards.start OS.reliable rngs
      (fun _ => ShardState.noFiles) = .ok m) :
    ∃ (m₁ : ShardManager threeShards.Dim)
      (ss₀ ss₁ ss₂ : ShardState threeShards.Dim),
      searchRun threeShards.rt (Sorter.insertion _).front failures m =
        .ok m₁ ∧
      m₁.shards = [ss₀, { ss₁ with healthy := false },
        { ss₂ with healthy := false }] ∧
      ss₀.healthy = true ∧ ss₀.shardId = 0 := by
  obtain ⟨ss₀, ss₁, ss₂, hshards, hfresh, hid₀, hid₁, hid₂⟩ :=
    threeShards_shards hstart
  rw [hshards] at hfresh
  obtain ⟨hhealthy₀, hempty₀⟩ := hfresh ss₀ (by simp)
  obtain ⟨hhealthy₂, _⟩ := hfresh ss₂ (by simp)
  have hclear : m.clearHealthy 1 = { m with
      shards := [ss₀, { ss₁ with healthy := false }, ss₂] } := by
    unfold clearHealthy
    rw [hshards]
    rfl
  obtain ⟨first, hfirst⟩ := search_ok threeShards.rt (Sorter.insertion _).front
    (by decide) (countsEnough_threeShards (fun s => decide (s = 2))
      (m := m.clearHealthy 1) (by rw [hclear]; rfl))
  have hanswer : ss₀.index.search threeShards.rt (Vec.ofBytes _ [1]) 2
      (efActual m.cfg 0) = .ok [] := by
    rw [HNSWIndex.search, if_pos (by omega)]
    rfl
  have hsettled : (m.clearHealthy 1).shards.map (settled
      ((m.clearHealthy 1).searchTasks threeShards.rt (Vec.ofBytes _ [1]) 2 0
        fun s => decide (s = 2))) =
      [ss₀, { ss₁ with healthy := false }, { ss₂ with healthy := false }] := by
    simp [hclear, settled, searchTasks, ShardState.searchTask, hhealthy₀,
      hhealthy₂, hid₀, hid₂, hanswer, Except.isOk, Except.toBool]
  rw [hsettled] at hfirst
  refine ⟨{ m.clearHealthy 1 with
    shards := [ss₀, { ss₁ with healthy := false },
      { ss₂ with healthy := false }] }, ss₀, ss₁, ss₂, ?_, rfl, hhealthy₀, hid₀⟩
  rw [failures, searchRun, searchStep, except_bind_ok, searchRun, searchStep,
    hfirst]
  rfl

/-- In the search at the end shard 0 throws. -/
theorem degraded_accounting_threeShards :
    ∃ m m₁ m₂ result, threeShards.start OS.reliable (fun _ _ => 0)
        (fun _ => ShardState.noFiles) = .ok m ∧
      searchRun threeShards.rt (Sorter.insertion _).front failures m = .ok m₁ ∧
      m₁.search threeShards.rt (Sorter.insertion _).front
        (Vec.ofBytes _ [1]) 2 0 (fun s => decide (s = 0)) =
        (.ok result, m₂) ∧
      result.degraded = true ∧ result.shardsErr = 1 ∧ result.shardsOk = 2 ∧
      ¬ Truthful threeShards.rt (Vec.ofBytes _ [1]) 2 0
        (fun s => decide (s = 0)) m₁ result := by
  obtain ⟨m, hstart⟩ := threeShards_start fun _ _ => 0
  obtain ⟨m₁, ss₀, ss₁, ss₂, hrun, hshards, hhealthy, hid⟩ :=
    failures_run hstart
  obtain ⟨result, hsearch⟩ := search_ok threeShards.rt
    (Sorter.insertion _).front (by decide) (countsEnough_threeShards
      (fun s => decide (s = 0)) (m := m₁) (by rw [hshards]; rfl))
  obtain ⟨haccounts, _, htruthful⟩ := degraded_accounting hrun hsearch
  have hthrew : m₁.outcome threeShards.rt (Vec.ofBytes _ [1]) 2 0
      (fun s => decide (s = 0)) ss₀ = .threw := by
    simp [outcome, searchTasks, ShardState.searchTask, hhealthy, hid,
      Except.isOk, Except.toBool]
  have hskipped : ∀ ss : ShardState threeShards.Dim,
      m₁.outcome threeShards.rt (Vec.ofBytes _ [1]) 2 0
        (fun s => decide (s = 0)) { ss with healthy := false } = .skipped :=
    fun ss => outcome_eq_skipped_iff.mpr rfl
  refine ⟨m, m₁, _, result, hstart, hrun, hsearch, ?_, ?_, ?_, ?_⟩
  · rw [haccounts.degraded, hshards]
    exact ⟨ss₀, List.mem_cons_self, hthrew⟩
  · rw [haccounts.shardsErr, hshards]
    simp [hthrew, hskipped]
  · rw [haccounts.shardsOk, hshards]
    simp [hthrew, hskipped]
  · rw [htruthful]
    intro hall
    obtain ⟨_, _, _, hbefore, _⟩ := threeShards_shards hstart
    have hmarked : Failed threeShards.rt (Sorter.insertion _).front failures m
        1 := ⟨[], .clearHealthy 1, _, m, rfl, rfl, rfl⟩
    exact (hall 1 (by simp [hbefore])).2 hmarked

end Deployment
end VecDB
