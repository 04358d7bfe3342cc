import VecDB.ShardManager
import Mathlib.Tactic

/-!
# Searching all shards

`ShardManager::search` asks every shard in a task of its own, gathers what
the tasks return or throw, and merges the answers.  A shard whose task throws
is marked unhealthy, and unhealthy shards are not asked.
-/

namespace VecDB

structure ShardSearchResult (D : Type) where
  results : List (HNSWSearchResult D)
  degraded : Bool
  shardsOk : ℕ
  shardsErr : ℕ
  deriving DecidableEq

section Gather

variable {dim : UInt32} {D : Type}

/-- The variables of the gather loop, with the shards that it went through. -/
structure Gathered (dim : UInt32) (D : Type) where
  partials : List (List (HNSWSearchResult D))
  degraded : Bool
  shardsOk : ℕ
  shardsErr : ℕ
  shards : List (ShardState dim)

def gatherStep
    (task : ShardState dim → Except Failure (List (HNSWSearchResult D)))
    (g : Gathered dim D) (ss : ShardState dim) : Gathered dim D :=
  match task ss with
  | .ok answer => { g with
      partials := g.partials ++ [answer]
      shardsOk := g.shardsOk + 1
      shards := g.shards ++ [ss] }
  | .error _ => {
      partials := g.partials ++ [[]]
      degraded := true
      shardsOk := g.shardsOk
      shardsErr := g.shardsErr + 1
      shards := g.shards ++ [{ ss with healthy := false }] }

def gather (task : ShardState dim → Except Failure (List (HNSWSearchResult D)))
    (shards : List (ShardState dim)) : Gathered dim D :=
  shards.foldl (gatherStep task) ⟨[], false, 0, 0, []⟩

/-- What a shard contributes to the merge. -/
def contribution
    (task : ShardState dim → Except Failure (List (HNSWSearchResult D)))
    (ss : ShardState dim) : List (HNSWSearchResult D) :=
  match task ss with
  | .ok answer => answer
  | .error _ => []

/-- The shard behind the gather loop. -/
def settled
    (task : ShardState dim → Except Failure (List (HNSWSearchResult D)))
    (ss : ShardState dim) : ShardState dim :=
  if (task ss).isOk = true then ss else { ss with healthy := false }

theorem foldl_gatherStep
    (task : ShardState dim → Except Failure (List (HNSWSearchResult D)))
    (shards : List (ShardState dim)) (g : Gathered dim D) :
    shards.foldl (gatherStep task) g = {
      partials := g.partials ++ shards.map (contribution task)
      degraded := g.degraded || shards.any fun ss => !(task ss).isOk
      shardsOk := g.shardsOk + shards.countP fun ss => (task ss).isOk
      shardsErr := g.shardsErr + shards.countP fun ss => !(task ss).isOk
      shards := g.shards ++ shards.map (settled task) } := by
  induction shards generalizing g with
  | nil => simp
  | cons ss shards ih =>
      rw [List.foldl_cons, ih]
      cases htask : task ss with
      | ok answer =>
          simp [gatherStep, htask, contribution, settled, Except.isOk,
            Except.toBool]
          omega
      | error e =>
          simp [gatherStep, htask, contribution, settled, Except.isOk,
            Except.toBool]
          omega

theorem gather_eq
    (task : ShardState dim → Except Failure (List (HNSWSearchResult D)))
    (shards : List (ShardState dim)) :
    gather task shards = {
      partials := shards.map (contribution task)
      degraded := shards.any fun ss => !(task ss).isOk
      shardsOk := shards.countP fun ss => (task ss).isOk
      shardsErr := shards.countP fun ss => !(task ss).isOk
      shards := shards.map (settled task) } := by
  unfold gather
  rw [foldl_gatherStep]
  simp

end Gather

/-! ## The merge -/

section Counts

variable {D : Type}

/-- `static_cast<int>` of a `size_t`. -/
def intCast (n : ℕ) : ℤ := (Int32.ofNat n).toInt

theorem intCast_of_lt {n : ℕ} (hn : n < 2 ^ 31) : intCast n = n :=
  Int32.toInt_ofNat_of_lt hn

theorem intCast_le (n : ℕ) : intCast n ≤ n := by
  have hlt := (Int32.ofNat n).toInt_lt
  by_cases hn : n < 2 ^ 31
  · exact (intCast_of_lt hn).le
  · unfold intCast
    omega

/-- The count of the candidates is not cut below `topK`. -/
def CountsEnough (partials : List (List (HNSWSearchResult D)))
    (topK : Int32) : Prop :=
  partials.flatten.length < 2 ^ 31 ∨
    topK.toInt ≤ intCast partials.flatten.length

theorem CountsEnough.toNat_min {partials : List (List (HNSWSearchResult D))}
    {topK : Int32} (hcounts : CountsEnough partials topK) :
    (min (intCast partials.flatten.length) topK.toInt).toNat =
      min partials.flatten.length topK.toInt.toNat := by
  have hlt := topK.toInt_lt
  by_cases hsmall : partials.flatten.length < 2 ^ 31
  · rw [intCast_of_lt hsmall]
    omega
  · have hle : topK.toInt ≤ intCast partials.flatten.length :=
      hcounts.resolve_left hsmall
    rw [min_eq_right hle]
    omega

end Counts

section Search

variable {dim : UInt32} {D : Type} [LT D] [DecidableLT D]

def closerResult (a b : HNSWSearchResult D) : Bool := decide (a.dist < b.dist)

/-- `std::partial_sort` up to a negative position is undefined. -/
def mergeResults (ps : PartialSorter (HNSWSearchResult D))
    (partials : List (List (HNSWSearchResult D))) (topK : Int32) :
    Except Failure (List (HNSWSearchResult D)) :=
  let total := (partials.map List.length).sum
  if total = 0 then .ok []
  else
    let all := partials.flatten
    let k := min (intCast all.length) topK.toInt
    if k < 0 then .error .accessViolation
    else .ok ((ps.sort closerResult k.toNat all).take k.toNat)

/-- The merge returns some of the answers, as many as the cast leaves of
`topK`, and none of the others is closer than these. -/
theorem mergeResults_eq_ok {ps : PartialSorter (HNSWSearchResult D)}
    {partials : List (List (HNSWSearchResult D))} {topK : Int32}
    {out : List (HNSWSearchResult D)}
    (hok : mergeResults ps partials topK = .ok out) :
    ∃ rest, (out ++ rest).Perm partials.flatten ∧
      out.length =
        (min (intCast partials.flatten.length) topK.toInt).toNat ∧
      (StrictWeak (closerResult (D := D)) →
        (out.Pairwise fun a b => closerResult b a = false) ∧
          ∀ a ∈ out, ∀ b ∈ rest, closerResult b a = false) := by
  unfold mergeResults at hok
  dsimp only at hok
  rw [← List.length_flatten] at hok
  split_ifs at hok with htotal hneg
  · cases hok
    have hzero : intCast partials.flatten.length = 0 := by
      rw [htotal]
      rfl
    rw [hzero]
    rw [List.length_eq_zero_iff] at htotal
    refine ⟨[], by simp [htotal], by simp; omega, ?_⟩
    intro _
    exact ⟨List.Pairwise.nil, by simp⟩
  · cases hok
    have hle : (min (intCast partials.flatten.length) topK.toInt).toNat ≤
        partials.flatten.length := by
      have hcast := intCast_le partials.flatten.length
      omega
    generalize (min (intCast partials.flatten.length) topK.toInt).toNat = k
      at hle ⊢
    refine ⟨(ps.sort closerResult k partials.flatten).drop k, ?_, ?_, ?_⟩
    · rw [List.take_append_drop]
      exact ps.perm _ _ _
    · rw [List.length_take, (ps.perm _ _ _).length_eq]
      exact min_eq_left hle
    · intro hless
      exact ⟨ps.sorted _ _ _ hless, ps.least _ _ _ hless⟩

theorem mergeResults_ok (ps : PartialSorter (HNSWSearchResult D))
    {partials : List (List (HNSWSearchResult D))} {topK : Int32}
    (htopK : 0 ≤ topK.toInt) (hcounts : CountsEnough partials topK) :
    ∃ out, mergeResults ps partials topK = .ok out := by
  unfold mergeResults
  dsimp only
  rw [← List.length_flatten]
  split_ifs with htotal hneg
  · exact ⟨[], rfl⟩
  · rcases hcounts with hsmall | hle
    · rw [intCast_of_lt hsmall] at hneg
      omega
    · omega
  · exact ⟨_, rfl⟩

/-! ## The search -/

/-- The task of a shard.  A search that runs out of memory `throws`. -/
def ShardState.searchTask (rt : Runtime (Vec dim) D) (query : Vec dim)
    (topK ef : Int32) (throws : ℕ → Bool) (ss : ShardState dim) :
    Except Failure (List (HNSWSearchResult D)) :=
  if ss.healthy = false then .ok []
  else if throws ss.shardId = true then .error .badAlloc
  else ss.index.search rt query topK ef

namespace ShardManager

def efActual (cfg : HNSWConfig) (ef : Int32) : Int32 :=
  if 0 < ef then ef else cfg.efSearch

/-- The tasks of the scatter. -/
def searchTasks (rt : Runtime (Vec dim) D) (query : Vec dim)
    (topK ef : Int32) (throws : ℕ → Bool) (m : ShardManager dim) :
    ShardState dim → Except Failure (List (HNSWSearchResult D)) :=
  ShardState.searchTask rt query topK (efActual m.cfg ef) throws

/-- What the shards hand over to the merge. -/
def partials (rt : Runtime (Vec dim) D) (query : Vec dim) (topK ef : Int32)
    (throws : ℕ → Bool) (m : ShardManager dim) :
    List (List (HNSWSearchResult D)) :=
  m.shards.map (contribution (m.searchTasks rt query topK ef throws))

/-- The gather marks the shards before the merge begins. -/
def search (rt : Runtime (Vec dim) D) (ps : PartialSorter (HNSWSearchResult D))
    (query : Vec dim) (topK ef : Int32) (throws : ℕ → Bool)
    (m : ShardManager dim) :
    Except Failure (ShardSearchResult D) × ShardManager dim :=
  let g := gather (m.searchTasks rt query topK ef throws) m.shards
  let merged := mergeResults ps g.partials topK
  (merged.map fun results => {
    results := results
    degraded := g.degraded
    shardsOk := g.shardsOk
    shardsErr := g.shardsErr }, { m with shards := g.shards })

def shardHealthy (m : ShardManager dim) (s : ℕ) : Bool :=
  match m.shards[s]? with
  | some ss => ss.healthy
  | none => false

/-- What a search does to the shards, however the merge ends. -/
theorem search_snd (rt : Runtime (Vec dim) D)
    (ps : PartialSorter (HNSWSearchResult D)) (query : Vec dim)
    (topK ef : Int32) (throws : ℕ → Bool) (m : ShardManager dim) :
    (m.search rt ps query topK ef throws).2 = { m with
      shards :=
        m.shards.map (settled (m.searchTasks rt query topK ef throws)) } := by
  unfold search
  rw [gather_eq]

/-- What a search returns. -/
theorem search_eq_ok {rt : Runtime (Vec dim) D}
    {ps : PartialSorter (HNSWSearchResult D)} {query : Vec dim}
    {topK ef : Int32} {throws : ℕ → Bool} {m m' : ShardManager dim}
    {result : ShardSearchResult D}
    (hok : m.search rt ps query topK ef throws = (.ok result, m')) :
    mergeResults ps (m.partials rt query topK ef throws) topK =
        .ok result.results ∧
      result.degraded =
        (m.shards.any fun ss =>
          !(m.searchTasks rt query topK ef throws ss).isOk) ∧
      result.shardsOk = (m.shards.countP fun ss =>
        (m.searchTasks rt query topK ef throws ss).isOk) ∧
      result.shardsErr = (m.shards.countP fun ss =>
        !(m.searchTasks rt query topK ef throws ss).isOk) ∧
      m' = { m with shards :=
        m.shards.map (settled (m.searchTasks rt query topK ef throws)) } := by
  have hsnd := search_snd rt ps query topK ef throws m
  rw [hok] at hsnd
  unfold search at hok
  dsimp only at hok
  rw [gather_eq, Prod.mk.injEq] at hok
  unfold partials
  cases hmerge : mergeResults ps (m.shards.map
      (contribution (m.searchTasks rt query topK ef throws))) topK with
  | error e =>
      rw [hmerge] at hok
      cases hok.1
  | ok results =>
      rw [hmerge] at hok
      cases hok.1
      exact ⟨rfl, rfl, rfl, rfl, hsnd⟩

theorem search_ok (rt : Runtime (Vec dim) D)
    (ps : PartialSorter (HNSWSearchResult D)) {query : Vec dim}
    {topK ef : Int32} {throws : ℕ → Bool} {m : ShardManager dim}
    (htopK : 0 ≤ topK.toInt)
    (hcounts : CountsEnough (m.partials rt query topK ef throws) topK) :
    ∃ result, m.search rt ps query topK ef throws = (.ok result, { m with
      shards :=
        m.shards.map (settled (m.searchTasks rt query topK ef throws)) }) := by
  obtain ⟨results, hmerge⟩ := mergeResults_ok ps htopK hcounts
  unfold partials at hmerge
  unfold search
  dsimp only
  rw [gather_eq, hmerge]
  exact ⟨_, rfl⟩

/-! ### How many candidates there are -/

theorem searchTask_length_le {rt : Runtime (Vec dim) D} {query : Vec dim}
    {topK ef : Int32} {throws : ℕ → Bool} {ss : ShardState dim}
    (htopK : 0 ≤ topK.toInt) {answer : List (HNSWSearchResult D)}
    (hok : ss.searchTask rt query topK ef throws = .ok answer) :
    answer.length ≤ topK.toInt.toNat := by
  unfold ShardState.searchTask at hok
  split_ifs at hok with hhealthy hthrows
  · cases hok
    exact Nat.zero_le _
  · unfold HNSWIndex.search at hok
    by_cases hempty : ss.index.maxLayer < 0
    · rw [if_pos hempty] at hok
      cases hok
      exact Nat.zero_le _
    · rw [if_neg hempty] at hok
      obtain ⟨ep, _, hok⟩ := except_bind_eq_ok.mp hok
      obtain ⟨found, _, hok⟩ := except_bind_eq_ok.mp hok
      by_cases hlong : topK.toInt < found.length
      · rw [if_pos hlong, if_neg (not_lt.mpr htopK)] at hok
        cases hok
        rw [List.length_take]
        exact min_le_left _ _
      · rw [if_neg hlong] at hok
        cases hok
        omega

theorem length_partials_le (rt : Runtime (Vec dim) D) (query : Vec dim)
    {topK : Int32} (htopK : 0 ≤ topK.toInt) (ef : Int32) (throws : ℕ → Bool)
    (m : ShardManager dim) :
    (m.partials rt query topK ef throws).flatten.length ≤
      m.shards.length * topK.toInt.toNat := by
  have hpart : ∀ part ∈ m.partials rt query topK ef throws,
      part.length ≤ topK.toInt.toNat := by
    intro part hpart
    obtain ⟨ss, _, rfl⟩ := List.mem_map.mp hpart
    unfold contribution
    cases htask : m.searchTasks rt query topK ef throws ss with
    | ok answer => exact searchTask_length_le htopK htask
    | error e => exact Nat.zero_le _
  rw [List.length_flatten]
  calc ((m.partials rt query topK ef throws).map List.length).sum
      ≤ ((m.partials rt query topK ef throws).map List.length).length •
          topK.toInt.toNat := List.sum_le_card_nsmul _ _ (by simpa using hpart)
    _ = m.shards.length * topK.toInt.toNat := by
        rw [List.length_map, partials, List.length_map, smul_eq_mul]

theorem countsEnough_of_shards (rt : Runtime (Vec dim) D) (query : Vec dim)
    {topK : Int32} (htopK : 0 ≤ topK.toInt) (ef : Int32) (throws : ℕ → Bool)
    {m : ShardManager dim}
    (hfew : m.shards.length * topK.toInt.toNat < 2 ^ 31) :
    CountsEnough (m.partials rt query topK ef throws) topK :=
  Or.inl ((length_partials_le rt query htopK ef throws m).trans_lt hfew)

end ShardManager

end Search

end VecDB
