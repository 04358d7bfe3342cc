import VecDB.NearestRank
import Mathlib.Data.UInt
import Mathlib.Tactic

/-!
# Latency metrics

`MetricsStore`: a latency is counted in the first bucket whose bound it is
below, and the percentiles are read off the cumulated counts.  The last bound
is the greatest 64-bit value, which is below no bound.
-/

namespace VecDB

open NearestRank

/-- `N_BUCKETS` -/
abbrev nBuckets : ℕ := 8

structure MetricsStore where
  totalInserts : UInt64
  totalSearches : UInt64
  insertLatencyUsSum : UInt64
  searchLatencyUsSum : UInt64
  searchP50Us : UInt64
  searchP95Us : UInt64
  searchP99Us : UInt64
  insertsLastSec : UInt64
  searchesLastSec : UInt64
  insertsWindow : UInt64
  searchesWindow : UInt64
  latencyBuckets : Fin nBuckets → UInt64

namespace MetricsStore

def initial : MetricsStore where
  totalInserts := 0
  totalSearches := 0
  insertLatencyUsSum := 0
  searchLatencyUsSum := 0
  searchP50Us := 0
  searchP95Us := 0
  searchP99Us := 0
  insertsLastSec := 0
  searchesLastSec := 0
  insertsWindow := 0
  searchesWindow := 0
  latencyBuckets := fun _ => 0

/-- `UINT64_MAX` -/
def maxLatency : UInt64 := 0xFFFFFFFFFFFFFFFF

def bounds : Fin nBuckets → UInt64 :=
  ![100, 200, 300, 500, 750, 1000, 2000, maxLatency]

/-- The latency that stands for a bucket. -/
def mid : Fin nBuckets → UInt64 :=
  ![50, 150, 250, 400, 625, 875, 1500, 3000]

def bucketOf (us : UInt64) : Option (Fin nBuckets) :=
  Fin.find? fun i => us < bounds i

/-! ## Recording -/

def recordSearch (m : MetricsStore) (us : UInt64) : MetricsStore :=
  { m with
    totalSearches := m.totalSearches + 1
    searchesWindow := m.searchesWindow + 1
    searchLatencyUsSum := m.searchLatencyUsSum + us
    latencyBuckets := match bucketOf us with
      | some i => Function.update m.latencyBuckets i (m.latencyBuckets i + 1)
      | none => m.latencyBuckets }

def recordInsert (m : MetricsStore) (us : UInt64) : MetricsStore :=
  { m with
    totalInserts := m.totalInserts + 1
    insertsWindow := m.insertsWindow + 1
    insertLatencyUsSum := m.insertLatencyUsSum + us }

/-! ## Percentiles -/

/-- A percentile, and whether the scan has set it. -/
abbrev Mark := Bool × UInt64

structure Marks where
  p50 : Mark
  p95 : Mark
  p99 : Mark

def Mark.set (mark : Mark) (share f : ℚ) (us : UInt64) : Mark :=
  if mark.1 = false ∧ share ≤ f then (true, us) else mark

def countTotal (counts : Fin nBuckets → UInt64) : UInt64 :=
  Fin.foldl nBuckets (fun total i => total + counts i) 0

/-- The fraction is that of the 64-bit counts, with no rounding. -/
def scanBucket (counts : Fin nBuckets → UInt64) (total : UInt64) :
    UInt64 × Marks → Fin nBuckets → UInt64 × Marks
  | (cum, marks), i =>
      let cum := cum + counts i
      let f := (cum.toNat : ℚ) / total.toNat
      (cum, {
        p50 := marks.p50.set (50 / 100) f (mid i)
        p95 := marks.p95.set (95 / 100) f (mid i)
        p99 := marks.p99.set (99 / 100) f (mid i) })

def unmarked (m : MetricsStore) : Marks where
  p50 := (false, m.searchP50Us)
  p95 := (false, m.searchP95Us)
  p99 := (false, m.searchP99Us)

def percentiles (m : MetricsStore) : Marks :=
  let total := countTotal m.latencyBuckets
  if 0 < total then
    (Fin.foldl nBuckets (scanBucket m.latencyBuckets total)
      (0, m.unmarked)).2
  else m.unmarked

def computePercentiles (m : MetricsStore) : MetricsStore :=
  { m with
    searchP50Us := m.percentiles.p50.2
    searchP95Us := m.percentiles.p95.2
    searchP99Us := m.percentiles.p99.2
    insertsLastSec := m.insertsWindow
    searchesLastSec := m.searchesWindow
    insertsWindow := 0
    searchesWindow := 0 }

end MetricsStore

/-! ## Calls -/

inductive MetricsCall where
  | recordSearch (us : UInt64)
  | recordInsert (us : UInt64)
  | computePercentiles
  deriving DecidableEq, Repr

namespace MetricsStore

def take (m : MetricsStore) : MetricsCall → MetricsStore
  | .recordSearch us => m.recordSearch us
  | .recordInsert us => m.recordInsert us
  | .computePercentiles => m.computePercentiles

def takeAll (m : MetricsStore) (calls : List MetricsCall) : MetricsStore :=
  calls.foldl take m

/-- The values that the calls of `compute_percentiles` publish. -/
def published (lastSec : MetricsStore → UInt64) :
    MetricsStore → List MetricsCall → List UInt64
  | _, [] => []
  | m, call :: calls =>
      if call = .computePercentiles then
        lastSec (m.take call) :: published lastSec (m.take call) calls
      else published lastSec (m.take call) calls

/-- The recorded latencies of the searches. -/
def latencies (calls : List MetricsCall) : List UInt64 :=
  calls.filterMap fun call => match call with
    | .recordSearch us => some us
    | _ => none

/-- The latency standing for the bucket that a percentile is in. -/
def representative (p : ℕ) (xs : List UInt64) : Option UInt64 :=
  ((percentile p xs).bind bucketOf).map mid

/-- The store behind the calls tells what they recorded. -/
structure FollowsLatencies (calls : List MetricsCall) : Prop where
  buckets : countTotal (initial.takeAll calls).latencyBuckets =
    (initial.takeAll calls).totalSearches
  p50 : latencies calls ≠ [] →
    some (initial.takeAll calls).computePercentiles.searchP50Us =
      representative 50 (latencies calls)
  p95 : latencies calls ≠ [] →
    some (initial.takeAll calls).computePercentiles.searchP95Us =
      representative 95 (latencies calls)
  p99 : latencies calls ≠ [] →
    some (initial.takeAll calls).computePercentiles.searchP99Us =
      representative 99 (latencies calls)
  p50_le_p95 : latencies calls ≠ [] →
    (initial.takeAll calls).computePercentiles.searchP50Us ≤
      (initial.takeAll calls).computePercentiles.searchP95Us
  p95_le_p99 : latencies calls ≠ [] →
    (initial.takeAll calls).computePercentiles.searchP95Us ≤
      (initial.takeAll calls).computePercentiles.searchP99Us
  searches : (published searchesLastSec initial calls).sum +
      (initial.takeAll calls).searchesWindow =
    (initial.takeAll calls).totalSearches
  inserts : (published insertsLastSec initial calls).sum +
      (initial.takeAll calls).insertsWindow =
    (initial.takeAll calls).totalInserts

/-! ## Buckets -/

variable {m : MetricsStore} {us : UInt64} {xs : List UInt64}
  {calls : List MetricsCall} {i j : Fin nBuckets}

theorem bounds_mono : ∀ i j : Fin nBuckets, i ≤ j → bounds i ≤ bounds j := by
  decide

theorem mid_mono : ∀ i j : Fin nBuckets, i ≤ j → mid i ≤ mid j := by
  decide

theorem bucketOf_eq_some_iff : bucketOf us = some i ↔
    us < bounds i ∧ ∀ j < i, ¬ us < bounds j := by
  unfold bucketOf
  rw [Fin.find?_eq_some_iff]
  simp

/-- The latency is below one of the first bounds. -/
def Under (k : ℕ) (us : UInt64) : Prop :=
  ∃ j : Fin nBuckets, j.val < k ∧ us < bounds j

instance (k : ℕ) : DecidablePred (Under k) :=
  fun _ => inferInstanceAs (Decidable (∃ _, _))

theorem under_succ_iff : Under (i + 1) us ↔ us < bounds i := by
  constructor
  · rintro ⟨j, hj, hlt⟩
    exact UInt64.lt_of_lt_of_le hlt (bounds_mono j i (by omega))
  · exact fun hlt => ⟨i, Nat.lt_succ_self i, hlt⟩

theorem bucketOf_eq_some_iff_under :
    bucketOf us = some i ↔ Under (i + 1) us ∧ ¬ Under i us := by
  rw [bucketOf_eq_some_iff, under_succ_iff, and_congr_right_iff]
  rintro -
  constructor
  · rintro hnone ⟨j, hj, hlt⟩
    exact hnone j hj hlt
  · exact fun hnone j hj hlt => hnone ⟨j, hj, hlt⟩

theorem Under.succ (h : Under i us) : Under (i + 1) us := by
  obtain ⟨j, hj, hlt⟩ := h
  exact ⟨j, by omega, hlt⟩

theorem countP_under_succ (i : Fin nBuckets) (xs : List UInt64) :
    xs.countP (Under (i + 1) ·) =
      xs.countP (Under i ·) + xs.countP (bucketOf · = some i) := by
  induction xs with
  | nil => rfl
  | cons us xs ih =>
      simp only [List.countP_cons, ih, bucketOf_eq_some_iff_under,
        decide_eq_true_eq]
      by_cases hunder : Under i us
      · simp [hunder, hunder.succ]
        omega
      · by_cases hnext : Under (i + 1) us
        · simp [hunder, hnext]
          omega
        · simp [hunder, hnext]

/-! ## What the counters hold -/

theorem take_latencyBuckets (m : MetricsStore) (call : MetricsCall)
    (i : Fin nBuckets) : (m.take call).latencyBuckets i =
      m.latencyBuckets i +
        UInt64.ofNat ((latencies [call]).countP (bucketOf · = some i)) := by
  cases call with
  | recordSearch us =>
      cases hbucket : bucketOf us with
      | none => simp [take, recordSearch, latencies, hbucket]
      | some j =>
          by_cases hij : j = i
          · subst hij
            simp [take, recordSearch, latencies, hbucket]
          · simp [take, recordSearch, latencies, hbucket, hij,
              Function.update_of_ne (Ne.symm hij)]
  | recordInsert us => simp [take, recordInsert, latencies]
  | computePercentiles => simp [take, computePercentiles, latencies]

theorem take_totalSearches (m : MetricsStore) (call : MetricsCall) :
    (m.take call).totalSearches =
      m.totalSearches + UInt64.ofNat (latencies [call]).length := by
  cases call with
  | recordSearch us => rfl
  | recordInsert us => simp [take, recordInsert, latencies]
  | computePercentiles => simp [take, computePercentiles, latencies]

theorem latencies_cons (call : MetricsCall) (calls : List MetricsCall) :
    latencies (call :: calls) = latencies [call] ++ latencies calls := by
  change latencies ([call] ++ calls) = _
  exact List.filterMap_append ..

/-- A counter that grows with the recorded latencies. -/
theorem takeAll_counter (count : MetricsStore → UInt64)
    {weight : List UInt64 → ℕ}
    (hweight : ∀ xs ys, weight (xs ++ ys) = weight xs + weight ys)
    (hcount : ∀ m call, count (take m call) =
      count m + UInt64.ofNat (weight (latencies [call])))
    (m : MetricsStore) (calls : List MetricsCall) :
    count (m.takeAll calls) =
      count m + UInt64.ofNat (weight (latencies calls)) := by
  induction calls generalizing m with
  | nil =>
      have hzero := hweight [] []
      rw [List.append_nil, Nat.left_eq_add] at hzero
      change _ = _ + UInt64.ofNat (weight [])
      rw [hzero]
      simp [takeAll]
  | cons call calls ih =>
      rw [latencies_cons, hweight, UInt64.ofNat_add, ← UInt64.add_assoc,
        ← hcount]
      exact ih (m.take call)

theorem takeAll_latencyBuckets (calls : List MetricsCall)
    (i : Fin nBuckets) : (initial.takeAll calls).latencyBuckets i =
      UInt64.ofNat ((latencies calls).countP (bucketOf · = some i)) := by
  have hcount := takeAll_counter (fun m => m.latencyBuckets i)
    (fun _ _ => List.countP_append) (fun m call => take_latencyBuckets m call i)
    initial calls
  rw [hcount]
  exact UInt64.zero_add _

theorem takeAll_totalSearches (calls : List MetricsCall) :
    (initial.takeAll calls).totalSearches =
      UInt64.ofNat (latencies calls).length := by
  rw [takeAll_counter totalSearches (fun _ _ => List.length_append)
    take_totalSearches]
  exact UInt64.zero_add _

/-- A loop over the buckets, by the number of its iterations. -/
theorem foldl_holds {σ : Type} {n : ℕ} (P : ℕ → σ → Prop)
    {step : σ → Fin n → σ} {s : σ} (hstart : P 0 s)
    (hstep : ∀ (i : Fin n) (s : σ), P i s → P (i + 1) (step s i)) :
    P n (Fin.foldl n step s) := by
  induction n with
  | zero => exact hstart
  | succ n ih =>
      rw [Fin.foldl_succ_last]
      apply hstep (Fin.last n)
      exact ih (fun i s hs => hstep i.castSucc s hs)

/-- The counts of the buckets. -/
def tally (xs : List UInt64) (i : Fin nBuckets) : UInt64 :=
  UInt64.ofNat (xs.countP (bucketOf · = some i))

theorem add_tally (i : Fin nBuckets) (xs : List UInt64) :
    UInt64.ofNat (xs.countP (Under i ·)) + tally xs i =
      UInt64.ofNat (xs.countP (Under (i + 1) ·)) := by
  rw [countP_under_succ, UInt64.ofNat_add, tally]

theorem countP_under_zero (xs : List UInt64) : xs.countP (Under 0 ·) = 0 := by
  rw [List.countP_eq_zero]
  rintro us - hunder
  obtain ⟨j, hj, -⟩ := of_decide_eq_true hunder
  exact Nat.not_lt_zero _ hj

theorem countTotal_tally (xs : List UInt64) :
    countTotal (tally xs) = UInt64.ofNat (xs.countP (Under nBuckets ·)) := by
  refine foldl_holds (n := nBuckets)
    (fun k total => total = UInt64.ofNat (xs.countP (Under k ·))) ?_ ?_
  · rw [countP_under_zero]
    rfl
  · rintro i total rfl
    exact add_tally i xs

theorem under_nBuckets_iff : Under nBuckets us ↔ us ≠ maxLatency := by
  have hlast : bounds (Fin.last 7) = maxLatency := by decide
  have hunder : Under (Fin.last 7 + 1 : ℕ) us ↔ us < bounds (Fin.last 7) :=
    under_succ_iff
  rw [hlast] at hunder
  change Under (Fin.last 7 + 1 : ℕ) us ↔ _
  rw [hunder]
  constructor
  · rintro hlt rfl
    exact UInt64.lt_irrefl _ hlt
  · intro hne
    have hle : us.toNat ≤ maxLatency.toNat := Nat.le_of_lt_succ us.toNat_lt
    exact UInt64.lt_of_le_of_ne (UInt64.le_iff_toNat_le.mpr hle) hne

/-! ## The scan for the percentiles -/

/-- The latencies in a bucket or below it, as a fraction of all. -/
def fraction (xs : List UInt64) (i : Fin nBuckets) : ℚ :=
  (xs.countP (Under (i + 1) ·) : ℚ) / xs.length

/-- The bucket is the first to have its share. -/
def First (share : ℚ) (xs : List UInt64) (i : Fin nBuckets) : Prop :=
  share ≤ fraction xs i ∧ ∀ j < i, ¬ share ≤ fraction xs j

/-- The mark after `k` buckets. -/
def Marked (share : ℚ) (xs : List UInt64) (k : ℕ) (mark : Mark) : Prop :=
  (mark.1 = false ∧ ∀ i : Fin nBuckets, i.val < k → ¬ share ≤ fraction xs i) ∨
    ∃ i, mark = (true, mid i) ∧ First share xs i

variable {share : ℚ} {mark : Mark} {p q k : ℕ}

theorem Marked.set (h : Marked share xs i mark) :
    Marked share xs (i + 1) (mark.set share (fraction xs i) (mid i)) := by
  unfold Mark.set
  rcases h with ⟨hmark, hnone⟩ | ⟨j, rfl, hfirst⟩
  · by_cases hshare : share ≤ fraction xs i
    · rw [if_pos ⟨hmark, hshare⟩]
      exact Or.inr ⟨i, rfl, hshare, fun j hj => hnone j hj⟩
    · rw [if_neg fun hset => hshare hset.2]
      refine Or.inl ⟨hmark, fun j hj => ?_⟩
      rcases Nat.lt_succ_iff_lt_or_eq.mp hj with hlt | heq
      · exact hnone j hlt
      · rwa [Fin.ext heq]
  · rw [if_neg (by simp)]
    exact Or.inr ⟨j, rfl, hfirst⟩

theorem share_le_fraction_iff (hxs : xs ≠ []) :
    (p / 100 : ℚ) ≤ fraction xs i ↔
      rank p xs.length ≤ xs.countP (Under (i + 1) ·) := by
  have hpos : (0 : ℚ) < xs.length := by
    exact_mod_cast List.length_pos_iff.mpr hxs
  unfold fraction
  rw [rank_le_iff, div_le_div_iff₀ (by norm_num) hpos, mul_comm (_ : ℚ) 100]
  exact_mod_cast Iff.rfl

/-- The first bucket with its share is the one that the percentile is in. -/
theorem First.representative_eq (hp : 0 < p) (hp' : p ≤ 100) (hxs : xs ≠ [])
    (h : First (p / 100) xs i) : representative p xs = some (mid i) := by
  obtain ⟨v, hv⟩ := exists_percentile hp hp' hxs
  have hbelow : ∀ j, v < bounds j ↔ (p / 100 : ℚ) ≤ fraction xs j := by
    intro j
    have hlower := percentile_lower_iff (P := (· < bounds j))
      (fun _ _ => UInt64.lt_of_le_of_lt) hp hv
    rw [hlower, share_le_fraction_iff hxs]
    simp only [under_succ_iff]
  have hbucket : bucketOf v = some i := by
    rw [bucketOf_eq_some_iff]
    simp only [hbelow]
    exact h
  unfold representative
  rw [hv, Option.bind_some, hbucket]
  rfl

theorem representative_le (hpq : p ≤ q) {a b : UInt64}
    (ha : representative p xs = some a) (hb : representative q xs = some b) :
    a ≤ b := by
  obtain ⟨i, hi, rfl⟩ := Option.map_eq_some_iff.mp ha
  obtain ⟨j, hj, rfl⟩ := Option.map_eq_some_iff.mp hb
  obtain ⟨v, hv, hi⟩ := Option.bind_eq_some_iff.mp hi
  obtain ⟨w, hw, hj⟩ := Option.bind_eq_some_iff.mp hj
  have hle : v ≤ w := percentile_mono hpq hv hw
  rw [bucketOf_eq_some_iff] at hi hj
  apply mid_mono
  by_contra hlt
  exact hi.2 j (not_le.mp hlt) (UInt64.lt_of_le_of_lt hle hj.1)

theorem toNat_countP (hlength : xs.length < 2 ^ 64) (P : UInt64 → Prop)
    [DecidablePred P] :
    (UInt64.ofNat (xs.countP (P ·))).toNat = xs.countP (P ·) := by
  have hle := List.countP_le_length (p := (P ·)) (l := xs)
  exact UInt64.toNat_ofNat_of_lt' (by simpa using lt_of_le_of_lt hle hlength)

theorem countP_under_nBuckets_iff :
    xs.countP (Under nBuckets ·) = xs.length ↔
      ∀ us ∈ xs, us ≠ maxLatency := by
  rw [List.countP_eq_length]
  simp only [decide_eq_true_eq, under_nBuckets_iff]

structure MarkedAll (xs : List UInt64) (k : ℕ) (s : UInt64 × Marks) :
    Prop where
  cum : s.1 = UInt64.ofNat (xs.countP (Under k ·))
  p50 : Marked (50 / 100) xs k s.2.p50
  p95 : Marked (95 / 100) xs k s.2.p95
  p99 : Marked (99 / 100) xs k s.2.p99

theorem MarkedAll.scanBucket (hlength : xs.length < 2 ^ 64)
    {s : UInt64 × Marks} (h : MarkedAll xs i s) :
    MarkedAll xs (i + 1)
      (scanBucket (tally xs) (UInt64.ofNat xs.length) s i) := by
  have hcum : s.1 + tally xs i =
      UInt64.ofNat (xs.countP (Under (i + 1) ·)) := by
    rw [h.cum, add_tally]
  have hfraction : ((s.1 + tally xs i).toNat : ℚ) /
      (UInt64.ofNat xs.length).toNat = fraction xs i := by
    rw [hcum, toNat_countP hlength, UInt64.toNat_ofNat_of_lt' hlength]
    rfl
  unfold MetricsStore.scanBucket
  dsimp only
  rw [hfraction]
  exact ⟨hcum, h.p50.set, h.p95.set, h.p99.set⟩

theorem Marked.representative_eq (hp : 0 < p) (hp' : p ≤ 100)
    (hxs : xs ≠ []) (hmax : ∀ us ∈ xs, us ≠ maxLatency)
    (h : Marked (p / 100) xs nBuckets mark) :
    some mark.2 = representative p xs := by
  rcases h with ⟨-, hnone⟩ | ⟨i, rfl, hfirst⟩
  · refine absurd ?_ (hnone (Fin.last 7) (by decide))
    rw [share_le_fraction_iff hxs]
    exact (rank_le hp').trans (countP_under_nBuckets_iff.mpr hmax).ge
  · exact (hfirst.representative_eq hp hp' hxs).symm

theorem percentiles_marked {m : MetricsStore} (hlength : xs.length < 2 ^ 64)
    (hxs : xs ≠ []) (hmax : ∀ us ∈ xs, us ≠ maxLatency)
    (hcounts : m.latencyBuckets = tally xs) : ∃ cum,
    MarkedAll xs nBuckets (cum, m.percentiles) := by
  have htotal : countTotal (tally xs) = UInt64.ofNat xs.length := by
    rw [countTotal_tally, countP_under_nBuckets_iff.mpr hmax]
  have hpos : 0 < UInt64.ofNat xs.length := by
    rw [UInt64.lt_iff_toNat_lt, UInt64.toNat_ofNat_of_lt' hlength]
    exact List.length_pos_iff.mpr hxs
  unfold percentiles
  rw [hcounts]
  dsimp only
  rw [htotal, if_pos hpos]
  refine ⟨_, foldl_holds (MarkedAll xs) (s := (0, m.unmarked)) ⟨?_, ?_, ?_, ?_⟩
    fun i s => MarkedAll.scanBucket hlength⟩
  · rw [countP_under_zero]
    rfl
  · exact Or.inl ⟨rfl, fun i hi => absurd hi (Nat.not_lt_zero _)⟩
  · exact Or.inl ⟨rfl, fun i hi => absurd hi (Nat.not_lt_zero _)⟩
  · exact Or.inl ⟨rfl, fun i hi => absurd hi (Nat.not_lt_zero _)⟩

/-! ## What is published -/

/-- What a call moves out of a window, it publishes. -/
theorem published_sum (lastSec window total : MetricsStore → UInt64)
    (hstep : ∀ m call,
      (if call = .computePercentiles then lastSec (take m call) else 0) +
        window (take m call) + total m = total (take m call) + window m)
    (m : MetricsStore) (calls : List MetricsCall) :
    (published lastSec m calls).sum + window (m.takeAll calls) + total m =
      total (m.takeAll calls) + window m := by
  induction calls generalizing m with
  | nil =>
      change 0 + window m + total m = total m + window m
      rw [UInt64.zero_add, UInt64.add_comm]
  | cons call calls ih =>
      have hcall := hstep m call
      have hrest := ih (m.take call)
      change _ + window ((m.take call).takeAll calls) + total m =
        total ((m.take call).takeAll calls) + window m
      unfold published
      split_ifs at hcall ⊢ with hcompute
      · rw [List.sum_cons]
        grind
      · grind

theorem searches_conserved (calls : List MetricsCall) :
    (published searchesLastSec initial calls).sum +
        (initial.takeAll calls).searchesWindow =
      (initial.takeAll calls).totalSearches := by
  have hsum := published_sum searchesLastSec searchesWindow totalSearches
    (fun m call => by
      cases call <;>
        simp [take, recordSearch, recordInsert, computePercentiles] <;> grind)
    initial calls
  change _ + (0 : UInt64) = _ + (0 : UInt64) at hsum
  rwa [UInt64.add_zero, UInt64.add_zero] at hsum

theorem inserts_conserved (calls : List MetricsCall) :
    (published insertsLastSec initial calls).sum +
        (initial.takeAll calls).insertsWindow =
      (initial.takeAll calls).totalInserts := by
  have hsum := published_sum insertsLastSec insertsWindow totalInserts
    (fun m call => by
      cases call <;>
        simp [take, recordSearch, recordInsert, computePercentiles] <;> grind)
    initial calls
  change _ + (0 : UInt64) = _ + (0 : UInt64) at hsum
  rwa [UInt64.add_zero, UInt64.add_zero] at hsum

theorem buckets_iff (hlength : (latencies calls).length < 2 ^ 64) :
    countTotal (initial.takeAll calls).latencyBuckets =
        (initial.takeAll calls).totalSearches ↔
      ∀ us ∈ latencies calls, us ≠ maxLatency := by
  have hcounts : (initial.takeAll calls).latencyBuckets =
      tally (latencies calls) := funext (takeAll_latencyBuckets calls)
  rw [hcounts, countTotal_tally, takeAll_totalSearches,
    ← countP_under_nBuckets_iff, ← UInt64.toNat_inj, toNat_countP hlength,
    UInt64.toNat_ofNat_of_lt' hlength]

/-- Where no 64-bit counter has come round, the metrics follow the latencies
exactly if none of them is the greatest value there is. -/
theorem followsLatencies_iff (calls : List MetricsCall)
    (hlength : (latencies calls).length < 2 ^ 64) :
    FollowsLatencies calls ↔ ∀ us ∈ latencies calls, us ≠ maxLatency := by
  refine ⟨fun h => (buckets_iff hlength).mp h.buckets, fun hmax => ?_⟩
  have hcounts : (initial.takeAll calls).latencyBuckets =
      tally (latencies calls) := funext (takeAll_latencyBuckets calls)
  have hpercentiles : latencies calls ≠ [] →
      some (initial.takeAll calls).computePercentiles.searchP50Us =
          representative 50 (latencies calls) ∧
        some (initial.takeAll calls).computePercentiles.searchP95Us =
          representative 95 (latencies calls) ∧
        some (initial.takeAll calls).computePercentiles.searchP99Us =
          representative 99 (latencies calls) := by
    intro hxs
    obtain ⟨cum, hmarked⟩ := percentiles_marked hlength hxs hmax hcounts
    refine ⟨?_, ?_, ?_⟩
    · exact hmarked.p50.representative_eq (by norm_num) (by norm_num) hxs hmax
    · exact hmarked.p95.representative_eq (by norm_num) (by norm_num) hxs hmax
    · exact hmarked.p99.representative_eq (by norm_num) (by norm_num) hxs hmax
  exact {
    buckets := (buckets_iff hlength).mpr hmax
    p50 := fun hxs => (hpercentiles hxs).1
    p95 := fun hxs => (hpercentiles hxs).2.1
    p99 := fun hxs => (hpercentiles hxs).2.2
    p50_le_p95 := fun hxs =>
      representative_le (by norm_num) (hpercentiles hxs).1.symm
        (hpercentiles hxs).2.1.symm
    p95_le_p99 := fun hxs =>
      representative_le (by norm_num) (hpercentiles hxs).2.1.symm
        (hpercentiles hxs).2.2.symm
    searches := searches_conserved calls
    inserts := inserts_conserved calls }

def twoSearches : List MetricsCall :=
  [.recordSearch 120, .computePercentiles, .recordInsert 40, .recordSearch 90]

theorem followsLatencies_twoSearches : FollowsLatencies twoSearches := by
  have hlatencies : latencies twoSearches = [120, 90] := rfl
  apply (followsLatencies_iff twoSearches (by decide)).mpr
  rw [hlatencies]
  exact List.forall_mem_cons.mpr ⟨by decide, by simp [maxLatency]⟩

/-- A search of the greatest latency is counted in no bucket. -/
theorem not_followsLatencies :
    ¬ FollowsLatencies [.recordSearch maxLatency] := by
  intro h
  exact absurd h.buckets (by decide)

end MetricsStore
end VecDB
