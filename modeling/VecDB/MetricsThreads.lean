import VecDB.Metrics
import Mathlib.Tactic

/-!
# The two threads on the metrics

The thread of `HttpApiServer::run` that serves the clients records, and the
ticker that it starts computes the percentiles.  They share the counters of the
`MetricsStore` and nothing else, so their steps interleave at the single atomic
operation.
-/

namespace VecDB
namespace MetricsStore

/-! ## The thread that records -/

inductive Record where
  | search (us : UInt64)
  | insert (us : UInt64)
  deriving DecidableEq, Repr

/-- An atomic operation of `record_search` or `record_insert`. -/
inductive RecordStep where
  | totalSearches
  | searchesWindow
  | searchLatency (us : UInt64)
  | bucket (us : UInt64)
  | totalInserts
  | insertsWindow
  | insertLatency (us : UInt64)
  deriving DecidableEq, Repr

def Record.steps : Record → List RecordStep
  | .search us =>
      [.totalSearches, .searchesWindow, .searchLatency us, .bucket us]
  | .insert us => [.totalInserts, .insertsWindow, .insertLatency us]

def Record.call : Record → MetricsCall
  | .search us => .recordSearch us
  | .insert us => .recordInsert us

/-- The latency that an operation counts in a bucket. -/
def RecordStep.counted : RecordStep → List UInt64
  | .bucket us => if (bucketOf us).isSome then [us] else []
  | _ => []

def applyRecord (m : MetricsStore) : RecordStep → MetricsStore
  | .totalSearches => { m with totalSearches := m.totalSearches + 1 }
  | .searchesWindow => { m with searchesWindow := m.searchesWindow + 1 }
  | .searchLatency us =>
      { m with searchLatencyUsSum := m.searchLatencyUsSum + us }
  | .bucket us =>
      { m with
        latencyBuckets := match bucketOf us with
          | some i =>
              Function.update m.latencyBuckets i (m.latencyBuckets i + 1)
          | none => m.latencyBuckets }
  | .totalInserts => { m with totalInserts := m.totalInserts + 1 }
  | .insertsWindow => { m with insertsWindow := m.insertsWindow + 1 }
  | .insertLatency us =>
      { m with insertLatencyUsSum := m.insertLatencyUsSum + us }

/-! ## The ticker -/

inductive Percentile where
  | p50
  | p95
  | p99
  deriving DecidableEq, Repr

namespace Percentile

def all : List Percentile := [.p50, .p95, .p99]

def share : Percentile → ℕ
  | .p50 => 50
  | .p95 => 95
  | .p99 => 99

end Percentile

def Marks.get (marks : Marks) : Percentile → Mark
  | .p50 => marks.p50
  | .p95 => marks.p95
  | .p99 => marks.p99

def percentileUs (m : MetricsStore) : Percentile → UInt64
  | .p50 => m.searchP50Us
  | .p95 => m.searchP95Us
  | .p99 => m.searchP99Us

/-- The store of a percentile. -/
structure PercentileWrite where
  percentile : Percentile
  us : UInt64
  deriving DecidableEq, Repr

def applyWrite (m : MetricsStore) (w : PercentileWrite) : MetricsStore :=
  match w.percentile with
  | .p50 => { m with searchP50Us := w.us }
  | .p95 => { m with searchP95Us := w.us }
  | .p99 => { m with searchP99Us := w.us }

/-- What a bucket sets is stored at once. -/
def newWrites (old new : Marks) : List PercentileWrite :=
  Percentile.all.filterMap fun p =>
    if (old.get p).1 = false ∧ (new.get p).1 = true then
      some ⟨p, (new.get p).2⟩
    else none

def noMarks : Marks where
  p50 := (false, 0)
  p95 := (false, 0)
  p99 := (false, 0)

def scanAndWrite (counts : Fin nBuckets → UInt64) (total : UInt64)
    (s : (UInt64 × Marks) × List PercentileWrite) (i : Fin nBuckets) :
    (UInt64 × Marks) × List PercentileWrite :=
  let next := scanBucket counts total s.1 i
  (next, s.2 ++ newWrites s.1.2 next.2)

/-- The loop over the counts that were loaded. -/
def scan (counts : Fin nBuckets → UInt64) :
    (UInt64 × Marks) × List PercentileWrite :=
  Fin.foldl nBuckets (scanAndWrite counts (countTotal counts))
    ((0, noMarks), [])

def percentileWrites (counts : Fin nBuckets → UInt64) :
    List PercentileWrite :=
  if 0 < countTotal counts then (scan counts).2 else []

/-- Where the ticker is in `compute_percentiles`. -/
inductive Ticker where
  | idle
  | loading (loaded : ℕ) (counts : Fin nBuckets → UInt64)
  | writing (writes : List PercentileWrite)
  | insertsTaken (n : UInt64)
  | insertsStored
  | searchesTaken (n : UInt64)

/-- The next atomic operation of the ticker. -/
def tick (m : MetricsStore) : Ticker → MetricsStore × Ticker
  | .idle => (m, .loading 0 fun _ => 0)
  | .loading k counts =>
      if h : k < nBuckets then
        (m, .loading (k + 1)
          (Function.update counts ⟨k, h⟩ (m.latencyBuckets ⟨k, h⟩)))
      else (m, .writing (percentileWrites counts))
  | .writing (w :: ws) => (m.applyWrite w, .writing ws)
  | .writing [] =>
      ({ m with insertsWindow := 0 }, .insertsTaken m.insertsWindow)
  | .insertsTaken n => ({ m with insertsLastSec := n }, .insertsStored)
  | .insertsStored =>
      ({ m with searchesWindow := 0 }, .searchesTaken m.searchesWindow)
  | .searchesTaken n => ({ m with searchesLastSec := n }, .idle)

/-! ## Both -/

/-- The store, what is left of the record in progress, and the ticker. -/
structure Threads where
  store : MetricsStore
  handler : List RecordStep
  ticker : Ticker

/-- A turn of a thread.  A record begins when the one before has ended. -/
inductive Turn where
  | record (r : Record)
  | handler
  | ticker
  deriving DecidableEq, Repr

namespace Threads

def start : Threads where
  store := initial
  handler := []
  ticker := .idle

def turn (t : Threads) : Turn → Threads
  | .record r => if t.handler = [] then { t with handler := r.steps } else t
  | .handler =>
      match t.handler with
      | [] => t
      | step :: rest =>
          { t with store := t.store.applyRecord step, handler := rest }
  | .ticker =>
      { t with
        store := (t.store.tick t.ticker).1
        ticker := (t.store.tick t.ticker).2 }

end Threads

/-- The threads, and what is not in the program: the records that have begun,
the latencies that are in the buckets, those that were when the last tick began
and when it had loaded the counts, and the rates that were published. -/
structure Watched where
  threads : Threads
  begun : List Record
  counted : List UInt64
  opened : List UInt64
  closed : List UInt64
  insertRates : List UInt64
  searchRates : List UInt64

namespace Watched

def start : Watched where
  threads := .start
  begun := []
  counted := []
  opened := []
  closed := []
  insertRates := []
  searchRates := []

def turn (w : Watched) (a : Turn) : Watched :=
  let w' := { w with threads := w.threads.turn a }
  match a with
  | .record r =>
      if w.threads.handler = [] then { w' with begun := w.begun ++ [r] } else w'
  | .handler =>
      { w' with
        counted := w.counted ++
          w.threads.handler.head?.toList.flatMap RecordStep.counted }
  | .ticker =>
      match w.threads.ticker with
      | .idle => { w' with opened := w.counted }
      | .loading k _ =>
          if k < nBuckets then w' else { w' with closed := w.counted }
      | .insertsTaken n => { w' with insertRates := w.insertRates ++ [n] }
      | .searchesTaken n => { w' with searchRates := w.searchRates ++ [n] }
      | _ => w'

/-- The threads behind any schedule of their turns. -/
def run (turns : List Turn) : Watched := turns.foldl turn start

end Watched

/-! ## What is counted -/

/-- The counters that only a record changes. -/
structure SameCounts (m m' : MetricsStore) : Prop where
  totalInserts : m.totalInserts = m'.totalInserts
  totalSearches : m.totalSearches = m'.totalSearches
  insertLatencyUsSum : m.insertLatencyUsSum = m'.insertLatencyUsSum
  searchLatencyUsSum : m.searchLatencyUsSum = m'.searchLatencyUsSum
  latencyBuckets : m.latencyBuckets = m'.latencyBuckets

namespace SameCounts

variable {m m' m'' : MetricsStore}

theorem refl (m : MetricsStore) : SameCounts m m :=
  ⟨rfl, rfl, rfl, rfl, rfl⟩

theorem trans (h : SameCounts m m') (h' : SameCounts m' m'') :
    SameCounts m m'' where
  totalInserts := h.totalInserts.trans h'.totalInserts
  totalSearches := h.totalSearches.trans h'.totalSearches
  insertLatencyUsSum := h.insertLatencyUsSum.trans h'.insertLatencyUsSum
  searchLatencyUsSum := h.searchLatencyUsSum.trans h'.searchLatencyUsSum
  latencyBuckets := h.latencyBuckets.trans h'.latencyBuckets

theorem applyRecord (h : SameCounts m m') (step : RecordStep) :
    SameCounts (m.applyRecord step) (m'.applyRecord step) := by
  obtain ⟨hinserts, hsearches, hinsertSum, hsearchSum, hbuckets⟩ := h
  cases step <;>
    simp only [MetricsStore.applyRecord] <;>
    constructor <;> simp_all

theorem applyAll (h : SameCounts m m') (steps : List RecordStep) :
    SameCounts (steps.foldl MetricsStore.applyRecord m)
      (steps.foldl MetricsStore.applyRecord m') := by
  induction steps generalizing m m' with
  | nil => exact h
  | cons step steps ih => exact ih (h.applyRecord step)

end SameCounts

theorem applyWrite_sameCounts (m : MetricsStore) (w : PercentileWrite) :
    SameCounts (m.applyWrite w) m := by
  obtain ⟨p, us⟩ := w
  cases p <;> exact ⟨rfl, rfl, rfl, rfl, rfl⟩

theorem tick_load (m : MetricsStore) {k : ℕ} (hk : k < nBuckets)
    (counts : Fin nBuckets → UInt64) :
    m.tick (.loading k counts) = (m, .loading (k + 1)
      (Function.update counts ⟨k, hk⟩ (m.latencyBuckets ⟨k, hk⟩))) :=
  dif_pos hk

theorem tick_loaded (m : MetricsStore) {k : ℕ} (hk : ¬ k < nBuckets)
    (counts : Fin nBuckets → UInt64) :
    m.tick (.loading k counts) = (m, .writing (percentileWrites counts)) :=
  dif_neg hk

theorem tick_sameCounts (m : MetricsStore) (ticker : Ticker) :
    SameCounts (m.tick ticker).1 m := by
  cases ticker with
  | idle => exact SameCounts.refl m
  | loading k counts =>
      by_cases hk : k < nBuckets
      · rw [tick_load m hk]
        exact SameCounts.refl m
      · rw [tick_loaded m hk]
        exact SameCounts.refl m
  | writing ws =>
      cases ws with
      | nil => exact ⟨rfl, rfl, rfl, rfl, rfl⟩
      | cons w ws => exact applyWrite_sameCounts m w
  | insertsTaken n => exact ⟨rfl, rfl, rfl, rfl, rfl⟩
  | insertsStored => exact ⟨rfl, rfl, rfl, rfl, rfl⟩
  | searchesTaken n => exact ⟨rfl, rfl, rfl, rfl, rfl⟩

theorem applyAll_steps (m : MetricsStore) (r : Record) :
    r.steps.foldl applyRecord m = m.take r.call := by
  cases r <;> rfl

theorem takeAll_snoc (m : MetricsStore) (calls : List MetricsCall)
    (call : MetricsCall) :
    m.takeAll (calls ++ [call]) = (m.takeAll calls).take call :=
  List.foldl_append

/-! ## What is published -/

/-- The value that the ticker has taken out of a window. -/
def Ticker.insertsInHand : Ticker → UInt64
  | .insertsTaken n => n
  | _ => 0

def Ticker.searchesInHand : Ticker → UInt64
  | .searchesTaken n => n
  | _ => 0

/-- How often an operation is still to come in the record in progress. -/
def pending (step : RecordStep) (handler : List RecordStep) : UInt64 :=
  UInt64.ofNat (handler.count step)

theorem pending_cons (step next : RecordStep) (rest : List RecordStep) :
    pending step (next :: rest) =
      pending step rest + if next = step then 1 else 0 := by
  unfold pending
  by_cases hnext : next = step
  · subst hnext
    rw [List.count_cons_self, if_pos rfl, UInt64.ofNat_add]
    rfl
  · rw [List.count_cons_of_ne hnext, if_neg hnext, UInt64.add_zero]

/-- Every record is in the totals and in exactly one rate, or on its way. -/
structure Accounted (w : Watched) : Prop where
  counts : SameCounts
    (w.threads.handler.foldl applyRecord w.threads.store)
    (initial.takeAll (w.begun.map Record.call))
  searches : w.searchRates.sum + w.threads.ticker.searchesInHand +
      w.threads.store.searchesWindow +
      pending .searchesWindow w.threads.handler =
    w.threads.store.totalSearches + pending .totalSearches w.threads.handler
  inserts : w.insertRates.sum + w.threads.ticker.insertsInHand +
      w.threads.store.insertsWindow + pending .insertsWindow w.threads.handler =
    w.threads.store.totalInserts + pending .totalInserts w.threads.handler

namespace Accounted

variable {w : Watched}

theorem record (h : Accounted w) (r : Record) :
    Accounted (w.turn (.record r)) := by
  obtain ⟨hcounts, hsearches, hinserts⟩ := h
  by_cases hidle : w.threads.handler = []
  · rw [hidle] at hcounts hsearches hinserts
    simp only [Watched.turn, Threads.turn, if_pos hidle]
    refine ⟨?_, ?_, ?_⟩
    · rw [List.map_append, List.map_singleton, takeAll_snoc, ← applyAll_steps]
      exact hcounts.applyAll r.steps
    · cases r <;> simp [Record.steps, pending_cons] <;> grind [pending]
    · cases r <;> simp [Record.steps, pending_cons] <;> grind [pending]
  · simp only [Watched.turn, Threads.turn, if_neg hidle]
    exact ⟨hcounts, hsearches, hinserts⟩

theorem handler (h : Accounted w) : Accounted (w.turn .handler) := by
  obtain ⟨hcounts, hsearches, hinserts⟩ := h
  cases hrest : w.threads.handler with
  | nil =>
      rw [hrest] at hcounts hsearches hinserts
      simp only [Watched.turn, Threads.turn, hrest]
      exact ⟨hrest ▸ hcounts, hrest ▸ hsearches, hrest ▸ hinserts⟩
  | cons step rest =>
      rw [hrest] at hcounts hsearches hinserts
      simp only [Watched.turn, Threads.turn, hrest]
      refine ⟨hcounts, ?_, ?_⟩
      · cases step <;> simp [pending_cons, applyRecord] at hsearches ⊢ <;>
          grind
      · cases step <;> simp [pending_cons, applyRecord] at hinserts ⊢ <;>
          grind

theorem ticker (h : Accounted w) : Accounted (w.turn .ticker) := by
  obtain ⟨hcounts, hsearches, hinserts⟩ := h
  have hsame := (tick_sameCounts w.threads.store w.threads.ticker).applyAll
    w.threads.handler
  cases hticker : w.threads.ticker with
  | idle =>
      rw [hticker] at hsearches hinserts
      simp only [Watched.turn, Threads.turn, hticker, tick]
      exact ⟨hcounts, hsearches, hinserts⟩
  | loading k counts =>
      rw [hticker] at hsearches hinserts
      by_cases hk : k < nBuckets
      · simp only [Watched.turn, Threads.turn, hticker, tick_load _ hk,
          if_pos hk]
        exact ⟨hcounts, hsearches, hinserts⟩
      · simp only [Watched.turn, Threads.turn, hticker, tick_loaded _ hk,
          if_neg hk]
        exact ⟨hcounts, hsearches, hinserts⟩
  | writing ws =>
      rw [hticker] at hsame hsearches hinserts
      cases ws with
      | nil =>
          simp only [Watched.turn, Threads.turn, hticker, tick]
          refine ⟨hsame.trans hcounts, hsearches, ?_⟩
          simp [Ticker.insertsInHand] at hinserts ⊢
          grind
      | cons write ws =>
          simp only [Watched.turn, Threads.turn, hticker, tick]
          obtain ⟨p, us⟩ := write
          refine ⟨hsame.trans hcounts, ?_, ?_⟩
          · cases p <;> exact hsearches
          · cases p <;> exact hinserts
  | insertsTaken n =>
      rw [hticker] at hsame hsearches hinserts
      simp only [Watched.turn, Threads.turn, hticker, tick]
      refine ⟨hsame.trans hcounts, hsearches, ?_⟩
      simp [Ticker.insertsInHand] at hinserts ⊢
      grind
  | insertsStored =>
      rw [hticker] at hsame hsearches hinserts
      simp only [Watched.turn, Threads.turn, hticker, tick]
      refine ⟨hsame.trans hcounts, ?_, hinserts⟩
      simp [Ticker.searchesInHand] at hsearches ⊢
      grind
  | searchesTaken n =>
      rw [hticker] at hsame hsearches hinserts
      simp only [Watched.turn, Threads.turn, hticker, tick]
      refine ⟨hsame.trans hcounts, ?_, hinserts⟩
      simp [Ticker.searchesInHand] at hsearches ⊢
      grind

end Accounted

/-- In every interleaving nothing is lost between the threads. -/
theorem run_accounted (turns : List Turn) :
    Accounted (Watched.run turns) := by
  induction turns using List.reverseRecOn with
  | nil => exact ⟨SameCounts.refl _, rfl, rfl⟩
  | append_singleton turns a ih =>
      rw [Watched.run, List.foldl_append]
      cases a with
      | record r => exact ih.record r
      | handler => exact ih.handler
      | ticker => exact ih.ticker

end MetricsStore
end VecDB
