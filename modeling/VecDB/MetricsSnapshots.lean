import VecDB.MetricsThreads
import Mathlib.Tactic

/-!
# What a tick reads

The ticker loads the buckets one after another while searches are recorded, so
the counts it works with may never have been in the store together.  They are
still the counts of some of the searches: of all that were counted when the tick
began, and of no search that was counted after the last load.  The percentiles
it stores are those of these searches.
-/

namespace VecDB
namespace MetricsStore

/-! ## Tallies -/

theorem tally_append (xs ys : List UInt64) (i : Fin nBuckets) :
    tally (xs ++ ys) i = tally xs i + tally ys i := by
  unfold tally
  rw [List.countP_append, UInt64.ofNat_add]

@[simp] theorem tally_nil (i : Fin nBuckets) : tally [] i = 0 := rfl

theorem applyRecord_latencyBuckets (m : MetricsStore) (step : RecordStep)
    (i : Fin nBuckets) :
    (m.applyRecord step).latencyBuckets i =
      m.latencyBuckets i + tally step.counted i := by
  cases step with
  | bucket us =>
      simp only [applyRecord, RecordStep.counted, tally]
      cases hbucket : bucketOf us with
      | none => simp
      | some j =>
          by_cases hij : j = i
          · subst hij
            simp [hbucket]
          · simp [hbucket, hij, Function.update_of_ne (Ne.symm hij)]
  | totalSearches => exact (UInt64.add_zero _).symm
  | searchesWindow => exact (UInt64.add_zero _).symm
  | searchLatency us => exact (UInt64.add_zero _).symm
  | totalInserts => exact (UInt64.add_zero _).symm
  | insertsWindow => exact (UInt64.add_zero _).symm
  | insertLatency us => exact (UInt64.add_zero _).symm

theorem ne_maxLatency_of_counted {step : RecordStep} {us : UInt64}
    (hus : us ∈ step.counted) : us ≠ maxLatency := by
  cases step with
  | bucket other =>
      change us ∈ if (bucketOf other).isSome = true then [other] else [] at hus
      split_ifs at hus with hsome
      · obtain ⟨i, hi⟩ := Option.isSome_iff_exists.mp hsome
        rw [List.mem_singleton.mp hus]
        exact under_nBuckets_iff.mp
          ⟨i, i.isLt, (bucketOf_eq_some_iff.mp hi).1⟩
      · cases hus
  | _ => cases hus

/-- The latency is in one of the buckets from `k` on. -/
def From (k : ℕ) (us : UInt64) : Prop :=
  ∃ i : Fin nBuckets, bucketOf us = some i ∧ k ≤ i.val

instance (k : ℕ) : DecidablePred (From k) :=
  fun _ => inferInstanceAs (Decidable (∃ _, _))

theorem tally_from (k : ℕ) (xs : List UInt64) (i : Fin nBuckets) :
    tally (xs.filter (From k ·)) i = if k ≤ i.val then tally xs i else 0 := by
  unfold tally
  rw [List.countP_filter]
  split_ifs with hk
  · congr 1
    apply List.countP_congr
    intro us _
    simp only [Bool.and_eq_true, decide_eq_true_eq, and_iff_left_iff_imp]
    exact fun hi => ⟨i, hi, hk⟩
  · have hzero : xs.countP (fun us => decide (bucketOf us = some i) &&
        decide (From k us)) = 0 := by
      rw [List.countP_eq_zero]
      intro us _
      simp only [Bool.and_eq_true, decide_eq_true_eq, not_and]
      rintro hi ⟨j, hj, hkj⟩
      rw [hi] at hj
      cases hj
      exact hk hkj
    rw [hzero]
    rfl

/-! ## Percentiles -/

/-- The stored percentiles are those of the latencies, or still zero. -/
def Published (xs : List UInt64) (m : MetricsStore) : Prop :=
  ∀ p, m.percentileUs p = (representative p.share xs).getD 0

theorem applyRecord_percentileUs (m : MetricsStore) (step : RecordStep)
    (p : Percentile) : (m.applyRecord step).percentileUs p =
      m.percentileUs p := by
  cases step <;> cases p <;> rfl

theorem applyWrite_percentileUs (m : MetricsStore) (w : PercentileWrite)
    (p : Percentile) : (m.applyWrite w).percentileUs p =
      if w.percentile = p then w.us else m.percentileUs p := by
  obtain ⟨q, us⟩ := w
  cases q <;> cases p <;> rfl

/-- What the stores make of a percentile. -/
def overwrite (ws : List PercentileWrite) (p : Percentile) (us : UInt64) :
    UInt64 :=
  ws.foldl (fun us w => if w.percentile = p then w.us else us) us

theorem applyWrites_percentileUs (m : MetricsStore)
    (ws : List PercentileWrite) (p : Percentile) :
    (ws.foldl applyWrite m).percentileUs p =
      overwrite ws p (m.percentileUs p) := by
  induction ws generalizing m with
  | nil => rfl
  | cons w ws ih =>
      rw [List.foldl_cons, ih, applyWrite_percentileUs]
      rfl

theorem overwrite_newWrites (old new : Marks) (p : Percentile) (us : UInt64) :
    overwrite (newWrites old new) p us =
      if (old.get p).1 = false ∧ (new.get p).1 = true then (new.get p).2
      else us := by
  unfold overwrite newWrites Percentile.all
  cases p <;>
    simp only [List.filterMap_cons, List.filterMap_nil] <;>
    split_ifs <;> simp_all

theorem scanBucket_get (counts : Fin nBuckets → UInt64) (total : UInt64)
    (s : UInt64 × Marks) (i : Fin nBuckets) (p : Percentile) :
    ((scanBucket counts total s i).2.get p) =
      (s.2.get p).set (p.share / 100)
        (((s.1 + counts i).toNat : ℚ) / total.toNat) (mid i) := by
  cases p <;> rfl

/-- The stores bring every percentile to its mark, once that is set. -/
theorem scan_writes (counts : Fin nBuckets → UInt64) (p : Percentile)
    (us : UInt64) :
    overwrite (scan counts).2 p us =
      if ((scan counts).1.2.get p).1 = true then ((scan counts).1.2.get p).2
      else us := by
  refine foldl_holds (n := nBuckets)
    (fun _ (s : (UInt64 × Marks) × List PercentileWrite) =>
      overwrite s.2 p us =
        if (s.1.2.get p).1 = true then (s.1.2.get p).2 else us) ?_ ?_
  · cases p <;> rfl
  · intro i s hs
    unfold scanAndWrite
    dsimp only
    unfold overwrite at hs ⊢
    rw [List.foldl_append, hs]
    have hnew := overwrite_newWrites s.1.2
      (scanBucket counts (countTotal counts) s.1 i).2 p
    unfold overwrite at hnew
    rw [hnew, scanBucket_get]
    unfold Mark.set
    split_ifs <;> simp_all

section Stored

variable {xs : List UInt64} {k : ℕ}

theorem MarkedAll.get {s : UInt64 × Marks} (h : MarkedAll xs k s)
    (p : Percentile) : Marked (p.share / 100) xs k (s.2.get p) := by
  cases p with
  | p50 => exact h.p50
  | p95 => exact h.p95
  | p99 => exact h.p99

/-- All buckets together have every share. -/
theorem Marked.set_eq_true {p : ℕ} {mark : Mark} (hp : p ≤ 100)
    (hxs : xs ≠ []) (hmax : ∀ us ∈ xs, us ≠ maxLatency)
    (h : Marked (p / 100) xs nBuckets mark) : mark.1 = true := by
  rcases h with ⟨-, hnone⟩ | ⟨i, rfl, -⟩
  · refine absurd ?_ (hnone (Fin.last 7) (by decide))
    rw [share_le_fraction_iff hxs]
    exact (NearestRank.rank_le hp).trans (countP_under_nBuckets_iff.mpr hmax).ge
  · rfl

theorem scan_marked (hlength : xs.length < 2 ^ 64)
    (htotal : countTotal (tally xs) = UInt64.ofNat xs.length) :
    MarkedAll xs nBuckets (scan (tally xs)).1 := by
  unfold scan
  rw [htotal]
  refine foldl_holds (fun k (s : (UInt64 × Marks) × List PercentileWrite) =>
    MarkedAll xs k s.1) ⟨?_, ?_, ?_, ?_⟩
    fun i s hs => MarkedAll.scanBucket hlength hs
  · rw [countP_under_zero]
    rfl
  · exact Or.inl ⟨rfl, fun i hi => absurd hi (Nat.not_lt_zero _)⟩
  · exact Or.inl ⟨rfl, fun i hi => absurd hi (Nat.not_lt_zero _)⟩
  · exact Or.inl ⟨rfl, fun i hi => absurd hi (Nat.not_lt_zero _)⟩

theorem countTotal_tally_of_ne (hmax : ∀ us ∈ xs, us ≠ maxLatency) :
    countTotal (tally xs) = UInt64.ofNat xs.length := by
  rw [countTotal_tally, countP_under_nBuckets_iff.mpr hmax]

theorem Percentile.share_bounds (p : Percentile) :
    0 < p.share ∧ p.share ≤ 100 := by
  cases p <;> decide

theorem representative_eq_mark (hlength : xs.length < 2 ^ 64)
    (hmax : ∀ us ∈ xs, us ≠ maxLatency) (hxs : xs ≠ []) (p : Percentile) :
    representative p.share xs = some ((scan (tally xs)).1.2.get p).2 :=
  (((scan_marked hlength (countTotal_tally_of_ne hmax)).get
    p).representative_eq p.share_bounds.1 p.share_bounds.2 hxs hmax).symm

theorem published_writes {m : MetricsStore} (hlength : xs.length < 2 ^ 64)
    (hmax : ∀ us ∈ xs, us ≠ maxLatency) (hold : xs = [] → Published [] m) :
    Published xs ((percentileWrites (tally xs)).foldl applyWrite m) := by
  have htotal := countTotal_tally_of_ne hmax
  unfold percentileWrites
  rw [htotal]
  by_cases hxs : xs = []
  · subst hxs
    exact hold rfl
  · have hpos : 0 < UInt64.ofNat xs.length := by
      rw [UInt64.lt_iff_toNat_lt, UInt64.toNat_ofNat_of_lt' hlength]
      exact List.length_pos_iff.mpr hxs
    rw [if_pos hpos]
    intro p
    have hmarked := (scan_marked hlength htotal).get p
    rw [applyWrites_percentileUs, scan_writes,
      if_pos (hmarked.set_eq_true p.share_bounds.2 hxs hmax),
      representative_eq_mark hlength hmax hxs]
    rfl

/-- Percentiles of the same latencies are in order. -/
theorem Published.ordered {m : MetricsStore} (h : Published xs m)
    (hlength : xs.length < 2 ^ 64) (hmax : ∀ us ∈ xs, us ≠ maxLatency)
    {p q : Percentile} (hpq : p.share ≤ q.share) :
    m.percentileUs p ≤ m.percentileUs q := by
  rw [h p, h q]
  by_cases hxs : xs = []
  · subst hxs
    cases p <;> cases q <;> decide
  · have hp := representative_eq_mark hlength hmax hxs p
    have hq := representative_eq_mark hlength hmax hxs q
    have hle := representative_le hpq hp hq
    rwa [hp, hq]

end Stored

/-! ## Along a run -/

/-- The percentiles are those of latencies between two lists. -/
def StoredFrom (opened closed : List UInt64) (m : MetricsStore) : Prop :=
  ∃ xs, opened.IsPrefix xs ∧ xs.Sublist closed ∧ Published xs m

/-- What the ticker knows of the latencies. -/
def Knows (w : Watched) : Prop :=
  match w.threads.ticker with
  | .loading k counts =>
      (∃ xs, w.opened.IsPrefix xs ∧ xs.Sublist w.counted ∧
        ∀ i : Fin nBuckets, tally xs i =
          if i.val < k then counts i else w.threads.store.latencyBuckets i) ∧
      ∃ xs, xs.Sublist w.opened ∧ Published xs w.threads.store
  | .writing ws =>
      StoredFrom w.opened w.closed (ws.foldl applyWrite w.threads.store)
  | _ => StoredFrom w.opened w.closed w.threads.store

structure Snapshot (w : Watched) : Prop where
  buckets : ∀ i, w.threads.store.latencyBuckets i = tally w.counted i
  ne_max : ∀ us ∈ w.counted, us ≠ maxLatency
  opened : w.opened.IsPrefix w.counted
  closed : w.closed.IsPrefix w.counted
  knows : Knows w

theorem StoredFrom.congr {opened closed : List UInt64} {m m' : MetricsStore}
    (h : StoredFrom opened closed m)
    (heq : ∀ p, m'.percentileUs p = m.percentileUs p) :
    StoredFrom opened closed m' := by
  obtain ⟨xs, hopened, hclosed, hpublished⟩ := h
  exact ⟨xs, hopened, hclosed, fun p => (heq p).trans (hpublished p)⟩

theorem counted_prefix_turn (w : Watched) (a : Turn) :
    w.counted.IsPrefix (w.turn a).counted := by
  cases a with
  | record r =>
      unfold Watched.turn
      dsimp only
      split_ifs
      · exact List.prefix_rfl
      · exact List.prefix_rfl
  | handler => exact List.prefix_append _ _
  | ticker =>
      unfold Watched.turn
      dsimp only
      split
      · exact List.prefix_rfl
      · split_ifs
        · exact List.prefix_rfl
        · exact List.prefix_rfl
      · exact List.prefix_rfl
      · exact List.prefix_rfl
      · exact List.prefix_rfl

namespace Snapshot

variable {w : Watched}

theorem record (h : Snapshot w) (r : Record) :
    Snapshot (w.turn (.record r)) := by
  obtain ⟨hbuckets, hmax, hopened, hclosed, hknows⟩ := h
  by_cases hidle : w.threads.handler = []
  · simp only [Watched.turn, Threads.turn, if_pos hidle]
    exact ⟨hbuckets, hmax, hopened, hclosed, hknows⟩
  · simp only [Watched.turn, Threads.turn, if_neg hidle]
    exact ⟨hbuckets, hmax, hopened, hclosed, hknows⟩

/-- A record in progress reaches the counts that are not loaded yet. -/
theorem knows_handler (h : Snapshot w) {step : RecordStep}
    {rest : List RecordStep} (hrest : w.threads.handler = step :: rest) :
    Knows (w.turn .handler) := by
  have hknows := h.knows
  have hsame := applyRecord_percentileUs w.threads.store step
  unfold Knows at hknows ⊢
  simp only [Watched.turn, Threads.turn, hrest, List.head?_cons,
    Option.toList_some, List.flatMap_singleton]
  cases hticker : w.threads.ticker with
  | loading k counts =>
      rw [hticker] at hknows
      dsimp only at hknows ⊢
      obtain ⟨⟨xs, hopened, hcounted, htally⟩, zs, hzs, hpublished⟩ := hknows
      refine ⟨⟨xs ++ step.counted.filter (From k ·),
        hopened.trans (List.prefix_append _ _),
        hcounted.append List.filter_sublist, ?_⟩, zs, hzs,
        fun p => (hsame p).trans (hpublished p)⟩
      intro i
      rw [tally_append, htally, tally_from, applyRecord_latencyBuckets]
      by_cases hk : i.val < k
      · rw [if_pos hk, if_pos hk, if_neg (by omega), UInt64.add_zero]
      · rw [if_neg hk, if_neg hk, if_pos (by omega)]
  | writing ws =>
      rw [hticker] at hknows
      refine StoredFrom.congr hknows fun p => ?_
      rw [applyWrites_percentileUs, applyWrites_percentileUs, hsame]
  | idle =>
      rw [hticker] at hknows
      exact StoredFrom.congr hknows hsame
  | insertsTaken n =>
      rw [hticker] at hknows
      exact StoredFrom.congr hknows hsame
  | insertsStored =>
      rw [hticker] at hknows
      exact StoredFrom.congr hknows hsame
  | searchesTaken n =>
      rw [hticker] at hknows
      exact StoredFrom.congr hknows hsame

theorem handler (h : Snapshot w) : Snapshot (w.turn .handler) := by
  cases hrest : w.threads.handler with
  | nil =>
      have hstill : w.turn .handler = w := by
        simp [Watched.turn, Threads.turn, hrest]
      rwa [hstill]
  | cons step rest =>
      have hknows := h.knows_handler hrest
      refine ⟨?_, ?_, ?_, ?_, hknows⟩
      · intro i
        simp only [Watched.turn, Threads.turn, hrest, List.head?_cons,
          Option.toList_some, List.flatMap_singleton]
        rw [applyRecord_latencyBuckets, tally_append, h.buckets]
      · intro us hus
        simp only [Watched.turn, hrest, List.head?_cons, Option.toList_some,
          List.flatMap_singleton, List.mem_append] at hus
        rcases hus with hus | hus
        · exact h.ne_max us hus
        · exact ne_maxLatency_of_counted hus
      · exact h.opened.trans (List.prefix_append _ _)
      · exact h.closed.trans (List.prefix_append _ _)

/-- Once all counts are loaded, the stores to come are decided. -/
theorem knows_loaded (h : Snapshot w) (hlength : w.counted.length < 2 ^ 64)
    {k : ℕ} {counts : Fin nBuckets → UInt64} (hk : ¬ k < nBuckets)
    (hticker : w.threads.ticker = .loading k counts) :
    StoredFrom w.opened w.counted
      ((percentileWrites counts).foldl applyWrite w.threads.store) := by
  have hknows := h.knows
  unfold Knows at hknows
  rw [hticker] at hknows
  obtain ⟨⟨xs, hopened, hcounted, htally⟩, zs, hzs, hpublished⟩ := hknows
  have hcounts : counts = tally xs := by
    funext i
    rw [htally i, if_pos (by omega)]
  subst hcounts
  refine ⟨xs, hopened, hcounted, published_writes ?_ ?_ ?_⟩
  · exact lt_of_le_of_lt hcounted.length_le hlength
  · exact fun us hus => h.ne_max us (hcounted.subset hus)
  · rintro rfl
    rw [List.prefix_nil.mp hopened, List.sublist_nil] at hzs
    rwa [hzs] at hpublished

theorem ticker (h : Snapshot w) (hlength : w.counted.length < 2 ^ 64) :
    Snapshot (w.turn .ticker) := by
  obtain ⟨hbuckets, hmax, hopened, hclosed, hknows⟩ := h
  unfold Knows at hknows
  cases hticker : w.threads.ticker with
  | idle =>
      rw [hticker] at hknows
      obtain ⟨xs, _, hxs, hpublished⟩ := hknows
      simp only [Watched.turn, Threads.turn, hticker, tick]
      refine ⟨hbuckets, hmax, List.prefix_rfl, hclosed, ?_, xs,
        hxs.trans hclosed.sublist, hpublished⟩
      exact ⟨w.counted, List.prefix_rfl, List.Sublist.refl _,
        fun i => (hbuckets i).symm⟩
  | loading k counts =>
      by_cases hk : k < nBuckets
      · rw [hticker] at hknows
        obtain ⟨⟨xs, hxs, hcounted, htally⟩, hold⟩ := hknows
        simp only [Watched.turn, Threads.turn, hticker, tick_load _ hk,
          if_pos hk]
        refine ⟨hbuckets, hmax, hopened, hclosed,
          ⟨xs, hxs, hcounted, fun i => ?_⟩, hold⟩
        rw [htally i]
        by_cases hi : i = ⟨k, hk⟩
        · subst hi
          simp
        · have hne : i.val ≠ k := fun heq => hi (Fin.ext heq)
          rw [Function.update_of_ne hi]
          by_cases hlt : i.val < k
          · rw [if_pos hlt, if_pos (by omega)]
          · rw [if_neg hlt, if_neg (by omega)]
      · have hloaded := knows_loaded
          ⟨hbuckets, hmax, hopened, hclosed, hknows⟩ hlength hk hticker
        simp only [Watched.turn, Threads.turn, hticker, tick_loaded _ hk,
          if_neg hk]
        exact ⟨hbuckets, hmax, hopened, List.prefix_rfl, hloaded⟩
  | writing ws =>
      rw [hticker] at hknows
      cases ws with
      | nil =>
          simp only [Watched.turn, Threads.turn, hticker, tick]
          exact ⟨hbuckets, hmax, hopened, hclosed,
            hknows.congr fun p => by cases p <;> rfl⟩
      | cons write ws =>
          simp only [Watched.turn, Threads.turn, hticker, tick]
          refine ⟨fun i => ?_, hmax, hopened, hclosed, hknows⟩
          rw [(applyWrite_sameCounts w.threads.store write).latencyBuckets]
          exact hbuckets i
  | insertsTaken n =>
      rw [hticker] at hknows
      simp only [Watched.turn, Threads.turn, hticker, tick]
      exact ⟨hbuckets, hmax, hopened, hclosed,
        hknows.congr fun p => by cases p <;> rfl⟩
  | insertsStored =>
      rw [hticker] at hknows
      simp only [Watched.turn, Threads.turn, hticker, tick]
      exact ⟨hbuckets, hmax, hopened, hclosed,
        hknows.congr fun p => by cases p <;> rfl⟩
  | searchesTaken n =>
      rw [hticker] at hknows
      simp only [Watched.turn, Threads.turn, hticker, tick]
      exact ⟨hbuckets, hmax, hopened, hclosed,
        hknows.congr fun p => by cases p <;> rfl⟩

end Snapshot

theorem run_snapshot (turns : List Turn)
    (hlength : (Watched.run turns).counted.length < 2 ^ 64) :
    Snapshot (Watched.run turns) := by
  induction turns using List.reverseRecOn with
  | nil =>
      refine ⟨fun i => rfl, ?_, List.prefix_rfl, List.prefix_rfl, [],
        List.prefix_rfl, List.Sublist.refl _, ?_⟩
      · intro us hus
        cases hus
      · intro p
        cases p <;> decide
  | append_singleton turns a ih =>
      rw [Watched.run, List.foldl_append] at hlength ⊢
      have hbefore : (Watched.run turns).counted.length < 2 ^ 64 :=
        lt_of_le_of_lt (counted_prefix_turn (Watched.run turns) a).length_le
          hlength
      have hsnapshot := ih hbefore
      cases a with
      | record r => exact hsnapshot.record r
      | handler => exact hsnapshot.handler
      | ticker => exact hsnapshot.ticker hbefore

/-- Between two ticks the percentiles are those of searches that include all
that were counted when the last tick began, and only such as were counted when
it had loaded the last bucket. -/
theorem percentiles_of_searches (turns : List Turn)
    (hlength : (Watched.run turns).counted.length < 2 ^ 64)
    (hidle : (Watched.run turns).threads.ticker = .idle) :
    ∃ xs, (Watched.run turns).opened.IsPrefix xs ∧
      xs.Sublist (Watched.run turns).closed ∧
      (Watched.run turns).closed.IsPrefix (Watched.run turns).counted ∧
      Published xs (Watched.run turns).threads.store ∧
      ∀ p q : Percentile, p.share ≤ q.share →
        (Watched.run turns).threads.store.percentileUs p ≤
          (Watched.run turns).threads.store.percentileUs q := by
  have h := run_snapshot turns hlength
  have hknows := h.knows
  unfold Knows at hknows
  rw [hidle] at hknows
  obtain ⟨xs, hopened, hxs, hpublished⟩ := hknows
  have hcounted := hxs.trans h.closed.sublist
  refine ⟨xs, hopened, hxs, h.closed, hpublished, fun p q hpq => ?_⟩
  exact hpublished.ordered (lt_of_le_of_lt hcounted.length_le hlength)
    (fun us hus => h.ne_max us (hcounted.subset hus)) hpq

def Ticker.isIdle : Ticker → Bool
  | .idle => true
  | _ => false

theorem Ticker.eq_idle {ticker : Ticker} (h : ticker.isIdle = true) :
    ticker = .idle := by
  cases ticker with
  | idle => rfl
  | _ => cases h

/-- A search is counted when the ticker has loaded two of the buckets. -/
def lateSearch : List Turn :=
  [.record (.search 120), .handler, .handler, .handler, .handler, .ticker,
    .ticker, .ticker, .record (.search 90), .handler, .handler, .handler,
    .handler, .ticker, .ticker, .ticker, .ticker, .ticker, .ticker, .ticker,
    .ticker, .ticker, .ticker, .ticker, .ticker, .ticker, .ticker]

theorem percentiles_of_searches_lateSearch :
    (Watched.run lateSearch).threads.store.searchP50Us ≤
      (Watched.run lateSearch).threads.store.searchP99Us := by
  obtain ⟨_, _, _, _, _, hordered⟩ := percentiles_of_searches lateSearch
    (by decide +kernel) (Ticker.eq_idle (by decide +kernel))
  exact hordered .p50 .p99 (by decide)

end MetricsStore
end VecDB
