import VecDB.RateLimiterRetries
import Mathlib.Tactic

/-!
# Who is turned away

The calls of a client are decided by its own bucket, so what the others call in
between is not seen.  Its bucket is full at first and loses a fraction only to a
rejection.  So the first rejection closes a window in which the client called
more often than it may, and a client that never does is never rejected.
-/

namespace VecDB
namespace RateLimiter

/-! ## The others -/

/-- Two limiters that one client cannot tell apart. -/
structure SameFor (clientId : String) (rl rl' : RateLimiter) : Prop where
  capacity_eq : rl.capacity = rl'.capacity
  rate_eq : rl.refillPerSec = rl'.refillPerSec
  disabled_eq : rl.disabled = rl'.disabled
  bucket_eq : rl.buckets clientId = rl'.buckets clientId

namespace SameFor

variable {clientId : String} {rl rl' : RateLimiter}

theorem refl (clientId : String) (rl : RateLimiter) :
    SameFor clientId rl rl :=
  ⟨rfl, rfl, rfl, rfl⟩

theorem store (h : SameFor clientId rl rl') (b : Bucket) :
    SameFor clientId (rl.store clientId b) (rl'.store clientId b) where
  capacity_eq := h.capacity_eq
  rate_eq := h.rate_eq
  disabled_eq := h.disabled_eq
  bucket_eq := by
    rw [store_buckets, store_buckets]

theorem store_of_ne (h : SameFor clientId rl rl') {other : String}
    (hne : clientId ≠ other) (b : Bucket) :
    SameFor clientId (rl.store other b) rl' where
  capacity_eq := h.capacity_eq
  rate_eq := h.rate_eq
  disabled_eq := h.disabled_eq
  bucket_eq := by
    rw [store_buckets_of_ne rl hne]
    exact h.bucket_eq

theorem check (h : SameFor clientId rl rl') (now : ℚ) :
    (rl.check now clientId).1 = (rl'.check now clientId).1 ∧
      SameFor clientId (rl.check now clientId).2
        (rl'.check now clientId).2 := by
  unfold RateLimiter.check
  rw [h.disabled_eq, h.capacity_eq, h.rate_eq, h.bucket_eq]
  by_cases hdisabled : rl'.disabled
  · rw [if_pos hdisabled, if_pos hdisabled]
    exact ⟨rfl, h⟩
  · rw [if_neg hdisabled, if_neg hdisabled]
    cases rl'.buckets clientId with
    | none => exact ⟨rfl, h.store _⟩
    | some b =>
        dsimp only
        split_ifs
        · exact ⟨rfl, h.store _⟩
        · exact ⟨rfl, h.store _⟩

/-- The call of another client. -/
theorem check_of_ne (h : SameFor clientId rl rl') {other : String}
    (hne : clientId ≠ other) (now : ℚ) :
    SameFor clientId (rl.check now other).2 rl' := by
  unfold RateLimiter.check
  by_cases hdisabled : rl.disabled
  · rw [if_pos hdisabled]
    exact h
  · rw [if_neg hdisabled]
    cases rl.buckets other with
    | none => exact h.store_of_ne hne _
    | some b =>
        dsimp only
        split_ifs
        · exact h.store_of_ne hne _
        · exact h.store_of_ne hne _

end SameFor

/-! ## The calls that a client makes -/

/-- How many calls a client makes from `start` to `stop`. -/
def made (clientId : String) (start stop : ℚ) (calls : List Call) : ℕ :=
  calls.countP fun call =>
    decide (call.clientId = clientId) &&
      (decide (start ≤ call.now) && decide (call.now ≤ stop))

/-- No window has more calls of the client than a bucket can pay for. -/
def WithinRate (capacity rate : ℚ) (clientId : String) (calls : List Call) :
    Prop :=
  ∀ start stop, start ≤ stop →
    (made clientId start stop calls : ℚ) ≤ capacity + rate * (stop - start)

/-- No call of the client is rejected. -/
def NeverRejected (clientId : String) (calls : List Call) (rl : RateLimiter) :
    Prop :=
  ∀ x ∈ calls.zip (outcomes calls rl), x.1.clientId = clientId →
    x.2.isOk = true

theorem neverRejected_nil {clientId : String} (rl : RateLimiter) :
    NeverRejected clientId [] rl := by
  intro x hx
  cases hx

theorem neverRejected_cons {clientId : String} {call : Call}
    {calls : List Call} {rl : RateLimiter} :
    NeverRejected clientId (call :: calls) rl ↔
      (call.clientId = clientId →
        (rl.check call.now call.clientId).1.isOk = true) ∧
        NeverRejected clientId calls (rl.check call.now call.clientId).2 := by
  unfold NeverRejected
  rw [outcomes_cons, List.zip_cons_cons, List.forall_mem_cons]

theorem made_cons (clientId : String) (start stop : ℚ) (call : Call)
    (calls : List Call) :
    made clientId start stop (call :: calls) =
      (if call.clientId = clientId ∧ start ≤ call.now ∧ call.now ≤ stop
        then 1 else 0) + made clientId start stop calls := by
  unfold made
  rw [List.countP_cons, Nat.add_comm]
  simp

theorem made_le (clientId : String) (start stop : ℚ) (calls : List Call) :
    made clientId start stop calls ≤
      calls.countP fun call => decide (call.clientId = clientId) :=
  List.countP_mono_left fun _ _ hcall => Bool.and_elim_left hcall

theorem made_append (clientId : String) (start stop : ℚ)
    (first second : List Call) :
    made clientId start stop (first ++ second) =
      made clientId start stop first + made clientId start stop second :=
  List.countP_append

section Charged

variable {capacity rate now : ℚ} (hrate : 0 ≤ rate) {clientId : String}
  {calls : List Call} {rl : RateLimiter}

/-- A client that is never rejected is charged for all its calls. -/
theorem made_eq_charges (hnever : NeverRejected clientId calls rl)
    (start stop : ℚ) :
    made clientId start stop calls =
      (meter capacity rate hrate clientId).charges start stop calls rl := by
  induction calls generalizing rl with
  | nil => rfl
  | cons call calls ih =>
      obtain ⟨hcall, hrest⟩ := neverRejected_cons.mp hnever
      rw [made_cons, ih hrest, Meter.charges]
      congr 1
      apply if_congr _ rfl rfl
      simp only [meter, Bool.and_eq_true, decide_eq_true_eq]
      constructor
      · rintro ⟨hclient, hstart, hstop⟩
        exact ⟨hstart, hstop, hclient, hcall hclient⟩
      · rintro ⟨hstart, hstop, hclient, _⟩
        exact ⟨hclient, hstart, hstop⟩

theorem meter_after (calls : List Call) (rl : RateLimiter) :
    (meter capacity rate hrate clientId).after calls rl = rl.after calls := by
  induction calls generalizing rl with
  | nil => rfl
  | cons call calls ih =>
      rw [Meter.after, ih]
      rfl

/-- A fraction of a token is lost by a rejection only. -/
theorem lossless_of_neverRejected (hlimits : Limits capacity rate now rl)
    (hnow : ∀ call ∈ calls, now ≤ call.now) (hclock : Clocked calls)
    (hnever : NeverRejected clientId calls rl) :
    (meter capacity rate hrate clientId).Lossless calls rl := by
  induction calls generalizing now rl with
  | nil => trivial
  | cons call calls ih =>
      obtain ⟨hfirst, hrest⟩ := List.pairwise_cons.mp hclock
      obtain ⟨hcall, hnever'⟩ := neverRejected_cons.mp hnever
      have hlimits' := hlimits.mono (hnow call (by simp))
      refine ⟨?_, ih (hlimits'.checked call.clientId) hfirst hrest hnever'⟩
      simp only [meter, hlimits'.balance_checked, Bool.and_eq_true,
        decide_eq_true_eq]
      by_cases hclient : call.clientId = clientId
      · subst hclient
        rw [if_pos rfl, if_pos ⟨rfl, hcall rfl⟩]
        linarith [le_max_left (rl.balance call.clientId call.now - 1) 0]
      · rw [if_neg (Ne.symm hclient), if_neg (by simp [hclient]), add_zero]

end Charged

theorem Limits.balance_refill {capacity rate now later : ℚ} {rl : RateLimiter}
    (h : Limits capacity rate now rl) (clientId : String) :
    min capacity (rl.balance clientId now + rate * (later - now)) ≤
      rl.balance clientId later := by
  unfold balance
  cases hb : rl.buckets clientId with
  | none =>
      dsimp only
      rw [h.capacity_eq]
      exact min_le_left _ _
  | some b =>
      dsimp only
      rw [h.capacity_eq, h.rate_eq]
      apply le_min (min_le_left _ _)
      have hpart := min_le_right capacity
        (b.tokens + (now - b.lastRefill) * rate)
      have hrefill := min_le_right capacity
        (min capacity (b.tokens + (now - b.lastRefill) * rate) +
          rate * (later - now))
      linarith

/-- The first rejection closes a window with too many calls. -/
theorem not_withinRate_of_rejected {capacity rate : ℚ}
    (hcapacity : 1 ≤ capacity) (hrate : 0 ≤ rate) {before rest : List Call}
    {call : Call} (hclock : Clocked (before ++ call :: rest))
    (hnever : NeverRejected call.clientId before (new capacity rate))
    (hrejected : Rejected (new capacity rate) before call) :
    ¬ WithinRate capacity rate call.clientId (before ++ call :: rest) := by
  obtain ⟨now, hnow⟩ := hclock.exists_start
  obtain ⟨hbefore, _, hlast⟩ := List.pairwise_append.mp hclock
  have hfirst : ∀ c ∈ before, now ≤ c.now :=
    fun c hc => hnow c (by simp [hc])
  have hlimits := new_limits hcapacity hrate now
  have hshort : ((new capacity rate).after before).balance call.clientId
      call.now < 1 :=
    (after_limits hcapacity hrate
      (clocked_append_cons.mp hclock).1).balance_lt_of_rejected hrejected
  let m := meter capacity rate hrate call.clientId
  obtain ⟨start, hstart, hwindow⟩ := m.exists_window
    (fun h _ => h.balance_refill call.clientId) hlimits le_rfl
    ⟨hfirst, hbefore⟩
    (lossless_of_neverRejected hrate hlimits hfirst hbefore hnever)
    (hnow call (by simp)) fun c hc => hlast c hc call (by simp)
  rw [meter_after, ← made_eq_charges hrate hnever] at hwindow
  intro hwithin
  have hmade := hwithin start call.now hstart
  have hcalls : (made call.clientId start call.now before : ℚ) + 1 ≤
      made call.clientId start call.now (before ++ call :: rest) := by
    rw [made_append, made_cons, if_pos ⟨rfl, hstart, le_rfl⟩]
    push_cast
    linarith [Nat.cast_nonneg (α := ℚ)
      (made call.clientId start call.now rest)]
  have hwindow' : capacity + rate * (call.now - start) ≤
      made call.clientId start call.now before +
        ((new capacity rate).after before).balance call.clientId call.now :=
    hwindow
  linarith

theorem exists_rejected {clientId : String} {calls : List Call}
    {rl : RateLimiter} (h : ¬ NeverRejected clientId calls rl) :
    ∃ before call rest, calls = before ++ call :: rest ∧
      call.clientId = clientId ∧ NeverRejected clientId before rl ∧
        Rejected rl before call := by
  induction calls generalizing rl with
  | nil => exact absurd (neverRejected_nil rl) h
  | cons call calls ih =>
      rw [neverRejected_cons, not_and_or, Classical.not_imp] at h
      by_cases hcall : call.clientId = clientId ∧
          ¬ (rl.check call.now call.clientId).1.isOk = true
      · refine ⟨[], call, calls, rfl, hcall.1, neverRejected_nil rl, ?_⟩
        exact Bool.eq_false_iff.mpr hcall.2
      · obtain ⟨before, next, rest, rfl, hclient, hnever, hrejected⟩ :=
          ih (h.resolve_left hcall)
        refine ⟨call :: before, next, rest, rfl, hclient, ?_, hrejected⟩
        refine neverRejected_cons.mpr ⟨fun hown => ?_, hnever⟩
        by_contra hbad
        exact hcall ⟨hown, hbad⟩

/-- A client is never rejected if and only if no window has more of its calls
than a full bucket and the refill during the window pay for. -/
theorem neverRejected_iff_withinRate {capacity rate : ℚ}
    (hcapacity : 1 ≤ capacity) (hrate : 0 ≤ rate) {calls : List Call}
    (hclock : Clocked calls) (clientId : String) :
    NeverRejected clientId calls (new capacity rate) ↔
      WithinRate capacity rate clientId calls := by
  constructor
  · intro hnever start stop hwindow
    obtain ⟨now, hnow⟩ := hclock.exists_start
    rw [made_eq_charges hrate hnever]
    exact (meter capacity rate hrate clientId).charges_le
      (new_limits hcapacity hrate now) ⟨hnow, hclock⟩ hwindow
  · intro hwithin
    by_contra hrejected
    obtain ⟨before, call, rest, rfl, rfl, hnever, hcall⟩ :=
      exists_rejected hrejected
    exact not_withinRate_of_rejected hcapacity hrate hclock hnever hcall
      hwithin

end RateLimiter
end VecDB
