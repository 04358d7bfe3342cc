import VecDB.Metering
import Mathlib.Tactic

/-!
# The rate limiter

The `RateLimiter` class.  Tokens are exact rationals, and so are the points of
the steady clock, in seconds.
-/

namespace VecDB

inductive StatusCode where
  | ok
  | invalidArgument
  | resourceExhausted
  | unauthenticated
  deriving DecidableEq, Repr

/-- `grpc::Status`. -/
structure Status where
  code : StatusCode
  message : String
  deriving DecidableEq, Repr

def Status.ok : Status := ⟨.ok, ""⟩

def Status.isOk (s : Status) : Bool := decide (s.code = .ok)

structure Bucket where
  tokens : ℚ
  lastRefill : ℚ

structure RateLimiter where
  capacity : ℚ
  refillPerSec : ℚ
  disabled : Bool
  buckets : String → Option Bucket

namespace RateLimiter

/-- The constructor. -/
def new (capacity refillPerSec : ℚ) : RateLimiter where
  capacity := capacity
  refillPerSec := refillPerSec
  disabled := false
  buckets := fun _ => none

def store (rl : RateLimiter) (clientId : String) (b : Bucket) :
    RateLimiter :=
  { rl with buckets := Function.update rl.buckets clientId (some b) }

def exhausted : Status :=
  ⟨.resourceExhausted, "Rate limit exceeded — slow down requests"⟩

@[simp] theorem exhausted_isOk : exhausted.isOk = false := rfl

theorem exhausted_ne_ok : exhausted ≠ .ok := by decide

def check (now : ℚ) (clientId : String) (rl : RateLimiter) :
    Status × RateLimiter :=
  if rl.disabled then (.ok, rl)
  else
    match rl.buckets clientId with
    | none => (.ok, rl.store clientId ⟨rl.capacity - 1, now⟩)
    | some b =>
        let elapsed := now - b.lastRefill
        let tokens := min rl.capacity (b.tokens + elapsed * rl.refillPerSec)
        let tokens := tokens - 1
        if tokens < 0 then (exhausted, rl.store clientId ⟨0, now⟩)
        else (.ok, rl.store clientId ⟨tokens, now⟩)

/-! ## Calls -/

structure Call where
  now : ℚ
  clientId : String
  deriving DecidableEq

def outcomes : List Call → RateLimiter → List Status
  | [], _ => []
  | call :: calls, rl =>
      let (status, rl) := rl.check call.now call.clientId
      status :: outcomes calls rl

@[simp] theorem outcomes_cons (call : Call) (calls : List Call)
    (rl : RateLimiter) :
    outcomes (call :: calls) rl =
      (rl.check call.now call.clientId).1 ::
        outcomes calls (rl.check call.now call.clientId).2 := rfl

def after : List Call → RateLimiter → RateLimiter
  | [], rl => rl
  | call :: calls, rl => after calls (rl.check call.now call.clientId).2

/-- How many calls of a client from `start` to `stop` returned `OK`. -/
def admitted (clientId : String) (start stop : ℚ) (calls : List Call)
    (rl : RateLimiter) : ℕ :=
  (calls.zip (outcomes calls rl)).countP fun (call, status) =>
    decide (call.clientId = clientId) &&
      (decide (start ≤ call.now) && decide (call.now ≤ stop)) && status.isOk

/-- The steady clock. -/
def Clocked (calls : List Call) : Prop :=
  calls.Pairwise fun call next => call.now ≤ next.now

/-! ## Balances -/

/-- What a call at this time finds in the bucket. -/
def balance (rl : RateLimiter) (clientId : String) (now : ℚ) : ℚ :=
  match rl.buckets clientId with
  | none => rl.capacity
  | some b => min rl.capacity (b.tokens + (now - b.lastRefill) * rl.refillPerSec)

@[simp] theorem store_capacity (rl : RateLimiter) (clientId : String)
    (b : Bucket) : (rl.store clientId b).capacity = rl.capacity := rfl

@[simp] theorem store_refillPerSec (rl : RateLimiter) (clientId : String)
    (b : Bucket) : (rl.store clientId b).refillPerSec = rl.refillPerSec := rfl

@[simp] theorem store_disabled (rl : RateLimiter) (clientId : String)
    (b : Bucket) : (rl.store clientId b).disabled = rl.disabled := rfl

@[simp] theorem store_buckets (rl : RateLimiter) (clientId : String)
    (b : Bucket) : (rl.store clientId b).buckets clientId = some b := by
  simp [store]

theorem store_buckets_of_ne (rl : RateLimiter) {clientId other : String}
    (hne : other ≠ clientId) (b : Bucket) :
    (rl.store clientId b).buckets other = rl.buckets other := by
  simp [store, hne]

theorem balance_store (rl : RateLimiter) (clientId : String) (b : Bucket)
    (now : ℚ) :
    (rl.store clientId b).balance clientId now =
      min rl.capacity (b.tokens + (now - b.lastRefill) * rl.refillPerSec) := by
  unfold balance
  rw [store_buckets]
  rfl

theorem balance_store_of_ne (rl : RateLimiter) {clientId other : String}
    (hne : other ≠ clientId) (b : Bucket) (now : ℚ) :
    (rl.store clientId b).balance other now = rl.balance other now := by
  unfold balance
  rw [store_buckets_of_ne rl hne]
  rfl

/-- The states of a limiter that checks, as they are at a time. -/
structure Limits (capacity rate now : ℚ) (rl : RateLimiter) : Prop where
  capacity_eq : rl.capacity = capacity
  rate_eq : rl.refillPerSec = rate
  enabled : rl.disabled = false
  one_le : 1 ≤ capacity
  rate_nonneg : 0 ≤ rate
  tokens : ∀ clientId b, rl.buckets clientId = some b →
    0 ≤ b.tokens ∧ b.tokens ≤ capacity ∧ b.lastRefill ≤ now

theorem new_limits {capacity rate : ℚ} (hcapacity : 1 ≤ capacity)
    (hrate : 0 ≤ rate) (now : ℚ) :
    Limits capacity rate now (new capacity rate) where
  capacity_eq := rfl
  rate_eq := rfl
  enabled := rfl
  one_le := hcapacity
  rate_nonneg := hrate
  tokens := by
    intro clientId b hb
    cases hb

namespace Limits

variable {capacity rate now later : ℚ} {rl : RateLimiter}

theorem mono (h : Limits capacity rate now rl) (hle : now ≤ later) :
    Limits capacity rate later rl :=
  { h with
    tokens := fun clientId b hb =>
      let ⟨hnonneg, hcap, hrefill⟩ := h.tokens clientId b hb
      ⟨hnonneg, hcap, hrefill.trans hle⟩ }

theorem balance_nonneg (h : Limits capacity rate now rl) (clientId : String) :
    0 ≤ rl.balance clientId now := by
  have hone := h.one_le
  unfold balance
  cases hb : rl.buckets clientId with
  | none =>
      dsimp only
      rw [h.capacity_eq]
      linarith
  | some b =>
      obtain ⟨hnonneg, _, hrefill⟩ := h.tokens clientId b hb
      have hinflow := mul_nonneg (sub_nonneg.mpr hrefill) h.rate_nonneg
      dsimp only
      rw [h.capacity_eq, h.rate_eq]
      apply le_min
      · linarith
      · linarith

theorem balance_le (h : Limits capacity rate now rl) (clientId : String)
    (t : ℚ) : rl.balance clientId t ≤ capacity := by
  unfold balance
  cases rl.buckets clientId with
  | none => exact h.capacity_eq.le
  | some b =>
      dsimp only
      rw [h.capacity_eq]
      exact min_le_left _ _

theorem balance_drift (h : Limits capacity rate now rl) (hle : now ≤ later)
    (clientId : String) :
    rl.balance clientId later ≤
      rl.balance clientId now + rate * (later - now) := by
  have hinflow := mul_nonneg h.rate_nonneg (sub_nonneg.mpr hle)
  unfold balance
  cases rl.buckets clientId with
  | none =>
      dsimp only
      linarith
  | some b =>
      dsimp only
      rw [h.rate_eq, ← min_add_add_right]
      apply min_le_min
      · linarith
      · linarith

/-- What every call does: it takes a token if there is one, and else what is
left of one. -/
theorem check_eq (h : Limits capacity rate now rl) (t : ℚ)
    (clientId : String) :
    rl.check t clientId =
      (if 1 ≤ rl.balance clientId t then .ok else exhausted,
        rl.store clientId ⟨max (rl.balance clientId t - 1) 0, t⟩) := by
  have hone := h.one_le
  have hcapacity := h.capacity_eq
  unfold check balance
  rw [if_neg (by simp [h.enabled])]
  cases rl.buckets clientId with
  | none =>
      dsimp only
      rw [if_pos (by linarith), max_eq_left (by linarith)]
  | some b =>
      dsimp only
      by_cases hshort : min rl.capacity
          (b.tokens + (t - b.lastRefill) * rl.refillPerSec) - 1 < 0
      · rw [if_pos hshort, if_neg (by linarith), max_eq_right hshort.le]
      · rw [if_neg hshort, if_pos (by linarith),
          max_eq_left (not_lt.mp hshort)]

theorem checked (h : Limits capacity rate now rl) (clientId : String) :
    Limits capacity rate now (rl.check now clientId).2 := by
  rw [h.check_eq]
  have hone := h.one_le
  have hle := h.balance_le clientId now
  refine { h with tokens := ?_ }
  intro other b hb
  by_cases hother : other = clientId
  · subst hother
    rw [store_buckets] at hb
    cases hb
    refine ⟨le_max_right _ _, max_le ?_ ?_, le_rfl⟩
    · linarith
    · linarith
  · rw [store_buckets_of_ne rl hother] at hb
    exact h.tokens other b hb

theorem balance_checked (h : Limits capacity rate now rl)
    (clientId other : String) :
    (rl.check now clientId).2.balance other now =
      if other = clientId then max (rl.balance clientId now - 1) 0
      else rl.balance other now := by
  rw [h.check_eq]
  dsimp only
  split_ifs with hother
  · subst hother
    have hle := h.balance_le other now
    have hone := h.one_le
    rw [balance_store, sub_self, zero_mul, add_zero, h.capacity_eq]
    apply min_eq_right
    apply max_le
    · linarith
    · linarith
  · exact balance_store_of_ne rl hother _ now

end Limits

/-! ## The bound on admitted calls -/

/-- The meter of a client that counts the calls it is admitted for. -/
def meter (capacity rate : ℚ) (hrate : 0 ≤ rate) (clientId : String) :
    Meter ℚ RateLimiter Call where
  time := Call.now
  step := fun call rl =>
    (decide (call.clientId = clientId) &&
      (rl.check call.now call.clientId).1.isOk,
      (rl.check call.now call.clientId).2)
  level := fun rl now => rl.balance clientId now
  capacity := capacity
  rate := rate
  rate_nonneg := hrate
  Valid := fun now rl => Limits capacity rate now rl
  valid_mono := fun h hle => h.mono hle
  valid_step := fun h => h.checked _
  level_nonneg := fun h => h.balance_nonneg clientId
  level_le := fun h => h.balance_le clientId _
  drift := fun h hle => h.balance_drift hle clientId
  pays := by
    intro rl call h
    dsimp only
    rw [h.balance_checked]
    have hnonneg := h.balance_nonneg clientId
    have hstatus : (rl.check call.now call.clientId).1 =
        if 1 ≤ rl.balance call.clientId call.now then .ok else exhausted := by
      rw [h.check_eq]
    by_cases hclient : clientId = call.clientId
    · subst hclient
      rw [if_pos rfl]
      by_cases hone : 1 ≤ rl.balance call.clientId call.now
      · rw [if_pos hone] at hstatus
        rw [max_eq_left (by linarith)]
        simp [hstatus, Status.isOk, Status.ok]
      · rw [if_neg hone] at hstatus
        rw [max_eq_right (by linarith)]
        simpa [hstatus, Status.isOk, exhausted] using hnonneg
    · rw [if_neg hclient, if_neg (by simp [Ne.symm hclient]), add_zero]

theorem charges_meter {capacity rate : ℚ} (hrate : 0 ≤ rate)
    (clientId : String) (start stop : ℚ) (calls : List Call)
    (rl : RateLimiter) :
    (meter capacity rate hrate clientId).charges start stop calls rl =
      admitted clientId start stop calls rl := by
  unfold admitted
  induction calls generalizing rl with
  | nil => rfl
  | cons call calls ih =>
      rw [Meter.charges, ih, outcomes_cons]
      dsimp only
      rw [List.zip_cons_cons, List.countP_cons, Nat.add_comm]
      congr 1
      simp only [meter, Bool.and_eq_true, decide_eq_true_eq]
      apply if_congr _ rfl rfl
      tauto

theorem Limits.after {capacity rate now : ℚ} {rl : RateLimiter}
    (h : Limits capacity rate now rl) {calls : List Call}
    (hnow : ∀ call ∈ calls, now ≤ call.now) (hclock : Clocked calls) :
    ∃ last, Limits capacity rate last (rl.after calls) ∧
      ∀ t, now ≤ t → (∀ call ∈ calls, call.now ≤ t) → last ≤ t := by
  induction calls generalizing now rl with
  | nil => exact ⟨now, h, fun t ht _ => ht⟩
  | cons call calls ih =>
      obtain ⟨hfirst, hrest⟩ := List.pairwise_cons.mp hclock
      have hcall := h.mono (hnow call (by simp))
      obtain ⟨last, hlast, hbound⟩ :=
        ih (hcall.checked call.clientId) hfirst hrest
      refine ⟨last, hlast, ?_⟩
      intro t _ hcalls
      exact hbound t (hcalls call (by simp))
        fun next hnext => hcalls next (by simp [hnext])

theorem Clocked.exists_start {calls : List Call} (h : Clocked calls) :
    ∃ now, ∀ call ∈ calls, now ≤ call.now := by
  cases calls with
  | nil => exact ⟨0, by simp⟩
  | cons call calls =>
      refine ⟨call.now, ?_⟩
      intro other hother
      obtain rfl | hother := List.mem_cons.mp hother
      · exact le_rfl
      · exact (List.pairwise_cons.mp h).1 other hother

/-- Rate limit upper bound. -/
theorem admitted_within_window {capacity rate : ℚ} (hcapacity : 1 ≤ capacity)
    (hrate : 0 ≤ rate) {calls : List Call} (hclock : Clocked calls)
    (clientId : String) :
    (∀ start stop, start ≤ stop →
      (admitted clientId start stop calls (new capacity rate) : ℚ) ≤
        capacity + rate * (stop - start)) ∧
    ∀ b, ((new capacity rate).after calls).buckets clientId = some b →
      0 ≤ b.tokens ∧ b.tokens ≤ capacity := by
  obtain ⟨now, hnow⟩ := hclock.exists_start
  have hlimits := new_limits hcapacity hrate now
  constructor
  · intro start stop hwindow
    rw [← charges_meter hrate]
    exact (meter capacity rate hrate clientId).charges_le hlimits
      ⟨hnow, hclock⟩ hwindow
  · intro b hb
    obtain ⟨last, hlast, _⟩ := hlimits.after hnow hclock
    obtain ⟨hnonneg, hcap, _⟩ := hlast.tokens clientId b hb
    exact ⟨hnonneg, hcap⟩

/-- A burst of two with one token a second. -/
def burst : List Call :=
  [⟨0, "a"⟩, ⟨0, "a"⟩, ⟨0, "a"⟩, ⟨0, "b"⟩, ⟨1, "a"⟩]

theorem admitted_within_window_burst :
    (admitted "a" 0 1 burst (new 2 1) : ℚ) ≤ 2 + 1 * (1 - 0) := by
  have hclock : Clocked burst := by
    unfold Clocked burst
    norm_num
  exact (admitted_within_window (by norm_num) (by norm_num) hclock "a").1 0 1
    (by norm_num)

end RateLimiter
end VecDB
