import Mathlib.Algebra.Order.Field.Basic
import Mathlib.Tactic

/-!
# Metered calls

A meter charges some of the calls that a system takes in the order of time.
Its level is a potential: it lies between zero and a capacity, rises with a
rate at most, and pays one for each charged call.  So the charges within a
window are bounded by the capacity and what flows in during the window.
-/

variable {K S C : Type} [Field K] [LinearOrder K] [IsStrictOrderedRing K]

structure Meter (K S C : Type) [Field K] [LinearOrder K]
    [IsStrictOrderedRing K] where
  time : C → K
  step : C → S → Bool × S
  level : S → K → K
  capacity : K
  rate : K
  rate_nonneg : 0 ≤ rate
  /-- What holds of a state that took its last call by this time. -/
  Valid : K → S → Prop
  valid_mono : ∀ {now later s}, Valid now s → now ≤ later → Valid later s
  valid_step : ∀ {s c}, Valid (time c) s → Valid (time c) (step c s).2
  level_nonneg : ∀ {now s}, Valid now s → 0 ≤ level s now
  level_le : ∀ {now s}, Valid now s → level s now ≤ capacity
  drift : ∀ {now later s}, Valid now s → now ≤ later →
    level s later ≤ level s now + rate * (later - now)
  pays : ∀ {s c}, Valid (time c) s →
    level (step c s).2 (time c) + (if (step c s).1 then 1 else 0) ≤
      level s (time c)

namespace Meter

variable (m : Meter K S C)

/-- The number of calls from `start` to `stop` that are charged. -/
def charges (start stop : K) : List C → S → ℕ
  | [], _ => 0
  | c :: calls, s =>
      (if start ≤ m.time c ∧ m.time c ≤ stop ∧ (m.step c s).1 = true
        then 1 else 0) + charges start stop calls (m.step c s).2

/-- The calls come in the order of time, the first not before `now`. -/
def Ordered (now : K) (calls : List C) : Prop :=
  (∀ c ∈ calls, now ≤ m.time c) ∧
    calls.Pairwise fun c c' => m.time c ≤ m.time c'

theorem Ordered.cons {now : K} {c : C} {calls : List C}
    (h : m.Ordered now (c :: calls)) :
    now ≤ m.time c ∧ m.Ordered (m.time c) calls := by
  obtain ⟨hnow, hpairs⟩ := h
  rw [List.pairwise_cons] at hpairs
  exact ⟨hnow c (by simp), hpairs.1, hpairs.2⟩

theorem Ordered.at_first {now : K} {c : C} {calls : List C}
    (h : m.Ordered now (c :: calls)) : m.Ordered (m.time c) (c :: calls) := by
  refine ⟨?_, h.2⟩
  intro c' hc'
  obtain rfl | hc' := List.mem_cons.mp hc'
  · exact le_rfl
  · exact h.cons.2.1 c' hc'

theorem charges_eq_zero {start stop now : K} {calls : List C}
    (hordered : m.Ordered now calls) (hstop : stop < now) (s : S) :
    m.charges start stop calls s = 0 := by
  induction calls generalizing now s with
  | nil => rfl
  | cons c calls ih =>
      obtain ⟨hc, hrest⟩ := hordered.cons
      have hlate : ¬ m.time c ≤ stop := not_le.mpr (hstop.trans_le hc)
      unfold charges
      rw [if_neg (by simp [hlate]), ih hrest (hstop.trans_le hc)]

/-- The level and the inflow pay for all charges. -/
theorem charges_le_level (start : K) {stop now : K} {calls : List C} {s : S}
    (hvalid : m.Valid now s) (hordered : m.Ordered now calls)
    (hstop : now ≤ stop) :
    (m.charges start stop calls s : K) ≤
      m.level s now + m.rate * (stop - now) := by
  induction calls generalizing now s with
  | nil =>
      have hlevel := m.level_nonneg hvalid
      have hinflow := mul_nonneg m.rate_nonneg (sub_nonneg.mpr hstop)
      simp only [charges, Nat.cast_zero]
      linarith
  | cons c calls ih =>
      obtain ⟨hc, hrest⟩ := hordered.cons
      have hdrift := m.drift hvalid hc
      by_cases hlate : stop < m.time c
      · have hzero : m.charges start stop (c :: calls) s = 0 := by
          exact m.charges_eq_zero hordered.at_first hlate s
        have hlevel := m.level_nonneg hvalid
        have hinflow := mul_nonneg m.rate_nonneg (sub_nonneg.mpr hstop)
        rw [hzero, Nat.cast_zero]
        linarith
      · have hvalid' := m.valid_mono hvalid hc
        have hpays := m.pays hvalid'
        have hcharges := ih (m.valid_step hvalid') hrest (not_lt.mp hlate)
        have hone : ((if start ≤ m.time c ∧ m.time c ≤ stop ∧
              (m.step c s).1 = true then 1 else 0 : ℕ) : K) ≤
            if (m.step c s).1 then 1 else 0 := by
          split_ifs <;> simp_all
        calc
          (m.charges start stop (c :: calls) s : K) =
              ((if start ≤ m.time c ∧ m.time c ≤ stop ∧
                (m.step c s).1 = true then 1 else 0 : ℕ) : K) +
                m.charges start stop calls (m.step c s).2 := by
            simp only [charges, Nat.cast_add]
          _ ≤ (if (m.step c s).1 then 1 else 0) +
              (m.level (m.step c s).2 (m.time c) +
                m.rate * (stop - m.time c)) := add_le_add hone hcharges
          _ ≤ m.level s (m.time c) + m.rate * (stop - m.time c) := by
            linarith
          _ ≤ m.level s now + m.rate * (stop - now) := by
            linarith

/-- The charges within a window. -/
theorem charges_le {start stop now : K} {calls : List C} {s : S}
    (hvalid : m.Valid now s) (hordered : m.Ordered now calls)
    (hwindow : start ≤ stop) :
    (m.charges start stop calls s : K) ≤
      m.capacity + m.rate * (stop - start) := by
  have hcapacity := (m.level_nonneg hvalid).trans (m.level_le hvalid)
  have hinflow := mul_nonneg m.rate_nonneg (sub_nonneg.mpr hwindow)
  induction calls generalizing now s with
  | nil =>
      simp only [charges, Nat.cast_zero]
      linarith
  | cons c calls ih =>
      obtain ⟨hc, hrest⟩ := hordered.cons
      have hvalid' := m.valid_mono hvalid hc
      by_cases hearly : m.time c < start
      · have hskip : m.charges start stop (c :: calls) s =
            m.charges start stop calls (m.step c s).2 := by
          rw [charges, if_neg (by simp [not_le.mpr hearly]), Nat.zero_add]
        rw [hskip]
        exact ih (m.valid_step hvalid') hrest
      · by_cases hlate : stop < m.time c
        · rw [m.charges_eq_zero hordered.at_first hlate s, Nat.cast_zero]
          linarith
        · -- the window has opened, and the level is at most the capacity
          have hcharges := m.charges_le_level start hvalid'
            hordered.at_first (not_lt.mp hlate)
          have hlevel := m.level_le hvalid'
          have hshorter : m.rate * (stop - m.time c) ≤
              m.rate * (stop - start) := by
            apply mul_le_mul_of_nonneg_left _ m.rate_nonneg
            linarith [not_lt.mp hearly]
          linarith

/-! ## Meters that lose nothing -/

/-- What a call takes from the level is its charge. -/
def Lossless : List C → S → Prop
  | [], _ => True
  | c :: calls, s =>
      m.level s (m.time c) ≤
          m.level (m.step c s).2 (m.time c) +
            (if (m.step c s).1 then 1 else 0) ∧
        Lossless calls (m.step c s).2

def after : List C → S → S
  | [], s => s
  | c :: calls, s => after calls (m.step c s).2

/-- The level lacks nothing but what was charged since a window opened. -/
theorem window_carried (base : K)
    (hrefill : ∀ {now later s}, m.Valid now s → now ≤ later →
      min m.capacity (m.level s now + m.rate * (later - now)) ≤
        m.level s later)
    {start now stop : K} {calls : List C} {s : S}
    (hvalid : m.Valid now s) (hordered : m.Ordered now calls)
    (hlossless : m.Lossless calls s) (hstart : start ≤ now)
    (hnow : now ≤ stop) (hstop : ∀ c ∈ calls, m.time c ≤ stop)
    (hbase : m.capacity + m.rate * (now - start) ≤ base + m.level s now) :
    (m.capacity + m.rate * (stop - start) ≤
        base + m.charges start stop calls s +
          m.level (m.after calls s) stop) ∨
      ∃ opened, now ≤ opened ∧ opened ≤ stop ∧
        m.capacity + m.rate * (stop - opened) ≤
          m.charges opened stop calls s + m.level (m.after calls s) stop := by
  induction calls generalizing start now base s with
  | nil =>
      simp only [charges, after, Nat.cast_zero, add_zero, zero_add]
      obtain hfull | hpart := min_le_iff.mp (hrefill hvalid hnow)
      · right
        refine ⟨stop, hnow, le_rfl, ?_⟩
        rwa [sub_self, mul_zero, add_zero]
      · left
        linarith
  | cons c calls ih =>
      obtain ⟨hc, hrest⟩ := hordered.cons
      obtain ⟨hpaid, hlossless'⟩ := hlossless
      have hvalid' := m.valid_mono hvalid hc
      have hcstop := hstop c (by simp)
      have hcalls : ∀ c' ∈ calls, m.time c' ≤ stop :=
        fun c' hc' => hstop c' (by simp [hc'])
      have hone (opened : K) (hopened : opened ≤ m.time c) :
          (m.charges opened stop (c :: calls) s : K) =
            (if (m.step c s).1 then 1 else 0) +
              m.charges opened stop calls (m.step c s).2 := by
        rw [charges, Nat.cast_add]
        congr 1
        simp [hopened, hcstop]
      have hmore (opened : K) :
          (m.charges opened stop calls (m.step c s).2 : K) ≤
            m.charges opened stop (c :: calls) s := by
        exact_mod_cast Nat.le_add_left _ _
      obtain hfull | hpart := min_le_iff.mp (hrefill hvalid hc)
      · -- the level is full again, and a window opens with this call
        obtain hopen | ⟨opened, hle, hopened, hopen⟩ := ih
          (if (m.step c s).1 then 1 else 0) (m.valid_step hvalid') hrest
          hlossless' le_rfl hcstop hcalls (by linarith)
        · right
          refine ⟨m.time c, hc, hcstop, ?_⟩
          rw [hone _ le_rfl]
          exact hopen
        · right
          refine ⟨opened, hc.trans hle, hopened, ?_⟩
          rw [after]
          linarith [hmore opened]
      · obtain hopen | ⟨opened, hle, hopened, hopen⟩ := ih
          (base + if (m.step c s).1 then 1 else 0)
          (m.valid_step hvalid') hrest hlossless' (hstart.trans hc) hcstop
          hcalls (by linarith)
        · left
          rw [hone _ (hstart.trans hc), after]
          linarith
        · right
          refine ⟨opened, hc.trans hle, hopened, ?_⟩
          rw [after]
          linarith [hmore opened]

/-- A meter that starts full and loses nothing has, at every later time, a
window with as many charges as the bound leaves room for. -/
theorem exists_window
    (hrefill : ∀ {now later s}, m.Valid now s → now ≤ later →
      min m.capacity (m.level s now + m.rate * (later - now)) ≤
        m.level s later)
    {now stop : K} {calls : List C} {s : S} (hvalid : m.Valid now s)
    (hfull : m.capacity ≤ m.level s now) (hordered : m.Ordered now calls)
    (hlossless : m.Lossless calls s) (hnow : now ≤ stop)
    (hstop : ∀ c ∈ calls, m.time c ≤ stop) :
    ∃ start ≤ stop, m.capacity + m.rate * (stop - start) ≤
      m.charges start stop calls s + m.level (m.after calls s) stop := by
  obtain hopen | ⟨opened, _, hopened, hopen⟩ := m.window_carried
    0 hrefill hvalid hordered hlossless le_rfl hnow hstop
    (by linarith)
  · refine ⟨now, hnow, ?_⟩
    rwa [zero_add] at hopen
  · exact ⟨opened, hopened, hopen⟩

end Meter
