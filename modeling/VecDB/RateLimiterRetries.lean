import VecDB.RateLimiter
import Mathlib.Tactic

/-!
# What a rejected call costs

Two limiters whose balances agree from now on cannot be told apart.  A
rejection empties the bucket, so the client loses the part of a token that was
in it.
-/

namespace VecDB
namespace RateLimiter

theorem outcomes_append (first second : List Call) (rl : RateLimiter) :
    outcomes (first ++ second) rl =
      outcomes first rl ++ outcomes second (rl.after first) := by
  induction first generalizing rl with
  | nil => rfl
  | cons call first ih =>
      rw [List.cons_append, outcomes_cons, ih]
      rfl

theorem outcomes_length (calls : List Call) (rl : RateLimiter) :
    (outcomes calls rl).length = calls.length := by
  induction calls generalizing rl with
  | nil => rfl
  | cons call calls ih =>
      rw [outcomes_cons, List.length_cons, List.length_cons, ih]

/-- The call behind `before` is not admitted. -/
def Rejected (rl : RateLimiter) (before : List Call) (call : Call) : Prop :=
  ((rl.after before).check call.now call.clientId).1.isOk = false

/-- Without the call behind `before` all other calls end as they do with
it. -/
def CostsNothing (rl : RateLimiter) (before : List Call) (call : Call)
    (rest : List Call) : Prop :=
  (outcomes (before ++ call :: rest) rl).eraseIdx before.length =
    outcomes (before ++ rest) rl

theorem costsNothing_iff {rl : RateLimiter} {before rest : List Call}
    {call : Call} :
    CostsNothing rl before call rest ↔
      outcomes rest ((rl.after before).check call.now call.clientId).2 =
        outcomes rest (rl.after before) := by
  unfold CostsNothing
  rw [outcomes_append, outcomes_append, outcomes_cons,
    List.eraseIdx_append_of_length_le (by rw [outcomes_length]),
    outcomes_length, Nat.sub_self, List.eraseIdx_cons_zero,
    List.append_cancel_left_eq]

/-! ## Limiters that look the same -/

section Alike

variable {capacity rate now : ℚ} {rl rl' : RateLimiter}

/-- The balances agree from now on. -/
structure Alike (capacity rate now : ℚ) (rl rl' : RateLimiter) : Prop where
  left : Limits capacity rate now rl
  right : Limits capacity rate now rl'
  balance_eq : ∀ clientId t, now ≤ t →
    rl.balance clientId t = rl'.balance clientId t

theorem Alike.check (h : Alike capacity rate now rl rl') {t : ℚ}
    (ht : now ≤ t) (clientId : String) :
    (rl.check t clientId).1 = (rl'.check t clientId).1 ∧
      Alike capacity rate t (rl.check t clientId).2
        (rl'.check t clientId).2 := by
  have hbalance := h.balance_eq clientId t ht
  have hleft := h.left.mono ht
  have hright := h.right.mono ht
  refine ⟨?_, hleft.checked clientId, hright.checked clientId, ?_⟩
  · rw [hleft.check_eq, hright.check_eq, hbalance]
  · intro other u hu
    rw [hleft.check_eq, hright.check_eq, hbalance]
    by_cases hother : other = clientId
    · subst hother
      rw [balance_store, balance_store, hleft.capacity_eq, hleft.rate_eq,
        hright.capacity_eq, hright.rate_eq]
    · rw [balance_store_of_ne _ hother, balance_store_of_ne _ hother]
      exact h.balance_eq other u (ht.trans hu)

theorem Alike.outcomes_eq (h : Alike capacity rate now rl rl')
    {calls : List Call} (hnow : ∀ call ∈ calls, now ≤ call.now)
    (hclock : Clocked calls) : outcomes calls rl = outcomes calls rl' := by
  induction calls generalizing now rl rl' with
  | nil => rfl
  | cons call calls ih =>
      obtain ⟨hfirst, hrest⟩ := List.pairwise_cons.mp hclock
      obtain ⟨hstatus, hnext⟩ := h.check (hnow call (by simp)) call.clientId
      rw [outcomes_cons, outcomes_cons, hstatus, ih hnext hfirst hrest]

end Alike

/-! ## Rejections -/

namespace Limits

variable {capacity rate now : ℚ} {rl : RateLimiter} {clientId : String}

theorem balance_lt_of_rejected (h : Limits capacity rate now rl)
    (hrejected : (rl.check now clientId).1.isOk = false) :
    rl.balance clientId now < 1 := by
  rw [h.check_eq] at hrejected
  by_contra hone
  rw [if_pos (not_lt.mp hone)] at hrejected
  cases hrejected

theorem balance_later (h : Limits capacity rate now rl)
    (hlt : rl.balance clientId now < 1) (t : ℚ) :
    rl.balance clientId t =
      min capacity (rl.balance clientId now + (t - now) * rate) := by
  have hone := h.one_le
  unfold balance at hlt ⊢
  cases hb : rl.buckets clientId with
  | none =>
      rw [hb] at hlt
      dsimp only at hlt
      rw [h.capacity_eq] at hlt
      linarith
  | some b =>
      rw [hb] at hlt
      dsimp only at hlt ⊢
      rw [h.capacity_eq, h.rate_eq] at hlt ⊢
      have htokens : min capacity (b.tokens + (now - b.lastRefill) * rate) =
          b.tokens + (now - b.lastRefill) * rate := by
        apply min_eq_right
        by_contra hfull
        rw [min_eq_left (not_le.mp hfull).le] at hlt
        linarith
      rw [htokens]
      congr 1
      ring

theorem balance_rejected (h : Limits capacity rate now rl)
    (hlt : rl.balance clientId now < 1) (t : ℚ) :
    (rl.check now clientId).2.balance clientId t =
      min capacity ((t - now) * rate) := by
  rw [h.check_eq]
  dsimp only
  rw [balance_store, max_eq_right (by linarith), zero_add, h.capacity_eq,
    h.rate_eq]

end Limits

/-- The rejection of a call changes no later outcome, whatever comes next,
exactly when the bucket was empty. -/
theorem rejection_free_iff {capacity rate now : ℚ} {rl : RateLimiter}
    (h : Limits capacity rate now rl) (hrate : 0 < rate) {clientId : String}
    (hrejected : (rl.check now clientId).1.isOk = false) :
    (∀ rest, (∀ next ∈ rest, now ≤ next.now) → Clocked rest →
      outcomes rest (rl.check now clientId).2 = outcomes rest rl) ↔
      rl.balance clientId now = 0 := by
  have hone := h.one_le
  have hlt := h.balance_lt_of_rejected hrejected
  have hnonneg := h.balance_nonneg clientId
  constructor
  · intro hfree
    by_contra hne
    have hpos : 0 < rl.balance clientId now :=
      lt_of_le_of_ne hnonneg (Ne.symm hne)
    -- the client waits until a token would be there
    let wait := (1 - rl.balance clientId now) / rate
    have hwait : wait * rate = 1 - rl.balance clientId now :=
      div_mul_cancel₀ _ hrate.ne'
    have hwait_nonneg : 0 ≤ wait :=
      div_nonneg (by linarith) hrate.le
    have hlater : now ≤ now + wait := by linarith
    have hkept : rl.balance clientId (now + wait) = 1 := by
      rw [h.balance_later hlt, add_sub_cancel_left, hwait,
        add_sub_cancel, min_eq_right hone]
    have hlost : (rl.check now clientId).2.balance clientId (now + wait) =
        1 - rl.balance clientId now := by
      rw [h.balance_rejected hlt, add_sub_cancel_left, hwait]
      apply min_eq_right
      linarith
    have hadmitted : (rl.check (now + wait) clientId).1 = .ok := by
      rw [(h.mono hlater).check_eq, hkept, if_pos le_rfl]
    have hrefused : ((rl.check now clientId).2.check (now + wait)
        clientId).1 = exhausted := by
      rw [((h.checked clientId).mono hlater).check_eq, hlost,
        if_neg (by linarith)]
    have houtcome := hfree [⟨now + wait, clientId⟩]
      (by simpa using hwait_nonneg) (List.pairwise_singleton _ _)
    simp only [outcomes_cons, hadmitted, hrefused] at houtcome
    cases houtcome
  · intro hzero rest hnow hclock
    have halike : Alike capacity rate now (rl.check now clientId).2 rl := {
      left := h.checked clientId
      right := h
      balance_eq := by
        intro other t ht
        by_cases hother : other = clientId
        · subst hother
          rw [h.balance_rejected hlt, h.balance_later hlt, hzero, zero_add]
        · rw [h.check_eq]
          exact balance_store_of_ne rl hother _ t }
    exact halike.outcomes_eq hnow hclock

theorem clocked_append_cons {before rest : List Call} {call : Call} :
    Clocked (before ++ call :: rest) ↔ Clocked (before ++ [call]) ∧
      (∀ next ∈ rest, call.now ≤ next.now) ∧ Clocked rest := by
  unfold Clocked
  rw [List.pairwise_append, List.pairwise_append, List.pairwise_cons]
  constructor
  · rintro ⟨hbefore, ⟨hcall, hrest⟩, hcross⟩
    refine ⟨⟨hbefore, List.pairwise_singleton _ _, ?_⟩, hcall, hrest⟩
    intro prev hprev next hnext
    rw [List.mem_singleton.mp hnext]
    exact hcross prev hprev call (by simp)
  · rintro ⟨⟨hbefore, _, hlast⟩, hcall, hrest⟩
    refine ⟨hbefore, ⟨hcall, hrest⟩, ?_⟩
    intro prev hprev next hnext
    have hle := hlast prev hprev call (by simp)
    obtain rfl | hnext := List.mem_cons.mp hnext
    · exact hle
    · exact hle.trans (hcall next hnext)

theorem after_limits {capacity rate : ℚ} (hcapacity : 1 ≤ capacity)
    (hrate : 0 ≤ rate) {before : List Call} {call : Call}
    (hclock : Clocked (before ++ [call])) :
    Limits capacity rate call.now ((new capacity rate).after before) := by
  obtain ⟨now, hnow⟩ := hclock.exists_start
  obtain ⟨hbefore, _, hlast⟩ := List.pairwise_append.mp hclock
  obtain ⟨last, hlimits, hbound⟩ := (new_limits hcapacity hrate now).after
    (fun next hnext => hnow next (by simp [hnext])) hbefore
  apply hlimits.mono
  apply hbound
  · exact hnow call (by simp)
  · exact fun next hnext => hlast next hnext call (by simp)

/-- In a run every rejected call costs nothing, however the run goes on, if
and only if every rejected call finds the bucket empty. -/
theorem rejections_cost_nothing_iff {capacity rate : ℚ}
    (hcapacity : 1 ≤ capacity) (hrate : 0 < rate) {calls : List Call}
    (hclock : Clocked calls) :
    (∀ before call, List.IsPrefix (before ++ [call]) calls →
      Rejected (new capacity rate) before call →
      ∀ rest, Clocked (before ++ call :: rest) →
        CostsNothing (new capacity rate) before call rest) ↔
      ∀ before call, List.IsPrefix (before ++ [call]) calls →
        Rejected (new capacity rate) before call →
        ((new capacity rate).after before).balance call.clientId
          call.now = 0 := by
  have hcall (before : List Call) (call : Call)
      (hinit : List.IsPrefix (before ++ [call]) calls)
      (hrejected : Rejected (new capacity rate) before call) :
      (∀ rest, Clocked (before ++ call :: rest) →
        CostsNothing (new capacity rate) before call rest) ↔
        ((new capacity rate).after before).balance call.clientId
          call.now = 0 := by
    have hbefore : Clocked (before ++ [call]) :=
      List.Pairwise.sublist hinit.sublist hclock
    have hlimits := after_limits hcapacity hrate.le hbefore
    rw [← rejection_free_iff hlimits hrate hrejected]
    simp only [costsNothing_iff]
    constructor
    · intro hfree rest hnow hrest
      exact hfree rest (clocked_append_cons.mpr ⟨hbefore, hnow, hrest⟩)
    · intro hfree rest hrest
      obtain ⟨_, hnow, hclock'⟩ := clocked_append_cons.mp hrest
      exact hfree rest hnow hclock'
  constructor
  · intro hfree before call hinit hrejected
    exact (hcall before call hinit hrejected).mp
      (hfree before call hinit hrejected)
  · intro hempty before call hinit hrejected
    exact (hcall before call hinit hrejected).mpr
      (hempty before call hinit hrejected)

/-- The retry finds the bucket empty. -/
theorem empty_retry_costs_nothing :
    CostsNothing (new 1 1) [⟨0, "a"⟩] ⟨0, "a"⟩ [⟨1, "a"⟩] := by
  have hclock : Clocked [⟨0, "a"⟩, ⟨0, "a"⟩] := by
    unfold Clocked
    norm_num
  have hlater : Clocked ([⟨0, "a"⟩] ++ ⟨0, "a"⟩ :: [⟨1, "a"⟩]) := by
    unfold Clocked
    norm_num
  have hretry : Rejected (new 1 1) [⟨0, "a"⟩] ⟨0, "a"⟩ := by
    norm_num [Rejected, after, check, new, store]
  apply (rejections_cost_nothing_iff (by norm_num) (by norm_num) hclock).mpr
    _ [⟨0, "a"⟩] ⟨0, "a"⟩ (List.prefix_rfl) hretry _ hlater
  rintro before call ⟨tail, htail⟩ hrejected
  rcases before with _ | ⟨first, _ | ⟨second, before⟩⟩
  · -- the first call of a client is admitted
    cases htail
    cases hrejected
  · cases htail
    norm_num [balance, after, check, new, store]
  · have hlength := congrArg List.length htail
    simp at hlength

/-- A client is rejected after half a second, and again after one, when the
first of the two rejections is what keeps it from being admitted. -/
theorem early_retry_costs :
    Clocked [⟨0, "a"⟩, ⟨1 / 2, "a"⟩, ⟨1, "a"⟩] ∧
      Rejected (new 1 1) [⟨0, "a"⟩] ⟨1 / 2, "a"⟩ ∧
      ¬ CostsNothing (new 1 1) [⟨0, "a"⟩] ⟨1 / 2, "a"⟩ [⟨1, "a"⟩] := by
  refine ⟨?_, ?_, ?_⟩
  · unfold Clocked
    norm_num
  · norm_num [Rejected, after, check, new, store]
  · norm_num [CostsNothing, outcomes, check, new, store, exhausted_ne_ok]

end RateLimiter
end VecDB
