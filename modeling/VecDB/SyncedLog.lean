import Mathlib.Tactic

/-!
# A log with a synced mark

A log that knows how many of its entries are on disk.  Every `period` appends
it syncs itself, by a counter of its own: what is bounded is the number of
entries behind the mark, what is counted are the appends since the last sync,
truncation or reopening.  The two agree as long as no truncation and no
reopening leaves entries behind the mark.

The counter wraps at `modulus`.
-/

structure SyncedLog (E : Type) where
  period : ℕ
  entries : List E
  mark : ℕ
  since : ℕ

namespace SyncedLog

variable {E : Type}

inductive Action (E : Type) where
  | append (entry : E)
  | sync
  | truncate (keepFrom : ℕ)
  | reopen (period : ℕ)

def empty (period : ℕ) : SyncedLog E where
  period := period
  entries := []
  mark := 0
  since := 0

def sync (a : SyncedLog E) : SyncedLog E :=
  { a with mark := a.entries.length, since := 0 }

def autoSync (a : SyncedLog E) : SyncedLog E :=
  if 0 < a.period ∧ a.period ≤ a.since then a.sync else a

def truncate (keepFrom : ℕ) (a : SyncedLog E) : SyncedLog E :=
  if keepFrom ≤ a.mark then a
  else { a with entries := a.entries.drop keepFrom, mark := 0, since := 0 }

def reopen (period : ℕ) (a : SyncedLog E) : SyncedLog E :=
  { a with period := period, since := 0 }

section Runs

variable (modulus : ℕ)

def append (entry : E) (a : SyncedLog E) : SyncedLog E :=
  autoSync { a with
    entries := a.entries ++ [entry]
    since := (a.since + 1) % modulus }

def Action.apply : Action E → SyncedLog E → SyncedLog E
  | .append entry => SyncedLog.append modulus entry
  | .sync => SyncedLog.sync
  | .truncate keepFrom => SyncedLog.truncate keepFrom
  | .reopen period => SyncedLog.reopen period

def run (actions : List (Action E)) (a : SyncedLog E) : SyncedLog E :=
  actions.foldl (fun a action => action.apply modulus a) a

end Runs

variable {modulus : ℕ}

@[simp] theorem run_nil (a : SyncedLog E) : run modulus [] a = a := rfl

@[simp] theorem run_cons (action : Action E) (actions : List (Action E))
    (a : SyncedLog E) :
    run modulus (action :: actions) a =
      run modulus actions (action.apply modulus a) := rfl

@[simp] theorem autoSync_entries (a : SyncedLog E) :
    a.autoSync.entries = a.entries := by
  unfold autoSync
  split_ifs <;> rfl

@[simp] theorem autoSync_period (a : SyncedLog E) :
    a.autoSync.period = a.period := by
  unfold autoSync
  split_ifs <;> rfl

@[simp] theorem append_entries (entry : E) (a : SyncedLog E) :
    (append modulus entry a).entries = a.entries ++ [entry] :=
  autoSync_entries _

@[simp] theorem append_period (entry : E) (a : SyncedLog E) :
    (append modulus entry a).period = a.period :=
  autoSync_period _

theorem length_apply_le (action : Action E) (a : SyncedLog E) :
    (action.apply modulus a).entries.length ≤ a.entries.length + 1 := by
  cases action with
  | append entry =>
      simp [Action.apply]
  | sync => exact Nat.le_succ _
  | truncate keepFrom =>
      simp only [Action.apply, truncate]
      split_ifs
      · exact Nat.le_succ _
      · rw [List.length_drop]
        omega
  | reopen period => exact Nat.le_succ _

/-! ## The bound -/

/-- The mark is inside the log, and what is behind it has been counted. -/
structure Counted (period : ℕ) (a : SyncedLog E) : Prop where
  period_eq : a.period = period
  mark_le : a.mark ≤ a.entries.length
  le_since : a.entries.length ≤ a.mark + a.since
  since_lt : a.since < period

/-- No action, save a reopening or a truncation that leaves entries behind
the mark, makes the counter lag. -/
def Action.Keeps (period : ℕ) : Action E → SyncedLog E → Prop
  | .append _, _ => True
  | .sync, _ => True
  | .truncate keepFrom, a => a.mark < keepFrom → a.entries.length ≤ keepFrom
  | .reopen next, a => next = period ∧ a.mark = a.entries.length

namespace Counted

variable {period : ℕ} {a : SyncedLog E}

theorem empty (hpos : 0 < period) : Counted period (empty (E := E) period) :=
  ⟨rfl, le_rfl, le_rfl, hpos⟩

theorem sync (h : Counted period a) : Counted period a.sync :=
  ⟨h.period_eq, le_rfl, Nat.le_add_right _ _,
    lt_of_le_of_lt (Nat.zero_le _) h.since_lt⟩

theorem append (h : Counted period a) (hmodulus : period < modulus)
    (entry : E) : Counted period (append modulus entry a) := by
  have hlt := h.since_lt
  have hle := h.le_since
  have hmark := h.mark_le
  have hmod : (a.since + 1) % modulus = a.since + 1 :=
    Nat.mod_eq_of_lt (by omega)
  unfold SyncedLog.append autoSync
  dsimp only
  rw [hmod, h.period_eq]
  split_ifs with hdue
  · exact ⟨rfl, le_rfl, Nat.le_add_right _ _, by change 0 < period; omega⟩
  · refine ⟨rfl, ?_, ?_, ?_⟩
    · simp only [List.length_append, List.length_singleton]
      omega
    · simp only [List.length_append, List.length_singleton]
      omega
    · simp only
      omega

theorem apply (h : Counted period a) (hmodulus : period < modulus)
    {action : Action E} (hkeeps : action.Keeps period a) :
    Counted period (action.apply modulus a) := by
  cases action with
  | append entry => exact h.append hmodulus entry
  | sync => exact h.sync
  | truncate keepFrom =>
      simp only [Action.apply, SyncedLog.truncate]
      split_ifs with hle
      · exact h
      · have hall := hkeeps (not_le.mp hle)
        refine ⟨h.period_eq, Nat.zero_le _, ?_, ?_⟩
        · simp only [List.length_drop]
          omega
        · exact lt_of_le_of_lt (Nat.zero_le _) h.since_lt
  | reopen next =>
      obtain ⟨hnext, hmark⟩ := hkeeps
      refine ⟨hnext, h.mark_le, ?_, ?_⟩
      · simp only [Action.apply, SyncedLog.reopen]
        omega
      · exact lt_of_le_of_lt (Nat.zero_le _) h.since_lt

theorem length_sub_mark_lt (h : Counted period a) :
    a.entries.length - a.mark < period := by
  have hle := h.le_since
  have hlt := h.since_lt
  omega

end Counted

/-- Behind a reopening or a truncation that leaves entries behind the mark,
appends alone break the bound: the next sync is `period` of them away. -/
theorem unsynced_of_appends {period : ℕ} {a : SyncedLog E}
    (hperiod : a.period = period) (hmodulus : period < modulus)
    (hmark : a.mark ≤ a.entries.length) (more : List E)
    (hfew : a.since + more.length < period) :
    (run modulus (more.map .append) a).entries.length -
        (run modulus (more.map .append) a).mark =
      a.entries.length - a.mark + more.length := by
  induction more generalizing a with
  | nil => rfl
  | cons entry more ih =>
      rw [List.length_cons] at hfew
      have hmod : (a.since + 1) % modulus = a.since + 1 :=
        Nat.mod_eq_of_lt (by omega)
      have happend : append modulus entry a = { a with
          entries := a.entries ++ [entry]
          since := a.since + 1 } := by
        unfold append autoSync
        dsimp only
        rw [hmod, if_neg (by omega)]
      have hlength : (a.entries ++ [entry]).length = a.entries.length + 1 := by
        simp
      have hrest := ih (a := { a with
        entries := a.entries ++ [entry]
        since := a.since + 1 }) hperiod (by dsimp only; omega)
        (by dsimp only; omega)
      rw [List.map_cons, run_cons, Action.apply, happend, hrest,
        List.length_cons]
      dsimp only
      omega

end SyncedLog
