import VecDB.WalSealed
import Mathlib.Tactic

/-!
# Runs in which calls may throw

A log is used on after an append or a truncation that threw.  An append that
throws takes the mapping away and changes nothing that is counted, so such a
log still follows the abstract one.  A reopening that throws leaves no log.
-/

namespace VecDB
namespace WAL

open StateRules

variable {dim : UInt32}

/-- The log behind a call that returned or threw. -/
def survivor {α : Type} (x : EStateM Failure (WAL dim) α) (w : WAL dim) :
    Option (WAL dim) :=
  match x.run w with
  | .ok _ w => some w
  | .error e w => if e.Thrown then some w else none

def Call.attempt (os : OS) : Call dim → WAL dim → Option (WAL dim)
  | .basic (.append vectorId vec), w => survivor (WAL.append os vectorId vec) w
  | .basic .checkpoint, w => survivor WAL.checkpoint w
  | .basic (.reopen checkpointEvery), w =>
      match new os dim checkpointEvery (some w.close) with
      | .ok w => some w
      | .error _ => none
  | .truncate keepFromLsn, w => survivor (WAL.truncate os keepFromLsn) w

/-- A run, each call with what the system grants at the time. -/
def attemptAll : List (OS × Call dim) → WAL dim → Option (WAL dim)
  | [], w => some w
  | (os, call) :: calls, w =>
      match call.attempt os w with
      | some w => attemptAll calls w
      | none => none

theorem survivor_eq_some {α : Type} {x : EStateM Failure (WAL dim) α}
    {w w' : WAL dim} :
    survivor x w = some w' ↔
      (∃ a, x.run w = .ok a w') ∨ ∃ e, x.run w = .error e w' ∧ e.Thrown := by
  unfold survivor
  cases x.run w with
  | ok a w₁ => simp
  | error e w₁ =>
      dsimp only
      split_ifs with hthrown
      · simp [hthrown]
      · simp [hthrown]

theorem Call.attempt_of_step {os : OS} {call : Call dim} {w w' : WAL dim}
    (hstep : call.step os w = .ok w') : call.attempt os w = some w' := by
  cases call with
  | basic op =>
      obtain ⟨out, hop⟩ := Call.step_basic_eq_ok.mp hstep
      cases op with
      | append vectorId vec =>
          obtain ⟨lsn, happend, _⟩ := Op.step_append_eq_ok.mp hop
          exact survivor_eq_some.mpr (Or.inl ⟨lsn, happend⟩)
      | checkpoint =>
          obtain ⟨hcheckpoint, _⟩ := Op.step_checkpoint_eq_ok.mp hop
          exact survivor_eq_some.mpr (Or.inl ⟨(), hcheckpoint⟩)
      | reopen period =>
          simp only [Call.attempt, (Op.step_reopen_eq_ok.mp hop).1]
  | truncate keepFrom =>
      exact survivor_eq_some.mpr
        (Or.inl ⟨(), Call.step_truncate_eq_ok.mp hstep⟩)

/-- A run of calls that return is a run. -/
theorem attemptAll_of_runCalls {os : OS} {calls : List (Call dim)}
    {w w' : WAL dim} (hrun : runCalls os calls w = .ok w') :
    attemptAll (calls.map fun call => (os, call)) w = some w' := by
  induction calls generalizing w with
  | nil =>
      cases hrun
      rfl
  | cons call calls ih =>
      obtain ⟨w₁, hstep, hrest⟩ := runCalls_cons_eq_ok.mp hrun
      simp only [List.map_cons, attemptAll, Call.attempt_of_step hstep]
      exact ih hrest

/-- Where a call returns, a log that it leaves follows the abstract one. -/
theorem Tracks.attempt_reliable {a : SyncedLog (UInt64 × Vec dim)}
    {w w' : WAL dim} (h : Tracks a w) (hentry : entrySize dim ≤ growSize)
    (hroom : entryPtr dim (a.entries.length + 1) + growSize ≤ 2 ^ 63)
    {call : Call dim} (hstep : call.attempt OS.reliable w = some w') :
    Tracks (call.apply a) w' := by
  obtain ⟨w₁, hok⟩ := h.step_reliable hentry hroom call
  rw [Call.attempt_of_step hok] at hstep
  cases hstep
  exact h.step_eq_ok hok

/-! ## What a run follows -/

/-- The log follows the abstract one, or did so before appends that threw. -/
inductive Follows (a : SyncedLog (UInt64 × Vec dim)) : WAL dim → Prop
  | tracks {w : WAL dim} (h : Tracks a w) : Follows a w
  | unmapped {w : WAL dim} {file : ByteFile} (h : Tracks a w)
      (hroom : w.mapSize < entryPtr dim (w.nextLsn + 1))
      (hfile : file = w.file ∨ file = w.file.resize (w.mapSize + growSize)) :
      Follows a (unmapped w file)

theorem Tracks.reserved {a : SyncedLog (UInt64 × Vec dim)} {w : WAL dim}
    (h : Tracks a w) (hlt : (WAL.reserved w).mapSize < 2 ^ 63) :
    Tracks a (WAL.reserved w) where
  clean := h.clean.reserved hlt
  period := (reserved_checkpointEvery w).trans h.period
  mark := (reserved_checkpointLsn w).trans h.mark
  since := (reserved_appendsSinceCkpt w).trans h.since

namespace Follows

variable {a : SyncedLog (UInt64 × Vec dim)} {w w' : WAL dim} {os : OS}

theorem dim_ne_zero (h : Follows a w) : dim ≠ 0 := by
  cases h with
  | tracks h => exact h.clean.dim_ne_zero
  | unmapped h => exact h.clean.dim_ne_zero

theorem next (h : Follows a w) : w.nextLsn = a.entries.length := by
  cases h with
  | tracks h => exact h.clean.holds.next
  | unmapped h => exact h.clean.holds.next

theorem mark (h : Follows a w) : w.checkpointLsn = a.mark := by
  cases h with
  | tracks h => exact h.mark
  | unmapped h => exact h.mark

theorem period (h : Follows a w) : w.checkpointEvery = a.period := by
  cases h with
  | tracks h => exact h.period
  | unmapped h => exact h.period

theorem append_eq_ok (h : Follows a w) {vectorId : UInt64} {vec : Vec dim}
    {lsn : ℕ} (hok : (append os vectorId vec).run w = .ok lsn w') :
    Follows (SyncedLog.append (2 ^ 32) (vectorId, vec) a) w' := by
  cases h with
  | tracks h => exact .tracks (h.append_eq_ok hok)
  | @unmapped w file h hroom hfile =>
      obtain ⟨hftruncate, hmmap⟩ := hasRoom_of_append hok hroom
      rw [unmapped_append h.clean.holds.mapped hroom hfile hftruncate hmmap]
        at hok
      exact .tracks (h.append_eq_ok hok)

/-- An append that throws counts nothing. -/
theorem append_thrown (h : Follows a w) {vectorId : UInt64} {vec : Vec dim}
    {e : Failure} (hthrown : e.Thrown)
    (hfail : (append os vectorId vec).run w = .error e w') : Follows a w' := by
  obtain ⟨_, hgrow⟩ := WAL.append_thrown hthrown hfail
  obtain ⟨hroom, hleft⟩ := append_eq_error hgrow hfail
  cases h with
  | tracks h =>
      rcases hleft with rfl | rfl
      · exact .unmapped h hroom (Or.inl rfl)
      · exact .unmapped h hroom (Or.inr rfl)
  | @unmapped w file h _ hfile =>
      have hlonger : file.resize (w.mapSize + growSize) =
          w.file.resize (w.mapSize + growSize) := by
        rcases hfile with rfl | rfl
        · rfl
        · exact ByteFile.resize_resize_self _ _
      rcases hleft with hleft | hleft
      · have hsame : w' = WAL.unmapped w file := hleft
        rw [hsame]
        exact .unmapped h hroom hfile
      · have hsame : w' = WAL.unmapped w
            (file.resize (w.mapSize + growSize)) :=
          hleft
        rw [hsame, hlonger]
        exact .unmapped h hroom (Or.inr rfl)

theorem checkpoint_eq_ok (h : Follows a w) {u : Unit}
    (hok : checkpoint.run w = .ok u w') : Follows a.sync w' := by
  cases h with
  | tracks h =>
      rw [h.clean.holds.checkpoint_run] at hok
      cases hok
      exact .tracks h.checkpointed
  | unmapped h =>
      rw [unmapped_checkpoint] at hok
      cases hok

theorem reopened (h : Follows a w) {checkpointEvery : ℕ}
    (hnew : new os dim checkpointEvery (some w.close) = .ok w') :
    Tracks (a.reopen checkpointEvery) w' := by
  cases h with
  | tracks h => exact h.reopened hnew
  | @unmapped w file h hroom hfile =>
      rcases hfile with rfl | rfl
      · exact h.reopened hnew
      · -- the file is the one that a `grow` that returned would have left
        have hgrown := reserved_of_full hroom
        obtain ⟨_, hlt, _⟩ := new_some_eq_ok hnew
        have hsize : (WAL.reserved w).mapSize < 2 ^ 63 := by
          rw [hgrown]
          exact (le_max_left _ _).trans_lt hlt
        have hlarger : new os dim checkpointEvery
            (some (WAL.reserved w).close) = .ok w' := by
          rw [hgrown]
          exact hnew
        exact (h.reserved hsize).reopened hlarger

/-- A truncation that keeps nothing. -/
theorem truncated (h : Follows a w) {keepFrom : ℕ}
    (hlt : w.checkpointLsn < keepFrom) (hall : w.nextLsn ≤ keepFrom) :
    Tracks (a.truncate keepFrom) (truncated w) := by
  have hnext := h.next
  have hmark := h.mark
  have hdrop : a.entries.drop keepFrom = [] :=
    List.drop_eq_nil_of_le (by omega)
  unfold SyncedLog.truncate
  rw [if_neg (by omega), hdrop]
  exact ⟨truncated_clean w h.dim_ne_zero, h.period, rfl, rfl⟩

end Follows

end WAL
end VecDB
