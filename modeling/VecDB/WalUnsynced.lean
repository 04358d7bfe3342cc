import VecDB.WalAttempts
import Mathlib.Tactic

/-!
# The entries behind the last checkpoint

The automatic checkpoint counts appends since the last checkpoint, truncation
or construction.  Fewer than `checkpoint_every` entries are behind the
checkpoint as long as no reopening and no truncation leaves entries there that
are not counted any more.
-/

namespace VecDB
namespace WAL

variable {dim : UInt32}

/-- Nothing is behind the checkpoint when the log is reopened, and a
truncation that is not skipped keeps nothing. -/
def Call.KeepsCount : Call dim → WAL dim → Prop
  | .basic (.reopen _), w => w.checkpointLsn = w.nextLsn
  | .truncate keepFromLsn, w =>
      w.checkpointLsn < keepFromLsn → w.nextLsn ≤ keepFromLsn
  | .basic (.append _ _), _ => True
  | .basic .checkpoint, _ => True

/-- The system grants a truncation to nothing what it asks for. -/
def Call.Granted (os : OS) : Call dim → WAL dim → Prop
  | .truncate keepFromLsn, w => w.checkpointLsn < keepFromLsn →
      os.ftruncate headerSize = true ∧ os.ftruncate initialSize = true ∧
        os.mmap initialSize = true
  | .basic _, _ => True

/-- Every step of the run keeps the count. -/
def KeepsCounts : List (OS × Call dim) → WAL dim → Prop
  | [], _ => True
  | (os, call) :: calls, w => call.KeepsCount w ∧ call.Granted os w ∧
      ∀ w', call.attempt os w = some w' → KeepsCounts calls w'

namespace Follows

variable {a : SyncedLog (UInt64 × Vec dim)} {w w' : WAL dim}

theorem keeps (h : Follows a w) {call : Call dim} {period : ℕ}
    (hreopen : ∀ next, call = .basic (.reopen next) → next = period)
    (hkeeps : call.KeepsCount w) : call.action.Keeps period a := by
  have hnext := h.next
  have hmark := h.mark
  cases call with
  | basic op =>
      cases op with
      | append vectorId vec => exact True.intro
      | checkpoint => exact True.intro
      | reopen next =>
          have hsynced : w.checkpointLsn = w.nextLsn := hkeeps
          exact ⟨hreopen next rfl, by omega⟩
  | truncate keepFrom =>
      intro hlt
      have hall : w.nextLsn ≤ keepFrom := hkeeps (by omega)
      omega

/-- A truncation that keeps the count returns. -/
theorem truncate_kept (h : Follows a w) {os : OS} {keepFrom : ℕ}
    (hkeeps : (Call.truncate keepFrom).KeepsCount w)
    (hgranted : (Call.truncate keepFrom).Granted os w) :
    ∃ w', (truncate os keepFrom).run w = .ok () w' ∧
      Follows (a.truncate keepFrom) w' := by
  have hmark := h.mark
  rcases Nat.lt_or_ge w.checkpointLsn keepFrom with hlt | hle
  · have hall := hkeeps hlt
    obtain ⟨hcut, hextend, hmmap⟩ := hgranted hlt
    refine ⟨WAL.truncated w, ?_, .tracks (h.truncated hlt hall)⟩
    rw [truncate_of_next_le hlt hall, if_neg (by simp [hcut]),
      if_neg (by simp [hextend]), if_neg (by simp [hmmap])]
  · refine ⟨w, truncate_of_le hle, ?_⟩
    unfold SyncedLog.truncate
    rwa [if_pos (by omega)]

/-- A step that keeps the count, whether it returns or throws. -/
theorem counted_step (h : Follows a w) {os : OS} {period : ℕ}
    (hperiod : period < 2 ^ 32) (hcounted : a.Counted period)
    {call : Call dim}
    (hreopen : ∀ next, call = .basic (.reopen next) → next = period)
    (hkeeps : call.KeepsCount w) (hgranted : call.Granted os w)
    (hstep : call.attempt os w = some w') :
    ∃ a', Follows a' w' ∧ a'.Counted period := by
  have hcount : (call.apply a).Counted period :=
    hcounted.apply hperiod (h.keeps hreopen hkeeps)
  cases call with
  | basic op =>
      cases op with
      | append vectorId vec =>
          rcases survivor_eq_some.mp hstep with ⟨lsn, hok⟩ | ⟨e, hfail, hthrown⟩
          · exact ⟨_, h.append_eq_ok hok, hcount⟩
          · exact ⟨a, h.append_thrown hthrown hfail, hcounted⟩
      | checkpoint =>
          rcases survivor_eq_some.mp hstep with ⟨u, hok⟩ | ⟨e, hfail, hthrown⟩
          · exact ⟨_, h.checkpoint_eq_ok hok, hcount⟩
          · exact (hthrown.1 (throws_checkpoint _ _ _ hfail)).elim
      | reopen next =>
          simp only [Call.attempt] at hstep
          cases hnew : new os dim next (some w.close) with
          | error e => simp [hnew] at hstep
          | ok w₁ =>
              rw [hnew] at hstep
              cases hstep
              exact ⟨_, .tracks (h.reopened hnew), hcount⟩
  | truncate keepFrom =>
      obtain ⟨w₁, hok, hfollows⟩ := h.truncate_kept hkeeps hgranted
      have hsome : (Call.truncate keepFrom).attempt os w = some w₁ :=
        survivor_eq_some.mpr (Or.inl ⟨(), hok⟩)
      rw [hsome] at hstep
      cases hstep
      exact ⟨_, hfollows, hcount⟩

theorem counted_run (h : Follows a w) {period : ℕ} (hperiod : period < 2 ^ 32)
    (hcounted : a.Counted period) {calls : List (OS × Call dim)}
    (hreopen : ∀ os next, (os, Call.basic (.reopen next)) ∈ calls →
      next = period)
    (hkeeps : KeepsCounts calls w) (hrun : attemptAll calls w = some w') :
    ∃ a', Follows a' w' ∧ a'.Counted period := by
  induction calls generalizing a w with
  | nil =>
      cases hrun
      exact ⟨a, h, hcounted⟩
  | cons head calls ih =>
      obtain ⟨os, call⟩ := head
      simp only [attemptAll] at hrun
      obtain ⟨hkeep, hgranted, htail⟩ := hkeeps
      cases hstep : call.attempt os w with
      | none => simp [hstep] at hrun
      | some w₁ =>
          simp only [hstep] at hrun
          obtain ⟨a₁, hfollows, hcounted₁⟩ := h.counted_step hperiod hcounted
            (fun next heq => hreopen os next (by simp [heq])) hkeep hgranted
            hstep
          exact ih hfollows hcounted₁
            (fun os next hmem => hreopen os next (List.mem_cons_of_mem _ hmem))
            (htail w₁ hstep) hrun

end Follows

/-- In a run from a new file whose steps all keep the count, fewer than
`checkpoint_every` entries are behind the checkpoint, also behind appends that
threw. -/
theorem unsynced_lt {os : OS} {checkpointEvery : UInt32}
    (hpos : checkpointEvery ≠ 0) {calls : List (OS × Call dim)}
    (hreopen : ∀ os next, (os, Call.basic (.reopen next)) ∈ calls →
      next = checkpointEvery.toNat)
    {w₀ w : WAL dim} (hnew : new os dim checkpointEvery.toNat none = .ok w₀)
    (hkeeps : KeepsCounts calls w₀) (hrun : attemptAll calls w₀ = some w) :
    w.checkpointLsn ≤ w.nextLsn ∧
      w.nextLsn - w.checkpointLsn < checkpointEvery.toNat := by
  have hperiod : 0 < checkpointEvery.toNat := by
    apply Nat.pos_of_ne_zero
    intro hzero
    exact hpos (UInt32.toNat_inj.mp hzero)
  obtain rfl := new_none_eq_ok hnew
  have hstart := Tracks.created (new_dim_ne_zero hnew) checkpointEvery.toNat
  obtain ⟨a, hfollows, hcounted⟩ := (Follows.tracks hstart).counted_run
    checkpointEvery.toNat_lt (SyncedLog.Counted.empty hperiod) hreopen hkeeps
    hrun
  have hlt := hcounted.length_sub_mark_lt
  have hle := hcounted.mark_le
  rw [← hfollows.next, ← hfollows.mark] at hlt hle
  exact ⟨hle, hlt⟩

theorem unsynced_lt_reopened :
    ∃ w, attemptAll ([.basic (.append 7 (Vec.ofBytes 1 [1, 2, 3, 4])),
          .basic .checkpoint, .basic (.reopen 2)].map fun call =>
            (OS.reliable, call)) (created 1 2) = some w ∧
      w.checkpointLsn ≤ w.nextLsn ∧ w.nextLsn - w.checkpointLsn < 2 := by
  obtain ⟨w, hrun⟩ := runCalls_small 2 [
    .basic (.append 7 (Vec.ofBytes 1 [1, 2, 3, 4])), .basic .checkpoint,
    .basic (.reopen 2)] (by decide)
  have hnew : new OS.reliable 1 (2 : UInt32).toNat none =
      .ok (created 1 2) := new_small 2
  have hattempts := attemptAll_of_runCalls hrun
  refine ⟨w, hattempts, unsynced_lt (by decide) ?_ hnew ?_ hattempts⟩
  · intro os next hnext
    simp only [List.map_cons, List.map_nil, List.mem_cons, Prod.mk.injEq,
      Call.basic.injEq, reduceCtorEq, Op.reopen.injEq, and_false, false_or,
      List.not_mem_nil, or_false] at hnext
    exact hnext.2
  · refine ⟨True.intro, True.intro, fun w₁ hfirst =>
      ⟨True.intro, True.intro, fun w₂ hsecond =>
        ⟨?_, True.intro, fun _ _ => True.intro⟩⟩⟩
    have htracks := ((Tracks.created (by decide) 2).attempt_reliable
      (by decide) (by decide) hfirst).attempt_reliable
      (by decide) (by decide) hsecond
    have hmark : w₂.checkpointLsn = 1 := htracks.mark
    have hnext : w₂.nextLsn = 1 := htracks.clean.holds.next
    exact hmark.trans hnext.symm

/-! ## Steps that do not keep the count -/

/-- The step leaves entries behind the mark and starts the count again. -/
theorem Tracks.apply_of_not_keeps {a : SyncedLog (UInt64 × Vec dim)}
    {w : WAL dim} (h : Tracks a w) {call : Call dim} {period : ℕ}
    (hperiod : a.period = period)
    (hreopen : ∀ next, call = .basic (.reopen next) → next = period)
    (hnot : ¬ call.KeepsCount w) :
    (call.apply a).period = period ∧ (call.apply a).since = 0 ∧
      (call.apply a).mark < (call.apply a).entries.length := by
  have hmark := h.mark
  have hnext := h.clean.holds.next
  have hckpt := h.clean.ckpt_le
  cases call with
  | basic op =>
      cases op with
      | append vectorId vec => exact (hnot True.intro).elim
      | checkpoint => exact (hnot True.intro).elim
      | reopen next =>
          have hbehind : w.checkpointLsn ≠ w.nextLsn := hnot
          refine ⟨hreopen next rfl, rfl, ?_⟩
          change a.mark < a.entries.length
          omega
  | truncate keepFrom =>
      have hkept : w.checkpointLsn < keepFrom ∧ keepFrom < w.nextLsn := by
        simpa [Call.KeepsCount] using hnot
      have happly : (Call.truncate keepFrom).apply a = { a with
          entries := a.entries.drop keepFrom
          mark := 0
          since := 0 } := if_neg (by omega)
      rw [happly]
      refine ⟨hperiod, rfl, ?_⟩
      simp only [List.length_drop]
      omega

/-- A step that does not keep the count can break the bound by appends alone:
`checkpoint_every - 1` of them do. -/
theorem unsynced_ge_of_not_keeps {os : OS} {checkpointEvery : UInt32}
    {calls : List (Call dim)} {call : Call dim} {w₀ w w₁ w' : WAL dim}
    (hreopen : ∀ next, call = .basic (.reopen next) →
      next = checkpointEvery.toNat)
    (hevery : w.checkpointEvery = checkpointEvery.toNat)
    (hnew : new os dim checkpointEvery.toNat none = .ok w₀)
    (hrun : runCalls os calls w₀ = .ok w) (hstep : call.step os w = .ok w₁)
    (hnot : ¬ call.KeepsCount w) {more : List (UInt64 × Vec dim)}
    (hmore : more.length + 1 = checkpointEvery.toNat)
    (happends : runCalls os (more.map fun entry =>
      .basic (.append entry.1 entry.2)) w₁ = .ok w') :
    checkpointEvery.toNat ≤ w'.nextLsn - w'.checkpointLsn := by
  have htracks := tracks_of_run hnew hrun
  generalize SyncedLog.run (2 ^ 32) (calls.map Call.action)
    (SyncedLog.empty checkpointEvery.toNat) = a at htracks
  obtain ⟨hperiod, hsince, hbehind⟩ := htracks.apply_of_not_keeps
    (htracks.period.symm.trans hevery) hreopen hnot
  have hlast := (htracks.step_eq_ok hstep).run_eq_ok happends
  rw [List.map_map] at hlast
  have hbound := SyncedLog.unsynced_of_appends hperiod
    checkpointEvery.toNat_lt hbehind.le more (by omega)
  have hactions : (Call.action ∘ fun entry : UInt64 × Vec dim =>
      Call.basic (.append entry.1 entry.2)) = SyncedLog.Action.append := rfl
  rw [hactions] at hlast
  rw [hlast.clean.holds.next, hlast.mark, hbound]
  omega

/-- With `checkpoint_every = 3`, two appends, a reopening and two appends
leave four entries behind the checkpoint. -/
theorem unsynced_after_reopen :
    ∃ w, attemptAll ([.basic (.append 7 (Vec.ofBytes 1 [1, 2, 3, 4])),
          .basic (.append 8 (Vec.ofBytes 1 [1, 2, 3, 4])), .basic (.reopen 3),
          .basic (.append 9 (Vec.ofBytes 1 [1, 2, 3, 4])),
          .basic (.append 10 (Vec.ofBytes 1 [1, 2, 3, 4]))].map fun call =>
            (OS.reliable, call)) (created 1 3) = some w ∧
      new OS.reliable 1 3 none = .ok (created 1 3) ∧
      ¬ (w.nextLsn - w.checkpointLsn < 3) := by
  obtain ⟨w, hrun⟩ := runCalls_small 3
    [.basic (.append 7 (Vec.ofBytes 1 [1, 2, 3, 4])),
      .basic (.append 8 (Vec.ofBytes 1 [1, 2, 3, 4])), .basic (.reopen 3),
      .basic (.append 9 (Vec.ofBytes 1 [1, 2, 3, 4])),
      .basic (.append 10 (Vec.ofBytes 1 [1, 2, 3, 4]))] (by decide)
  have htracks := tracks_of_run (new_small 3) hrun
  have hnext : w.nextLsn = 4 := htracks.clean.holds.next
  have hckpt : w.checkpointLsn = 0 := htracks.mark
  exact ⟨w, attemptAll_of_runCalls hrun, new_small 3, by omega⟩

end WAL
end VecDB
