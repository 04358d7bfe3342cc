import VecDB.SyncedLog
import VecDB.WalPrefix
import Mathlib.Tactic

/-!
# Runs with truncations

A log file under appends, checkpoints, reopenings and truncations is a list
of entries with a synced mark: `checkpoint_lsn_` is the mark and
`appends_since_ckpt_`, a 32-bit word, the counter.  Every call that returns
keeps this, and on a system that grants what it can the calls do return, up
to the size of the largest file.
-/

namespace VecDB
namespace WAL

variable {dim : UInt32}

/-- The appends, checkpoints and reopenings of `Op`, and truncations. -/
inductive Call (dim : UInt32) where
  | basic (op : Op dim)
  | truncate (keepFromLsn : ℕ)

def Call.step (os : OS) : Call dim → WAL dim → Except Failure (WAL dim)
  | .basic op, w =>
      match op.step os w with
      | .ok (w, _) => .ok w
      | .error e => .error e
  | .truncate keepFromLsn, w =>
      match (WAL.truncate os keepFromLsn).run w with
      | .ok _ w => .ok w
      | .error e _ => .error e

theorem Call.step_basic_eq_ok {os : OS} {op : Op dim} {w w' : WAL dim} :
    (Call.basic op).step os w = .ok w' ↔
      ∃ out, op.step os w = .ok (w', out) := by
  simp only [Call.step]
  cases op.step os w with
  | ok step => simp [Prod.ext_iff, eq_comm]
  | error e => simp

theorem Call.step_truncate_eq_ok {os : OS} {keepFromLsn : ℕ}
    {w w' : WAL dim} :
    (Call.truncate keepFromLsn).step os w = .ok w' ↔
      (WAL.truncate os keepFromLsn).run w = .ok () w' := by
  simp only [Call.step]
  cases (WAL.truncate os keepFromLsn).run w with
  | ok _ w₁ => simp
  | error e w₁ => simp

def runCalls (os : OS) : List (Call dim) → WAL dim → Except Failure (WAL dim)
  | [], w => .ok w
  | call :: calls, w =>
      match call.step os w with
      | .ok w => runCalls os calls w
      | .error e => .error e

theorem runCalls_cons_eq_ok {os : OS} {call : Call dim}
    {calls : List (Call dim)} {w w' : WAL dim} :
    runCalls os (call :: calls) w = .ok w' ↔
      ∃ w₁, call.step os w = .ok w₁ ∧ runCalls os calls w₁ = .ok w' := by
  simp only [runCalls]
  cases call.step os w with
  | ok w₁ => simp
  | error e => simp

def Call.action : Call dim → SyncedLog.Action (UInt64 × Vec dim)
  | .basic (.append vectorId vec) => .append (vectorId, vec)
  | .basic .checkpoint => .sync
  | .basic (.reopen checkpointEvery) => .reopen checkpointEvery
  | .truncate keepFromLsn => .truncate keepFromLsn

def Call.apply (call : Call dim) (a : SyncedLog (UInt64 × Vec dim)) :
    SyncedLog (UInt64 × Vec dim) :=
  call.action.apply (2 ^ 32) a

/-! ## What a call does to the log -/

structure Tracks (a : SyncedLog (UInt64 × Vec dim)) (w : WAL dim) : Prop where
  clean : Clean a.entries w
  period : w.checkpointEvery = a.period
  mark : w.checkpointLsn = a.mark
  since : w.appendsSinceCkpt = a.since

theorem reserved_checkpointEvery (w : WAL dim) :
    (reserved w).checkpointEvery = w.checkpointEvery := by
  unfold reserved
  split_ifs <;> rfl

theorem reserved_appendsSinceCkpt (w : WAL dim) :
    (reserved w).appendsSinceCkpt = w.appendsSinceCkpt := by
  unfold reserved
  split_ifs <;> rfl

namespace Tracks

variable {a : SyncedLog (UInt64 × Vec dim)} {w : WAL dim}

theorem created (hdim : dim ≠ 0) (checkpointEvery : ℕ) :
    Tracks (SyncedLog.empty checkpointEvery) (created dim checkpointEvery) :=
  ⟨Clean.created hdim checkpointEvery, rfl, rfl, rfl⟩

theorem checkpointed (h : Tracks a w) : Tracks a.sync (checkpointed w) :=
  ⟨h.clean.checkpointed, h.period, h.clean.holds.next, rfl⟩

theorem appended (h : Tracks a w) (hlt : (WAL.reserved w).mapSize < 2 ^ 63)
    (hfits : entryPtr dim (w.nextLsn + 1) ≤ (WAL.reserved w).mapSize)
    (vectorId : UInt64) (vec : Vec dim) :
    Tracks (SyncedLog.append (2 ^ 32) (vectorId, vec) a)
      (appended w vectorId vec) := by
  have hstored : Tracks { a with
      entries := a.entries ++ [(vectorId, vec)]
      since := (a.since + 1) % 2 ^ 32 } (WAL.stored w vectorId vec) := by
    refine ⟨h.clean.stored hlt hfits vectorId vec, ?_, ?_, ?_⟩
    · exact (reserved_checkpointEvery w).trans h.period
    · exact (reserved_checkpointLsn w).trans h.mark
    · rw [← h.since, ← reserved_appendsSinceCkpt w]
      rfl
  unfold WAL.appended SyncedLog.append SyncedLog.autoSync
  rw [hstored.period, hstored.since]
  split_ifs
  · exact hstored.checkpointed
  · exact hstored

theorem truncated (h : Tracks a w) {os : OS} {w' : WAL dim} {keepFrom : ℕ}
    (hok : (WAL.truncate os keepFrom).run w = .ok () w') :
    Tracks (a.truncate keepFrom) w' := by
  unfold SyncedLog.truncate
  rw [← h.mark]
  by_cases hle : keepFrom ≤ w.checkpointLsn
  · rw [truncate_of_le hle] at hok
    cases hok
    rwa [if_pos hle]
  · obtain rfl := h.clean.holds.truncate_eq_ok (not_le.mp hle) hok
    rw [if_neg hle]
    exact ⟨h.clean.kept_min keepFrom, h.period, rfl, rfl⟩

theorem reopened (h : Tracks a w) {os : OS} {w' : WAL dim} {period : ℕ}
    (hnew : new os dim period (some w.close) = .ok w') :
    Tracks (a.reopen period) w' := by
  obtain ⟨_, _, ckptLsn, hheader, rfl⟩ := new_some_eq_ok hnew
  rw [show opened w.close = w.file from h.clean.holds.opened_file,
    h.clean.holds.header] at hheader
  cases hheader
  rw [show w.close = w.file from rfl,
    h.clean.holds.reopened_close period (h.clean.not_slotValid _)]
  exact ⟨h.clean.bookkeeping period 0, rfl, h.mark, rfl⟩

theorem append_eq_ok (h : Tracks a w) {os : OS} {vectorId : UInt64}
    {vec : Vec dim} {lsn : ℕ} {w' : WAL dim}
    (hok : (WAL.append os vectorId vec).run w = .ok lsn w') :
    Tracks (SyncedLog.append (2 ^ 32) (vectorId, vec) a) w' := by
  obtain ⟨_, rfl, hlt, hfits⟩ := h.clean.holds.append_eq_ok hok
  exact h.appended hlt hfits vectorId vec

/-- A call that returns does what the abstract log does. -/
theorem step_eq_ok (h : Tracks a w) {os : OS} {call : Call dim}
    {w' : WAL dim} (hstep : call.step os w = .ok w') :
    Tracks (call.apply a) w' := by
  cases call with
  | basic op =>
      obtain ⟨out, hop⟩ := Call.step_basic_eq_ok.mp hstep
      cases op with
      | append vectorId vec =>
          obtain ⟨lsn, happend, _⟩ := Op.step_append_eq_ok.mp hop
          exact h.append_eq_ok happend
      | checkpoint =>
          obtain ⟨hcheckpoint, _⟩ := Op.step_checkpoint_eq_ok.mp hop
          rw [h.clean.holds.checkpoint_run] at hcheckpoint
          cases hcheckpoint
          exact h.checkpointed
      | reopen period =>
          exact h.reopened (Op.step_reopen_eq_ok.mp hop).1
  | truncate keepFrom =>
      exact h.truncated (Call.step_truncate_eq_ok.mp hstep)

theorem run_eq_ok (h : Tracks a w) {os : OS} {calls : List (Call dim)}
    {w' : WAL dim} (hrun : runCalls os calls w = .ok w') :
    Tracks (SyncedLog.run (2 ^ 32) (calls.map Call.action) a) w' := by
  induction calls generalizing a w with
  | nil =>
      cases hrun
      exact h
  | cons call calls ih =>
      obtain ⟨w₁, hstep, hrest⟩ := runCalls_cons_eq_ok.mp hrun
      exact ih (h.step_eq_ok hstep) hrest

/-! ## Calls that return -/

/-- Where file operations succeed, a call returns unless an append would take
the file past the largest size. -/
theorem step_reliable (h : Tracks a w) (hentry : entrySize dim ≤ growSize)
    (hroom : entryPtr dim (a.entries.length + 1) + growSize ≤ 2 ^ 63)
    (call : Call dim) : ∃ w', call.step OS.reliable w = .ok w' := by
  cases call with
  | basic op =>
      cases op with
      | append vectorId vec =>
          rcases h.clean.append_step hentry vectorId vec with
            ⟨hrun, _⟩ | ⟨w', _, hlarge⟩
          · simp only [Call.step, Op.step, hrun]
            exact ⟨_, rfl⟩
          · omega
      | checkpoint =>
          simp only [Call.step, Op.step, h.clean.holds.checkpoint_run]
          exact ⟨_, rfl⟩
      | reopen period =>
          simp only [Call.step, Op.step, h.clean.new_close]
          exact ⟨_, rfl⟩
  | truncate keepFrom =>
      rcases Nat.lt_or_ge w.checkpointLsn keepFrom with hlt | hge
      · simp only [Call.step, h.clean.holds.truncate_reliable hlt]
        exact ⟨_, rfl⟩
      · simp only [Call.step, truncate_of_le hge]
        exact ⟨_, rfl⟩

theorem run_reliable (h : Tracks a w) (hentry : entrySize dim ≤ growSize)
    {calls : List (Call dim)}
    (hroom : entryPtr dim (a.entries.length + calls.length) + growSize ≤
      2 ^ 63) : ∃ w', runCalls OS.reliable calls w = .ok w' := by
  induction calls generalizing a w with
  | nil => exact ⟨w, rfl⟩
  | cons call calls ih =>
      rw [List.length_cons] at hroom
      have hone : entryPtr dim (a.entries.length + 1) ≤
          entryPtr dim (a.entries.length + (calls.length + 1)) :=
        entryPtr_mono dim (by omega)
      obtain ⟨w₁, hstep⟩ := h.step_reliable hentry (by omega) call
      have hlength : (call.apply a).entries.length ≤ a.entries.length + 1 :=
        SyncedLog.length_apply_le call.action a
      have hrest : entryPtr dim ((call.apply a).entries.length + calls.length) ≤
          entryPtr dim (a.entries.length + (calls.length + 1)) :=
        entryPtr_mono dim (by omega)
      simp only [runCalls, hstep]
      exact ih (h.step_eq_ok hstep) (by omega)

end Tracks

theorem tracks_of_run {os : OS} {checkpointEvery : ℕ}
    {calls : List (Call dim)} {w₀ w : WAL dim}
    (hnew : new os dim checkpointEvery none = .ok w₀)
    (hrun : runCalls os calls w₀ = .ok w) :
    Tracks (SyncedLog.run (2 ^ 32) (calls.map Call.action)
      (SyncedLog.empty checkpointEvery)) w := by
  obtain rfl := new_none_eq_ok hnew
  exact (Tracks.created (new_dim_ne_zero hnew) checkpointEvery).run_eq_ok hrun

/-! ## What a truncation keeps -/

/-- `truncate (keepFrom)` returns and leaves the entries from `keepFrom` on,
renumbered from zero, for `replay`, for a reopening and for later appends. -/
structure DropsPrefix (entries : List (UInt64 × Vec dim)) (keepFrom : ℕ)
    (w w' : WAL dim) : Prop where
  returns : (truncate OS.reliable keepFrom).run w = .ok () w'
  replay : w'.replay =
    (numbered (entries.drop keepFrom), (entries.drop keepFrom).length)
  next : w'.nextLsn = entries.length - min keepFrom entries.length
  reopens : ∀ checkpointEvery, ∃ w'',
    new OS.reliable dim checkpointEvery (some w'.close) = .ok w'' ∧
      w''.replay = w'.replay ∧ w''.nextLsn = w'.nextLsn
  continues : ∀ more w'', (appendAll OS.reliable more).run w' = .ok () w'' →
    w''.replay = (numbered (entries.drop keepFrom ++ more),
        (entries.drop keepFrom ++ more).length) ∧
      w''.nextLsn = (entries.drop keepFrom ++ more).length
  returns_appends : ∀ more, entrySize dim ≤ growSize →
    entryPtr dim ((entries.drop keepFrom ++ more).length) + growSize ≤
      2 ^ 63 → ∃ w'', (appendAll OS.reliable more).run w' = .ok () w''

theorem Clean.appendAll_reliable {w : WAL dim}
    {entries more : List (UInt64 × Vec dim)} (h : Clean entries w)
    (hentry : entrySize dim ≤ growSize)
    (hroom : entryPtr dim (entries ++ more).length + growSize ≤ 2 ^ 63) :
    ∃ w', (appendAll OS.reliable more).run w = .ok () w' := by
  induction more generalizing w entries with
  | nil => exact ⟨w, rfl⟩
  | cons entry more ih =>
      obtain ⟨vectorId, vec⟩ := entry
      have hone : entryPtr dim (entries.length + 1) ≤
          entryPtr dim (entries ++ (vectorId, vec) :: more).length :=
        entryPtr_mono dim (by simp)
      rcases h.append_step hentry vectorId vec with
        ⟨hrun, hclean⟩ | ⟨w', _, hlarge⟩
      · obtain ⟨w', hrest⟩ := ih hclean (by simpa using hroom)
        unfold appendAll
        exact ⟨w', by rw [bind_of_ok hrun, hrest]⟩
      · omega

theorem Clean.dropsPrefix {entries : List (UInt64 × Vec dim)} {keepFrom : ℕ}
    {w w' : WAL dim}
    (hreturns : (truncate OS.reliable keepFrom).run w = .ok () w')
    (h : Clean (entries.drop keepFrom) w') :
    DropsPrefix entries keepFrom w w' where
  returns := hreturns
  replay := h.replay
  next := by
    rw [h.holds.next, List.length_drop]
    omega
  reopens := by
    intro checkpointEvery
    refine ⟨_, h.new_close checkpointEvery, ?_, rfl⟩
    rw [(h.bookkeeping checkpointEvery 0).replay, h.replay]
  continues := by
    intro more w'' hrun
    have hmore := h.appendAll_eq_ok hrun
    exact ⟨hmore.replay, hmore.holds.next⟩
  returns_appends := fun _ hentry hroom => h.appendAll_reliable hentry hroom

theorem Clean.not_dropsPrefix {entries : List (UInt64 × Vec dim)}
    {keepFrom : ℕ} {w : WAL dim} (h : Clean entries w) (hpos : 0 < keepFrom)
    (hle : keepFrom ≤ w.checkpointLsn) :
    ¬ ∃ w', DropsPrefix entries keepFrom w w' := by
  rintro ⟨w', hdrops⟩
  have hsame := hdrops.returns
  rw [truncate_of_le hle] at hsame
  cases hsame
  have hnext := hdrops.next
  have hckpt := h.ckpt_le
  rw [h.holds.next] at hnext hckpt
  omega

/-- In every run, `truncate (keepFrom)` drops exactly the entries before
`keepFrom` if and only if there is nothing to drop or the checkpoint is below
`keepFrom`. -/
theorem truncate_drops_prefix_iff {os : OS} {checkpointEvery : ℕ}
    {calls : List (Call dim)} {w₀ w : WAL dim}
    (hnew : new os dim checkpointEvery none = .ok w₀)
    (hrun : runCalls os calls w₀ = .ok w) (keepFrom : ℕ) :
    ∃ entries, w.replay = (numbered entries, entries.length) ∧
      w.nextLsn = entries.length ∧
      ((∃ w', DropsPrefix entries keepFrom w w') ↔
        keepFrom = 0 ∨ w.checkpointLsn < keepFrom) := by
  have hclean := (tracks_of_run hnew hrun).clean
  generalize (SyncedLog.run (2 ^ 32) (calls.map Call.action)
    (SyncedLog.empty checkpointEvery)).entries = entries at hclean
  refine ⟨entries, hclean.replay, hclean.holds.next, ?_, ?_⟩
  · intro hdrops
    by_contra hnot
    push Not at hnot
    exact hclean.not_dropsPrefix (Nat.pos_of_ne_zero hnot.1) hnot.2 hdrops
  · intro hcond
    rcases Nat.lt_or_ge w.checkpointLsn keepFrom with hlt | hge
    · exact ⟨_, (hclean.kept_min keepFrom).dropsPrefix
        (hclean.holds.truncate_reliable hlt)⟩
    · obtain rfl : keepFrom = 0 := by omega
      exact ⟨w, Clean.dropsPrefix (truncate_of_le hge) hclean⟩

theorem new_small (checkpointEvery : ℕ) :
    new OS.reliable 1 checkpointEvery none = .ok (created 1 checkpointEvery) :=
  new_none (by decide) (by decide) (by decide)

theorem runCalls_small (checkpointEvery : ℕ) (calls : List (Call 1))
    (hshort : calls.length ≤ 2 ^ 50) :
    ∃ w, runCalls OS.reliable calls (created 1 checkpointEvery) = .ok w := by
  apply (Tracks.created (by decide) checkpointEvery).run_reliable (by decide)
  have hmono : entryPtr 1 (([] : List (UInt64 × Vec 1)).length + calls.length) ≤
      entryPtr 1 (2 ^ 50) := entryPtr_mono 1 (by simpa using hshort)
  have hroom : entryPtr 1 (2 ^ 50) + growSize ≤ 2 ^ 63 := by decide
  exact (Nat.add_le_add_right hmono _).trans hroom

theorem truncate_drops_prefix_two :
    ∃ w, runCalls OS.reliable
        [.basic (.append 7 (Vec.ofBytes 1 [1, 2, 3, 4])), .basic .checkpoint,
          .basic (.append 8 (Vec.ofBytes 1 [5, 6, 7, 8]))]
        (created 1 0) = .ok w ∧
      ∃ entries, w.replay = (numbered entries, entries.length) ∧
        w.nextLsn = entries.length ∧
        ((∃ w', DropsPrefix entries 2 w w') ↔ 2 = 0 ∨ w.checkpointLsn < 2) := by
  obtain ⟨w, hrun⟩ := runCalls_small 0 [
    .basic (.append 7 (Vec.ofBytes 1 [1, 2, 3, 4])), .basic .checkpoint,
    .basic (.append 8 (Vec.ofBytes 1 [5, 6, 7, 8]))] (by decide)
  exact ⟨w, hrun, truncate_drops_prefix_iff (new_small 0) hrun 2⟩

/-- One entry is appended and a checkpoint made; `truncate (1)` returns
without dropping the entry. -/
theorem truncate_skipped_at_checkpoint :
    ∃ w, runCalls OS.reliable
        [.basic (.append 7 (Vec.ofBytes 1 [1, 2, 3, 4])), .basic .checkpoint]
        (created 1 0) = .ok w ∧
      new OS.reliable 1 0 none = .ok (created 1 0) ∧
      w.replay = (numbered [(7, Vec.ofBytes 1 [1, 2, 3, 4])], 1) ∧
      ¬ ∃ w', DropsPrefix [(7, Vec.ofBytes 1 [1, 2, 3, 4])] 1 w w' := by
  obtain ⟨w, hrun⟩ := runCalls_small 0 [
    .basic (.append 7 (Vec.ofBytes 1 [1, 2, 3, 4])), .basic .checkpoint]
    (by decide)
  have htracks := tracks_of_run (new_small 0) hrun
  have hckpt : w.checkpointLsn = 1 := htracks.mark
  exact ⟨w, hrun, new_small 0, htracks.clean.replay,
    htracks.clean.not_dropsPrefix Nat.one_pos hckpt.ge⟩

end WAL
end VecDB
