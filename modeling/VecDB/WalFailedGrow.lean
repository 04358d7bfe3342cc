import VecDB.StateRules
import VecDB.WalCalls
import Mathlib.Tactic

/-!
# Appends that cannot grow the file

`grow` unmaps the file before it asks for a larger one and sets `map_` again
only when it has one.  An append that throws there leaves the log without a
mapping: `append`, `truncate` and the destructor look at `map_`, `replay` and
`checkpoint` do not.  The next append that can grow the file repairs the log.
-/

namespace VecDB
namespace WAL

open StateRules

variable {dim : UInt32}

/-- `replay` reads through `map_` if the first slot passes its bounds check. -/
def checkedReplay (w : WAL dim) : Except Failure (List (WALEntry dim) × ℕ) :=
  if w.mapped = false ∧ entryPtr dim 0 + entrySize dim ≤ w.mapSize then
    .error .accessViolation
  else .ok w.replay

/-- The exceptions of `grow`. -/
def growFailures : List Failure :=
  [.runtimeError "WAL: ftruncate failed",
    .runtimeError "WAL: mmap failed after grow"]

/-! ## What a failed append leaves -/

theorem throws_store (offset : ℕ) (bytes : List UInt8) :
    Throws (· = .accessViolation)
      (store offset bytes : EStateM Failure (WAL dim) Unit) := by
  intro w e w' herr
  unfold store EStateM.run at herr
  dsimp only at herr
  split_ifs at herr
  cases herr
  rfl

theorem throws_storeAll (stores : List Store) :
    Throws (· = .accessViolation)
      (storeAll stores : EStateM Failure (WAL dim) Unit) := by
  induction stores with
  | nil => exact throws_pure ()
  | cons head rest ih =>
      exact (throws_store head.1 head.2).bind fun _ => ih

theorem throws_checkpoint :
    Throws (· = .accessViolation)
      (checkpoint : EStateM Failure (WAL dim) Unit) := by
  unfold checkpoint
  refine Throws.modify_bind (throws_get_bind fun _ => ?_)
  exact (throws_store _ _).bind fun _ =>
    throws_get_bind fun _ => throws_store _ _

/-- The log behind a `grow` that threw. -/
def unmapped (w : WAL dim) (file : ByteFile) : WAL dim :=
  { w with file := file, mapped := false }

/-- An append fails in `reserve`, or at a store. -/
theorem append_error {os : OS} {w w' : WAL dim} {vectorId : UInt64}
    {vec : Vec dim} {e : Failure}
    (hfail : (append os vectorId vec).run w = .error e w') :
    (reserve os).run w = .error e w' ∨ e = .accessViolation := by
  unfold append writeEntry at hfail
  rcases bind_eq_error.mp hfail with hwrite | ⟨lsn, w₁, _, hrest⟩
  · rcases bind_eq_error.mp hwrite with hfirst | ⟨_, w₁, _, hstores⟩
    · exact Or.inl hfirst
    · right
      refine throws_get_bind (Q := (· = .accessViolation)) (fun w => ?_)
        _ _ _ hstores
      exact (throws_storeAll _).bind fun _ =>
        Throws.modify_bind (throws_pure _)
  · right
    have hauto : Throws (· = .accessViolation)
        (autoCheckpoint : EStateM Failure (WAL dim) Unit) := by
      unfold autoCheckpoint
      refine throws_get_bind fun w => ?_
      exact Throws.ite throws_checkpoint (throws_pure _)
    exact hauto.bind (fun _ => throws_pure lsn) _ _ _ hrest

theorem append_of_reserve_error {os : OS} {w w' : WAL dim} {e : Failure}
    (herr : (reserve os).run w = .error e w') (vectorId : UInt64)
    (vec : Vec dim) : (append os vectorId vec).run w = .error e w' := by
  unfold append writeEntry
  exact bind_of_error (bind_of_error herr)

theorem append_eq_error {os : OS} {w w' : WAL dim} {vectorId : UInt64}
    {vec : Vec dim} {e : Failure} (hgrow : e ∈ growFailures)
    (hfail : (append os vectorId vec).run w = .error e w') :
    w.mapSize < entryPtr dim (w.nextLsn + 1) ∧
      (w' = unmapped w w.file ∨
        w' = unmapped w (w.file.resize (w.mapSize + growSize))) := by
  rcases append_error hfail with hreserve | rfl
  · rcases Nat.lt_or_ge w.mapSize (entryPtr dim (w.nextLsn + 1)) with
      hroom | hfits
    · rw [reserve_of_full hroom, grow_run] at hreserve
      refine ⟨hroom, ?_⟩
      split_ifs at hreserve
      · cases hreserve
        exact Or.inl rfl
      · cases hreserve
        exact Or.inr rfl
    · rw [reserve_of_fits hfits] at hreserve
      cases hreserve
  · simp [growFailures] at hgrow

theorem append_of_full {os : OS} {w : WAL dim}
    (hroom : w.mapSize < entryPtr dim (w.nextLsn + 1))
    (hfull : os.ftruncate (w.mapSize + growSize) = false)
    (vectorId : UInt64) (vec : Vec dim) :
    (append os vectorId vec).run w =
      .error (.runtimeError "WAL: ftruncate failed") (unmapped w w.file) := by
  apply append_of_reserve_error
  rw [reserve_of_full hroom, grow_run, if_pos hfull]
  rfl

section Unmapped

variable {w : WAL dim} {file : ByteFile}

theorem unmapped_checkpoint :
    checkpoint.run (unmapped w file) = .error .accessViolation
      { unmapped w file with
        checkpointLsn := w.nextLsn
        appendsSinceCkpt := 0 } := by
  unfold checkpoint
  rw [run_modify_bind, run_get_bind]
  apply bind_of_error
  unfold store EStateM.run
  dsimp only
  rw [if_neg (by simp [unmapped])]
  rfl

theorem unmapped_replay {entries : List (UInt64 × Vec dim)}
    (h : Holds w entries) (hpos : 0 < entries.length) :
    (unmapped w file).checkedReplay = .error .accessViolation := by
  have hfirst := (h.valid 0 hpos).1
  unfold checkedReplay
  exact if_pos ⟨rfl, hfirst⟩

/-- An append that can grow the file finds the log as it was. -/
theorem unmapped_append {os : OS} (hmapped : w.mapped = true)
    (hroom : w.mapSize < entryPtr dim (w.nextLsn + 1))
    (hfile : file = w.file ∨ file = w.file.resize (w.mapSize + growSize))
    (hftruncate : os.ftruncate (w.mapSize + growSize) = true)
    (hmmap : os.mmap (w.mapSize + growSize) = true) (vectorId : UInt64)
    (vec : Vec dim) :
    (append os vectorId vec).run (unmapped w file) =
      (append os vectorId vec).run w := by
  have hresized : file.resize (w.mapSize + growSize) =
      w.file.resize (w.mapSize + growSize) := by
    rcases hfile with rfl | rfl
    · rfl
    · rw [ByteFile.resize_resize_self]
  have hreserve : (reserve os).run (unmapped w file) =
      .ok () (reserved w) := by
    have hfull : (unmapped w file).mapSize <
        entryPtr dim ((unmapped w file).nextLsn + 1) := hroom
    rw [reserve_of_full hfull, reserved_of_full hroom, grow_run]
    unfold unmapped
    dsimp only
    rw [if_neg (by simp [hftruncate]), if_neg (by simp [hmmap]), hresized,
      hmapped]
  have hsame := hreserve.trans (reserve_run hmapped hftruncate hmmap).symm
  unfold append writeEntry
  exact run_bind_congr (run_bind_congr hsame)

end Unmapped

/-! ## Every append that fails in `grow` -/

/-- What an append that was never made leaves: a mapping of `map_size_`
bytes, the entries for `replay`, a checkpoint that succeeds and an append that
stores the next entry. -/
structure Usable (entries : List (UInt64 × Vec dim)) (w : WAL dim) :
    Prop where
  mapped : w.mapped = true
  mapSize_le : w.mapSize ≤ w.file.size
  next : w.nextLsn = entries.length
  replay : w.checkedReplay = .ok (numbered entries, entries.length)
  checkpoint : ∃ w', WAL.checkpoint.run w = .ok () w'
  append : ∀ vectorId vec w' lsn,
    (WAL.append OS.reliable vectorId vec).run w = .ok lsn w' →
      lsn = entries.length ∧
        w'.checkedReplay = .ok (numbered (entries ++ [(vectorId, vec)]),
          entries.length + 1)

/-- The log holds some list of entries. -/
def Intact (w : WAL dim) : Prop := ∃ entries, Holds w entries

theorem Call.step_intact {os : OS} {call : Call dim} {w w' : WAL dim}
    (h : Intact w) (hstep : call.step os w = .ok w') : Intact w' := by
  obtain ⟨entries, hholds⟩ := h
  cases call with
  | basic op =>
      obtain ⟨out, hop⟩ := Call.step_basic_eq_ok.mp hstep
      cases op with
      | append vectorId vec =>
          obtain ⟨lsn, happend, _⟩ := Op.step_append_eq_ok.mp hop
          obtain ⟨_, rfl, hlt, hfits⟩ := hholds.append_eq_ok happend
          exact ⟨_, hholds.appended hlt hfits vectorId vec⟩
      | checkpoint =>
          obtain ⟨hcheckpoint, _⟩ := Op.step_checkpoint_eq_ok.mp hop
          rw [hholds.checkpoint_run] at hcheckpoint
          cases hcheckpoint
          exact ⟨_, hholds.checkpointed⟩
      | reopen period =>
          obtain ⟨hnew, _⟩ := Op.step_reopen_eq_ok.mp hop
          obtain ⟨_, hlt, ckptLsn, hheader, rfl⟩ := new_some_eq_ok hnew
          exact ⟨_, (reopened_holds period hlt hheader).1⟩
  | truncate keepFrom =>
      have htruncate := Call.step_truncate_eq_ok.mp hstep
      rcases Nat.lt_or_ge w.checkpointLsn keepFrom with hlt | hge
      · obtain rfl := hholds.truncate_eq_ok hlt htruncate
        exact ⟨_, hholds.kept⟩
      · rw [truncate_of_le hge] at htruncate
        cases htruncate
        exact ⟨entries, hholds⟩

theorem intact_of_run {os : OS} {checkpointEvery : ℕ}
    {path : Option ByteFile} {calls : List (Call dim)} {w₀ w : WAL dim}
    (hnew : new os dim checkpointEvery path = .ok w₀)
    (hrun : runCalls os calls w₀ = .ok w) : Intact w := by
  have hstart : Intact w₀ := by
    cases path with
    | none =>
        obtain rfl := new_none_eq_ok hnew
        exact ⟨[], created_holds dim checkpointEvery⟩
    | some file =>
        obtain ⟨_, hlt, ckptLsn, hheader, rfl⟩ := new_some_eq_ok hnew
        exact ⟨_, (reopened_holds checkpointEvery hlt hheader).1⟩
  clear hnew
  induction calls generalizing w₀ with
  | nil =>
      cases hrun
      exact hstart
  | cons call calls ih =>
      obtain ⟨w₁, hstep, hrest⟩ := runCalls_cons_eq_ok.mp hrun
      exact ih hrest (Call.step_intact hstart hstep)

/-- Whatever file the log was opened on and whatever was done to it, an
append that throws in `grow` leaves it without a mapping: the next checkpoint
is an invalid access, and so is `replay` if there is an entry. -/
theorem failed_append_unusable {os : OS} {checkpointEvery : ℕ}
    {path : Option ByteFile} {calls : List (Call dim)} {w₀ w w' : WAL dim}
    (hnew : new os dim checkpointEvery path = .ok w₀)
    (hrun : runCalls os calls w₀ = .ok w) {system : OS} {vectorId : UInt64}
    {vec : Vec dim} {e : Failure} (hgrow : e ∈ growFailures)
    (hfail : (append system vectorId vec).run w = .error e w') :
    w'.mapped = false ∧
      (∃ w'', checkpoint.run w' = .error .accessViolation w'') ∧
      (0 < w.nextLsn → w'.checkedReplay = .error .accessViolation) ∧
      ∀ entries, ¬ Usable entries w' := by
  obtain ⟨entries, hholds⟩ := intact_of_run hnew hrun
  obtain ⟨_, hleft⟩ := append_eq_error hgrow hfail
  obtain ⟨file, rfl⟩ : ∃ file, w' = unmapped w file :=
    hleft.elim (fun h => ⟨_, h⟩) (fun h => ⟨_, h⟩)
  refine ⟨rfl, ⟨_, unmapped_checkpoint⟩, ?_, ?_⟩
  · intro hpos
    exact unmapped_replay hholds (hholds.next ▸ hpos)
  · intro other husable
    exact Bool.false_ne_true husable.mapped

/-- A system whose disk is full. -/
def fullDisk : OS where
  ftruncate := fun size => decide (size ≤ initialSize)
  mmap := fun size => decide (size ≤ initialSize)
  ftruncate_lt := by
    intro size hsize
    exact lt_of_le_of_lt (of_decide_eq_true hsize) (by decide)
  mmap_lt := by
    intro size hsize
    exact lt_of_le_of_lt (of_decide_eq_true hsize) (by decide)

/-- A log with one entry and no room for a second one. -/
def almostFull (v : Vec 600000) : WAL 600000 := appended (created 600000 0) 7 v

theorem runCalls_almostFull (v : Vec 600000) :
    runCalls OS.reliable [.basic (.append 7 v)] (created 600000 0) =
      .ok (almostFull v) := by
  have hfits : entryPtr 600000 ((created 600000 0).nextLsn + 1) ≤
      (created 600000 0).mapSize := by
    change entryPtr 600000 1 ≤ initialSize
    decide
  have hreserve : (reserve OS.reliable).run (created 600000 0) =
      .ok () (reserved (created 600000 0)) := by
    rw [reserved_of_fits hfits]
    exact reserve_of_fits hfits
  have happend := (created_holds 600000 0).append_run hreserve
    (by rwa [reserved_of_fits hfits]) 7 v
  simp only [runCalls, Call.step, Op.step, happend]
  rfl

theorem append_almostFull (v : Vec 600000) :
    (append fullDisk 8 v).run (almostFull v) =
      .error (.runtimeError "WAL: ftruncate failed")
        (unmapped (almostFull v) (almostFull v).file) := by
  have hfits : entryPtr 600000 ((created 600000 0).nextLsn + 1) ≤
      (created 600000 0).mapSize := by
    change entryPtr 600000 1 ≤ initialSize
    decide
  have hsize : (almostFull v).mapSize = initialSize := by
    unfold almostFull
    rw [appended_mapSize, reserved_of_fits hfits]
    rfl
  have hnext : (almostFull v).nextLsn = 1 := appended_nextLsn _ _ _
  apply append_of_full
  · rw [hsize, hnext]
    decide
  · rw [hsize]
    decide

def zeros : Vec 600000 := ⟨List.replicate 600000 0, List.length_replicate⟩

/-- The second append throws, and the log that holds one entry has no
mapping. -/
theorem failed_append_unmaps :
    ∃ w w', runCalls OS.reliable [.basic (.append 7 zeros)]
        (created 600000 0) = .ok w ∧
      new OS.reliable 600000 0 none = .ok (created 600000 0) ∧
      (append fullDisk 8 zeros).run w =
        .error (.runtimeError "WAL: ftruncate failed") w' ∧
      ¬ Usable [(7, zeros)] w' := by
  refine ⟨_, _, runCalls_almostFull zeros,
    new_none (by decide) (by decide) (by decide), append_almostFull zeros, ?_⟩
  intro husable
  exact Bool.false_ne_true husable.mapped

theorem failed_append_unusable_almostFull :
    ∃ w', (append fullDisk 8 zeros).run (almostFull zeros) =
        .error (.runtimeError "WAL: ftruncate failed") w' ∧
      w'.mapped = false ∧
      (∃ w'', checkpoint.run w' = .error .accessViolation w'') ∧
      (0 < (almostFull zeros).nextLsn →
        w'.checkedReplay = .error .accessViolation) ∧
      ∀ entries, ¬ Usable entries w' :=
  ⟨_, append_almostFull zeros,
    failed_append_unusable
      (new_none (by decide) (by decide) (by decide))
      (runCalls_almostFull zeros) (by simp [growFailures])
      (append_almostFull zeros)⟩

/-- The log itself is not lost: what is counted and what is on file stay, and
the next append that can grow the file does what it would have done. -/
theorem append_after_failed_append {os : OS} {checkpointEvery : ℕ}
    {path : Option ByteFile} {calls : List (Call dim)} {w₀ w w' : WAL dim}
    (hnew : new os dim checkpointEvery path = .ok w₀)
    (hrun : runCalls os calls w₀ = .ok w) {system later : OS}
    {vectorId : UInt64} {vec : Vec dim} {e : Failure}
    (hgrow : e ∈ growFailures)
    (hfail : (append system vectorId vec).run w = .error e w')
    (hftruncate : later.ftruncate (w.mapSize + growSize) = true)
    (hmmap : later.mmap (w.mapSize + growSize) = true) (nextId : UInt64)
    (nextVec : Vec dim) :
    w'.nextLsn = w.nextLsn ∧
      (append later nextId nextVec).run w' =
        (append later nextId nextVec).run w := by
  obtain ⟨entries, hholds⟩ := intact_of_run hnew hrun
  obtain ⟨hroom, hleft⟩ := append_eq_error hgrow hfail
  rcases hleft with rfl | rfl
  · exact ⟨rfl, unmapped_append hholds.mapped hroom (Or.inl rfl) hftruncate
      hmmap nextId nextVec⟩
  · exact ⟨rfl, unmapped_append hholds.mapped hroom (Or.inr rfl) hftruncate
      hmmap nextId nextVec⟩

end WAL
end VecDB
