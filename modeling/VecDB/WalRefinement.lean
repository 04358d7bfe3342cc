import VecDB.Simulation
import VecDB.WalInvariant
import Mathlib.Tactic

/-!
# The log is an append-only list

The abstract log is a list of entries; an append extends it and answers its
length, a checkpoint and a clean reopen leave it alone.  The file-backed log
simulates it: between operations the file holds exactly the list, every byte
behind the last entry is zero, and zero bytes are never a valid entry.
-/

namespace VecDB
namespace WAL

variable {dim : UInt32}

/-- A log that was created here and whose unused space is still zero. -/
structure Clean (entries : List (UInt64 × Vec dim)) (w : WAL dim) : Prop where
  dim_ne_zero : dim ≠ 0
  holds : Holds w entries
  tail : ∀ i, entryPtr dim entries.length ≤ i → w.file.byte i = 0
  header : w.file.read 0 20 = headerBytes dim w.checkpointLsn
  ckpt_le : w.checkpointLsn ≤ w.nextLsn

namespace Clean

variable {w : WAL dim} {entries : List (UInt64 × Vec dim)}

theorem not_slotValid (h : Clean entries w) (mapSize : ℕ) :
    ¬ SlotValid dim w.file mapSize entries.length :=
  not_slotValid_of_zero h.dim_ne_zero h.tail

theorem replay (h : Clean entries w) :
    w.replay = (numbered entries, entries.length) :=
  h.holds.replay (h.not_slotValid _)

theorem created (hdim : dim ≠ 0) (checkpointEvery : ℕ) :
    Clean [] (created dim checkpointEvery) where
  dim_ne_zero := hdim
  holds := created_holds dim checkpointEvery
  tail := fun _ hi => created_byte ((headerSize_le_entryPtr dim 0).trans hi)
  header := read_headerImage (by simp [headerSize, initialSize])
  ckpt_le := le_rfl

theorem checkpointed (h : Clean entries w) : Clean entries (checkpointed w) where
  dim_ne_zero := h.dim_ne_zero
  holds := h.holds.checkpointed
  tail := by
    intro i hi
    have hhead := headerSize_le_entryPtr dim entries.length
    exact (checkpointFile_byte (by omega)).trans (h.tail i hi)
  header := by
    unfold WAL.checkpointed checkpointFile
    rw [ByteFile.read_write_of_disjoint (by simp)]
    exact read_write_checkpoint h.holds.headerSize_le h.header w.nextLsn
  ckpt_le := le_rfl

theorem stored (h : Clean entries w)
    (hlt : (WAL.reserved w).mapSize < 2 ^ 63)
    (hfits : entryPtr dim (w.nextLsn + 1) ≤ (WAL.reserved w).mapSize)
    (vectorId : UInt64) (vec : Vec dim) :
    Clean (entries ++ [(vectorId, vec)]) (stored w vectorId vec) where
  dim_ne_zero := h.dim_ne_zero
  holds := h.holds.stored hlt hfits vectorId vec
  tail := by
    intro i hi
    rw [List.length_append, List.length_singleton] at hi
    have hmono := entryPtr_mono dim (Nat.le_add_right entries.length 1)
    have hbyte : (WAL.stored w vectorId vec).file.byte i =
        (WAL.reserved w).file.byte i := by
      apply ByteFile.write_byte_of_not_mem
      rw [length_entryBytes, ← entryPtr_succ, h.holds.next]
      exact Or.inr hi
    rw [hbyte, reserved_byte h.holds.mapSize_eq]
    exact h.tail i (by omega)
  header := by
    have hhead := headerSize_le_entryPtr dim w.nextLsn
    unfold headerSize at hhead
    have hckpt : (WAL.stored w vectorId vec).checkpointLsn =
        w.checkpointLsn := reserved_checkpointLsn w
    have hread : (WAL.stored w vectorId vec).file.read 0 20 =
        (WAL.reserved w).file.read 0 20 :=
      ByteFile.read_write_of_disjoint (Or.inl (by omega))
    rw [hckpt, hread, ByteFile.read_eq_of_byte (reserved_byte h.holds.mapSize_eq),
      h.header]
  ckpt_le := by
    have hle := h.ckpt_le
    have hstored : (WAL.stored w vectorId vec).checkpointLsn =
        w.checkpointLsn := reserved_checkpointLsn w
    rw [hstored, stored_nextLsn]
    omega

theorem appended (h : Clean entries w)
    (hlt : (WAL.reserved w).mapSize < 2 ^ 63)
    (hfits : entryPtr dim (w.nextLsn + 1) ≤ (WAL.reserved w).mapSize)
    (vectorId : UInt64) (vec : Vec dim) :
    Clean (entries ++ [(vectorId, vec)]) (appended w vectorId vec) := by
  have hstored := h.stored hlt hfits vectorId vec
  unfold WAL.appended
  split_ifs
  · exact hstored.checkpointed
  · exact hstored

theorem bookkeeping (h : Clean entries w)
    (checkpointEvery appendsSinceCkpt : ℕ) :
    Clean entries { w with
      checkpointEvery := checkpointEvery
      appendsSinceCkpt := appendsSinceCkpt } :=
  ⟨h.dim_ne_zero, h.holds.bookkeeping checkpointEvery appendsSinceCkpt,
    h.tail, h.header, h.ckpt_le⟩

theorem new_close (h : Clean entries w) (checkpointEvery : ℕ) :
    new OS.reliable dim checkpointEvery (some w.close) = .ok { w with
      checkpointEvery := checkpointEvery
      appendsSinceCkpt := 0 } := by
  have hlt := h.holds.mapSize_lt
  exact h.holds.new_close checkpointEvery h.dim_ne_zero (h.not_slotValid _)
    (by simpa [OS.reliable] using hlt) (by simpa [OS.reliable] using hlt)

end Clean

/-! ## Operations and their specification -/

inductive Op (dim : UInt32) where
  | append (vectorId : UInt64) (vec : Vec dim)
  | checkpoint
  | reopen (checkpointEvery : ℕ)

/-- One operation on an open log; the output is the LSN of an append. -/
def Op.step (os : OS) : Op dim → WAL dim → Except Failure (WAL dim × Option ℕ)
  | .append vectorId vec, w =>
      match (WAL.append os vectorId vec).run w with
      | .ok lsn w => .ok (w, some lsn)
      | .error e _ => .error e
  | .checkpoint, w =>
      match WAL.checkpoint.run w with
      | .ok _ w => .ok (w, none)
      | .error e _ => .error e
  | .reopen checkpointEvery, w =>
      match new os dim checkpointEvery (some w.close) with
      | .ok w => .ok (w, none)
      | .error e => .error e

/-- The append-only list. -/
def Op.spec : Op dim → List (UInt64 × Vec dim) →
    List (UInt64 × Vec dim) × Option ℕ
  | .append vectorId vec, entries =>
      (entries ++ [(vectorId, vec)], some entries.length)
  | .checkpoint, entries => (entries, none)
  | .reopen _, entries => (entries, none)

/-- A run from a file that does not exist. -/
def runLog (os : OS) (checkpointEvery : ℕ) (ops : List (Op dim)) :
    Except Failure (WAL dim × List (Option ℕ)) :=
  match new os dim checkpointEvery none with
  | .ok w => Simulation.run (Op.step os) ops w
  | .error e => .error e

def specLog (ops : List (Op dim)) :
    List (UInt64 × Vec dim) × List (Option ℕ) :=
  Simulation.runSpec Op.spec ops []

def ftruncateFailed : Failure := .runtimeError "WAL: ftruncate failed"

/-- `ftruncate` refuses only to take the file to `2 ^ 63` bytes. -/
def Refused (dim : UInt32) (op : Op dim)
    (entries : List (UInt64 × Vec dim)) (e : Failure) : Prop :=
  e = ftruncateFailed ∧ (∃ vectorId vec, op = .append vectorId vec) ∧
    2 ^ 63 < entryPtr dim (entries.length + 1) + growSize

section Step

variable {os : OS} {w w' : WAL dim} {out : Option ℕ}

theorem Op.step_append_eq_ok {vectorId : UInt64} {vec : Vec dim} :
    Op.step os (.append vectorId vec) w = .ok (w', out) ↔
      ∃ lsn, (WAL.append os vectorId vec).run w = .ok lsn w' ∧
        out = some lsn := by
  simp only [Op.step]
  cases (WAL.append os vectorId vec).run w with
  | ok lsn w₁ => simp [and_comm, eq_comm]
  | error e w₁ => simp

theorem Op.step_checkpoint_eq_ok :
    Op.step os .checkpoint w = .ok (w', out) ↔
      WAL.checkpoint.run w = .ok () w' ∧ out = none := by
  simp only [Op.step]
  cases WAL.checkpoint.run w with
  | ok _ w₁ => simp [eq_comm]
  | error e w₁ => simp

theorem Op.step_reopen_eq_ok {checkpointEvery : ℕ} :
    Op.step os (.reopen checkpointEvery) w = .ok (w', out) ↔
      new os dim checkpointEvery (some w.close) = .ok w' ∧ out = none := by
  simp only [Op.step]
  cases new os dim checkpointEvery (some w.close) with
  | ok w₁ => simp [eq_comm]
  | error e => simp

end Step

/-- A step that returns keeps the abstraction, whatever the system grants. -/
theorem Clean.step_eq_ok {os : OS} {op : Op dim} {w w' : WAL dim}
    {out : Option ℕ} {entries : List (UInt64 × Vec dim)}
    (h : Clean entries w) (hstep : op.step os w = .ok (w', out)) :
    Clean (op.spec entries).1 w' ∧ out = (op.spec entries).2 := by
  cases op with
  | append vectorId vec =>
      obtain ⟨lsn, happend, rfl⟩ := Op.step_append_eq_ok.mp hstep
      obtain ⟨rfl, rfl, hlt, hfits⟩ := h.holds.append_eq_ok happend
      exact ⟨h.appended hlt hfits vectorId vec, rfl⟩
  | checkpoint =>
      obtain ⟨hcheckpoint, rfl⟩ := Op.step_checkpoint_eq_ok.mp hstep
      rw [h.holds.checkpoint_run] at hcheckpoint
      cases hcheckpoint
      exact ⟨h.checkpointed, rfl⟩
  | reopen checkpointEvery =>
      obtain ⟨hnew, rfl⟩ := Op.step_reopen_eq_ok.mp hstep
      obtain ⟨_, _, ckptLsn, hheader, rfl⟩ := new_some_eq_ok hnew
      rw [show opened w.close = w.file from h.holds.opened_file,
        h.holds.header] at hheader
      cases hheader
      refine ⟨?_, rfl⟩
      rw [show w.close = w.file from rfl,
        h.holds.reopened_close checkpointEvery (h.not_slotValid _)]
      exact h.bookkeeping checkpointEvery 0

theorem Clean.run_eq_ok {os : OS} {ops : List (Op dim)} {w w' : WAL dim}
    {outs : List (Option ℕ)} {entries : List (UInt64 × Vec dim)}
    (h : Clean entries w)
    (hrun : Simulation.run (Op.step os) ops w = .ok (w', outs)) :
    Clean (Simulation.runSpec Op.spec ops entries).1 w' := by
  induction ops generalizing w entries outs with
  | nil =>
      cases hrun
      exact h
  | cons op ops ih =>
      simp only [Simulation.run] at hrun
      cases hstep : op.step os w with
      | error e => simp [hstep] at hrun
      | ok next =>
          obtain ⟨w₁, out⟩ := next
          simp only [hstep] at hrun
          cases hrest : Simulation.run (Op.step os) ops w₁ with
          | error e => simp [hrest] at hrun
          | ok last =>
              rw [hrest] at hrun
              cases hrun
              exact ih (h.step_eq_ok hstep).1 hrest

theorem runLog_eq_ok {os : OS} {checkpointEvery : ℕ} {ops : List (Op dim)}
    {w : WAL dim} {outs : List (Option ℕ)}
    (hrun : runLog os checkpointEvery ops = .ok (w, outs)) :
    Clean (specLog ops).1 w := by
  unfold runLog at hrun
  cases hnew : new os dim checkpointEvery none with
  | error e => simp [hnew] at hrun
  | ok w₀ =>
      simp only [hnew] at hrun
      obtain rfl := new_none_eq_ok hnew
      exact (Clean.created (new_dim_ne_zero hnew) checkpointEvery).run_eq_ok hrun

theorem entryPtr_le_reserved {w : WAL dim}
    (hentry : entrySize dim ≤ growSize)
    (hfits : entryPtr dim w.nextLsn ≤ w.mapSize) :
    entryPtr dim (w.nextLsn + 1) ≤ (reserved w).mapSize := by
  have hsucc := entryPtr_succ dim w.nextLsn
  unfold reserved
  split_ifs with hroom
  · dsimp only
    omega
  · exact Nat.le_of_not_lt hroom

theorem Clean.append_step {entries : List (UInt64 × Vec dim)} {w : WAL dim}
    (h : Clean entries w) (hentry : entrySize dim ≤ growSize)
    (vectorId : UInt64) (vec : Vec dim) :
    (append OS.reliable vectorId vec).run w =
        .ok entries.length (WAL.appended w vectorId vec) ∧
        Clean (entries ++ [(vectorId, vec)]) (WAL.appended w vectorId vec) ∨
      ∃ w', (append OS.reliable vectorId vec).run w =
          .error ftruncateFailed w' ∧
        2 ^ 63 < entryPtr dim (entries.length + 1) + growSize := by
  have hfits := entryPtr_le_reserved hentry (h.holds.next ▸ h.holds.fits)
  cases hreserve : (reserve OS.reliable).run w with
  | ok _ w₁ =>
      obtain ⟨rfl, hlt⟩ := reserve_eq_ok h.holds.mapped h.holds.mapSize_lt
        hreserve
      exact Or.inl ⟨h.holds.append_run hreserve hfits vectorId vec,
        h.appended hlt hfits vectorId vec⟩
  | error e w₁ =>
      obtain ⟨rfl, hrefused, hroom⟩ := reserve_error (fun _ hsize => hsize)
        hreserve
      refine Or.inr ⟨w₁, ?_, ?_⟩
      · unfold append
        exact bind_of_error (bind_of_error hreserve)
      · have hlarge : 2 ^ 63 ≤ w.mapSize + growSize := by
          simpa [OS.reliable] using hrefused
        have hneeded : w.mapSize < entryPtr dim (w.nextLsn + 1) := hroom
        rw [← h.holds.next]
        omega

theorem forward (hentry : entrySize dim ≤ growSize) :
    Simulation.Forward (Op.step OS.reliable) Op.spec Clean
      (Refused dim) := by
  intro op entries w h
  cases op with
  | append vectorId vec =>
      rcases h.append_step hentry vectorId vec with
        ⟨hrun, hclean⟩ | ⟨w', hrun, hlarge⟩
      · refine Or.inl ⟨WAL.appended w vectorId vec, ?_, hclean⟩
        simp only [Op.step, hrun, Op.spec]
      · refine Or.inr ⟨ftruncateFailed, ?_, rfl, ⟨vectorId, vec, rfl⟩, hlarge⟩
        simp only [Op.step, hrun]
  | checkpoint =>
      refine Or.inl ⟨WAL.checkpointed w, ?_, h.checkpointed⟩
      simp only [Op.step, h.holds.checkpoint_run, Op.spec]
  | reopen checkpointEvery =>
      refine Or.inl ⟨_, ?_, h.bookkeeping checkpointEvery 0⟩
      simp only [Op.step, h.new_close, Op.spec]

theorem runLog_concat {os : OS} {checkpointEvery : ℕ} {ops : List (Op dim)}
    {op : Op dim} {w w' : WAL dim} {outs : List (Option ℕ)} {out : Option ℕ}
    (hrun : runLog os checkpointEvery ops = .ok (w, outs))
    (hstep : op.step os w = .ok (w', out)) :
    runLog os checkpointEvery (ops ++ [op]) = .ok (w', outs ++ [out]) := by
  unfold runLog at hrun ⊢
  cases hnew : new os dim checkpointEvery none with
  | error e => simp [hnew] at hrun
  | ok w₀ =>
      simp only [hnew] at hrun ⊢
      exact Simulation.run_concat hrun hstep

theorem length_le_runSpec (ops : List (Op dim))
    (entries : List (UInt64 × Vec dim)) :
    entries.length ≤ (Simulation.runSpec Op.spec ops entries).1.length := by
  induction ops generalizing entries with
  | nil => exact le_rfl
  | cons op ops ih =>
      refine le_trans ?_ (ih (Op.spec op entries).1)
      cases op with
      | append vectorId vec => simp [Op.spec]
      | checkpoint => exact le_rfl
      | reopen checkpointEvery => exact le_rfl

/-- Every run of appends, checkpoints and clean reopens from a new file gives
the LSNs, the replay and the current LSN of the append-only list, unless
`ftruncate` refuses to take the file past `2 ^ 63` bytes. -/
theorem log_refines_list (hdim : dim ≠ 0)
    (hentry : entrySize dim ≤ growSize) (checkpointEvery : ℕ)
    (ops : List (Op dim)) :
    (∃ w, runLog OS.reliable checkpointEvery ops =
          .ok (w, (specLog ops).2) ∧
        w.replay = (numbered (specLog ops).1, (specLog ops).1.length) ∧
        w.nextLsn = (specLog ops).1.length) ∨
      runLog OS.reliable checkpointEvery ops = .error ftruncateFailed ∧
        2 ^ 63 < entryPtr dim (specLog ops).1.length + growSize := by
  have hnew : new OS.reliable dim checkpointEvery none =
      .ok (WAL.created dim checkpointEvery) :=
    new_none hdim (by simp [OS.reliable, initialSize])
      (by simp [OS.reliable, initialSize])
  unfold runLog
  rw [hnew]
  rcases Simulation.run_of_forward (forward hentry) ops
      (Clean.created hdim checkpointEvery) with
    ⟨w, hrun, hclean⟩ | ⟨e, before, op, after, hrun, hops, hrefused⟩
  · exact Or.inl ⟨w, hrun, hclean.replay, hclean.holds.next⟩
  · obtain ⟨rfl, ⟨vectorId, vec, rfl⟩, hlarge⟩ := hrefused
    refine Or.inr ⟨hrun, hlarge.trans_le ?_⟩
    have hlength : (specLog before).1.length + 1 ≤ (specLog ops).1.length := by
      have hle := length_le_runSpec after
        ((specLog before).1 ++ [(vectorId, vec)])
      rw [List.length_append, List.length_singleton] at hle
      rw [hops]
      unfold specLog
      rw [Simulation.runSpec_append_fst]
      exact hle
    exact Nat.add_le_add_right (entryPtr_mono dim hlength) _

theorem log_refines_list_reopened :
    ∃ w, runLog OS.reliable 2
        [.append 7 (Vec.ofBytes 1 [1, 2, 3, 4]), .checkpoint, .reopen 0,
          .append 7 (Vec.ofBytes 1 [5, 6, 7, 8])] =
        .ok (w, [some 0, none, none, some 1]) ∧
      w.replay = ([⟨0, 7, 1, Vec.ofBytes 1 [1, 2, 3, 4]⟩,
        ⟨1, 7, 1, Vec.ofBytes 1 [5, 6, 7, 8]⟩], 2) ∧
      w.nextLsn = 2 := by
  have hruns := log_refines_list (show (1 : UInt32) ≠ 0 by decide)
    (by decide) 2 [.append 7 (Vec.ofBytes 1 [1, 2, 3, 4]), .checkpoint,
      .reopen 0, .append 7 (Vec.ofBytes 1 [5, 6, 7, 8])]
  rcases hruns with hok | ⟨_, hlarge⟩
  · exact hok
  · exact absurd hlarge (by decide)

end WAL
end VecDB
