import VecDB.WalCalls
import Mathlib.Tactic

/-!
# Stopping inside a truncation to a suffix

The kept entries are moved over the live ones before their LSNs are rewritten,
and the header is written last.  Between the `memmove` and the first rewrite
slot 0 holds an entry with a wrong LSN, so nothing replays; between the first
`ftruncate` and the header the old checkpoint stands over a log that may be
shorter.
-/

namespace VecDB
namespace WAL

open LittleEndian

variable {dim : UInt32}

/-- The effects of `truncate` past its guard, step by step: the `memmove`,
the rewrite of each LSN, the calls of `ftruncate` and `write_header`. -/
def truncateSteps (w : WAL dim) (keep : ℕ) : List (List ByteFile.Effect) :=
  let count := w.nextLsn - keep
  let size := entryPtr dim count
  (if 0 < count then
      [[.store headerSize
        (w.file.read (entryPtr dim keep) (count * entrySize dim))]]
    else []) ++
  (renumberStores dim count).map (fun s => [s.effect]) ++
  [[.resize size]] ++
  (if size < max size initialSize then [[.resize (max size initialSize)]]
    else []) ++
  [writeHeaderEffects dim (cutFile (shiftedFile w keep) size) 0]

/-- The file that a process leaves which stops after `count` steps. -/
def stoppedFile (w : WAL dim) (keep count : ℕ) : ByteFile :=
  w.file.applyAll ((truncateSteps w keep).take count).flatten

theorem applyAll_move {w : WAL dim} {keep : ℕ} :
    w.file.applyAll (if 0 < w.nextLsn - keep then
      [[ByteFile.Effect.store headerSize (w.file.read (entryPtr dim keep)
        ((w.nextLsn - keep) * entrySize dim))]] else []).flatten =
      movedFile w keep := by
  unfold movedFile
  split_ifs with hpos
  · rfl
  · have hzero : w.nextLsn - keep = 0 := by omega
    have hnil : w.file.read (entryPtr dim keep) (0 * entrySize dim) = [] := by
      rw [Nat.zero_mul]
      rfl
    rw [hzero, hnil, ByteFile.write_nil]
    rfl

theorem flatten_map_singleton {α β : Type} (f : α → β) (list : List α) :
    (list.map fun a => [f a]).flatten = list.map f := by
  induction list with
  | nil => rfl
  | cons a list ih => simp [ih]

/-- All the steps together leave the file of the completed call. -/
theorem applyAll_truncateSteps (w : WAL dim) (keep : ℕ) :
    w.file.applyAll (truncateSteps w keep).flatten = (kept w keep).file := by
  have hcut : ∀ file : ByteFile, ∀ size,
      (file.resize size).applyAll
        (if size < max size initialSize then
          [[ByteFile.Effect.resize (max size initialSize)]] else []).flatten =
        cutFile file size := by
    intro file size
    unfold cutFile
    split_ifs with hlt
    · rfl
    · have hmax : max size initialSize = size := by omega
      rw [hmax, ByteFile.resize_resize_self]
      rfl
  unfold truncateSteps
  simp only [List.flatten_append, ByteFile.applyAll_append,
    List.flatten_cons, List.flatten_nil, List.append_nil]
  rw [applyAll_move, flatten_map_singleton]
  have hshifted : (movedFile w keep).applyAll
      ((renumberStores dim (w.nextLsn - keep)).map Store.effect) =
        shiftedFile w keep := rfl
  have hresize : ∀ file : ByteFile, ∀ size,
      file.applyAll [.resize size] = file.resize size := fun _ _ => rfl
  rw [hshifted, hresize, hcut, applyAll_writeHeaderEffects]
  rfl

/-! ## What a stop leaves -/

/-- Every stop leaves a file that opens with the checkpoint inside the log,
and that replays the entries of before or of after the call. -/
def CrashAtomic (entries : List (UInt64 × Vec dim)) (keep : ℕ) (w : WAL dim) :
    Prop :=
  ∀ count checkpointEvery, ∃ w',
    new OS.reliable dim checkpointEvery (some (stoppedFile w keep count)) =
        .ok w' ∧
      (w'.replay.1 = numbered entries ∨
        w'.replay.1 = numbered (entries.drop keep)) ∧
      w'.checkpointLsn ≤ w'.nextLsn

theorem replay_eq_nil_of_new {os : OS} {checkpointEvery : ℕ}
    {file : ByteFile} {w : WAL dim}
    (hnew : new os dim checkpointEvery (some file) = .ok w)
    (hfirst : ∀ mapSize, ¬ SlotValid dim (opened file) mapSize 0) :
    w.replay = ([], 0) ∧ w.nextLsn = 0 := by
  obtain ⟨_, _, ckptLsn, hheader, rfl⟩ := new_some_eq_ok hnew
  have hnone : ∀ i < 0, SlotValid dim (opened file)
      (max file.size initialSize) i := fun i hi => absurd hi (Nat.not_lt_zero i)
  have hcount : scanCount dim file = 0 := scan_eq hnone (hfirst _)
  refine ⟨?_, hcount⟩
  exact replay_eq (w := reopened dim checkpointEvery file ckptLsn) hnone
    (hfirst _)

section Stops

variable {w : WAL dim} {entries : List (UInt64 × Vec dim)}

/-- Behind the `memmove` slot 0 has the LSN of the first kept entry. -/
theorem Holds.storedLsn_movedFile (h : Holds w entries) {keep : ℕ}
    (hlt : keep < entries.length) :
    storedLsn dim (movedFile w keep) 0 = keep := by
  have hpos : entrySize dim ≤ (w.nextLsn - keep) * entrySize dim :=
    Nat.le_mul_of_pos_left _ (by rw [h.next]; omega)
  have hentry := eight_le_entrySize dim
  have hsize := h.entryPtr_le_size
  have hmono := entryPtr_mono dim (Nat.sub_le w.nextLsn keep)
  have hend : entryPtr dim (w.nextLsn - keep) =
      headerSize + (w.nextLsn - keep) * entrySize dim := rfl
  have hfirst : entryPtr dim 0 = headerSize := by
    simp [entryPtr]
  have hread : (movedFile w keep).read (entryPtr dim 0 + lsnOff) 8 =
      w.file.read (entryPtr dim keep + lsnOff) 8 := by
    apply ByteFile.read_shift
    intro i hi
    unfold movedFile lsnOff
    rw [hfirst, Nat.add_zero, Nat.add_zero,
      ByteFile.write_byte_of_mem (by omega)
        (by rw [ByteFile.length_read]; omega) (by omega),
      List.getD_eq_getElem _ _ (by rw [ByteFile.length_read]; omega),
      ByteFile.getElem_read]
    congr 1
    omega
  unfold storedLsn
  rw [hread]
  exact (h.valid keep hlt).2.1

theorem stoppedFile_move {keep : ℕ} (hlt : keep < w.nextLsn) :
    stoppedFile w keep 1 = movedFile w keep := by
  have hpos : 0 < w.nextLsn - keep := by omega
  unfold stoppedFile truncateSteps
  dsimp only
  rw [if_pos hpos]
  rfl

theorem opened_movedFile (h : Holds w entries) (keep : ℕ) :
    opened (movedFile w keep) = movedFile w keep :=
  opened_of_le (h.mapSize_eq ▸ h.initial_le)

/-- A process that stops behind the `memmove` leaves a log without entries. -/
theorem Clean.not_crashAtomic_of_lt (h : Clean entries w) {keep : ℕ}
    (hckpt : w.checkpointLsn < keep) (hlt : keep < entries.length) :
    ¬ CrashAtomic entries keep w := by
  intro hatomic
  obtain ⟨w', hnew, hreplay, _⟩ := hatomic 1 0
  rw [stoppedFile_move (h.holds.next ▸ hlt)] at hnew
  have hfirst : ∀ mapSize,
      ¬ SlotValid dim (opened (movedFile w keep)) mapSize 0 := by
    intro mapSize hvalid
    have hlsn := hvalid.2.1
    rw [opened_movedFile h.holds, h.holds.storedLsn_movedFile hlt] at hlsn
    omega
  rw [(replay_eq_nil_of_new hnew hfirst).1] at hreplay
  rcases hreplay with hall | hkept
  · have hlength := congrArg List.length hall
    rw [length_numbered, List.length_nil] at hlength
    omega
  · have hlength := congrArg List.length hkept
    rw [length_numbered, List.length_nil, List.length_drop] at hlength
    omega

theorem Clean.readHeader_cut (h : Clean entries w) {file : ByteFile}
    (hbyte : ∀ i < headerSize, file.byte i = w.file.byte i) :
    readHeader dim (opened file) = .ok w.checkpointLsn := by
  rw [← h.holds.header]
  apply readHeader_congr
  intro i hi
  rw [opened_byte]
  exact hbyte i hi

theorem truncateSteps_all {w : WAL dim} :
    truncateSteps w w.nextLsn = [[.resize headerSize],
      [.resize initialSize], writeHeaderEffects dim
        (cutFile (shiftedFile w w.nextLsn) headerSize) 0] := by
  have hsize : entryPtr dim 0 = headerSize := by simp [entryPtr]
  have hmax : max headerSize initialSize = initialSize := by decide
  have hgrows : headerSize < initialSize := by decide
  unfold truncateSteps
  dsimp only
  rw [Nat.sub_self, hsize, hmax, if_neg (lt_irrefl 0), if_pos hgrows]
  rfl

/-- The cut files open without entries, with the old checkpoint. -/
theorem Clean.new_cut (h : Clean entries w) {file : ByteFile}
    (hcut : Cut file) (hbyte : ∀ i < headerSize, file.byte i = w.file.byte i)
    (checkpointEvery : ℕ) :
    ∃ w', new OS.reliable dim checkpointEvery (some file) = .ok w' ∧
      w'.replay = ([], 0) ∧ w'.nextLsn = 0 ∧
        w'.checkpointLsn = w.checkpointLsn := by
  have hheader := h.readHeader_cut hbyte
  obtain ⟨w', hnew⟩ := hcut.new_ok h.dim_ne_zero checkpointEvery hheader
  have hfirst : ∀ mapSize, ¬ SlotValid dim (opened file) mapSize 0 := by
    intro mapSize
    apply not_slotValid_of_zero h.dim_ne_zero
    intro i hi
    rw [opened_byte]
    exact hcut.zero i ((headerSize_le_entryPtr dim 0).trans hi)
  obtain ⟨hreplay, hnext⟩ := replay_eq_nil_of_new hnew hfirst
  obtain ⟨_, _, ckptLsn, hopened, rfl⟩ := new_some_eq_ok hnew
  rw [hheader] at hopened
  exact ⟨_, hnew, hreplay, hnext, (Except.ok.inj hopened).symm⟩

theorem Clean.crashAtomic_all_iff (h : Clean entries w) :
    CrashAtomic entries entries.length w ↔ w.checkpointLsn = 0 := by
  have hnext := h.holds.next
  have hheader : ∀ i < headerSize,
      (w.file.resize headerSize).byte i = w.file.byte i :=
    fun _ hi => ByteFile.resize_byte_of_lt hi
  constructor
  · -- the stop behind the first `ftruncate`
    intro hatomic
    obtain ⟨w', hnew, _, hle⟩ := hatomic 1 0
    have hfile : stoppedFile w entries.length 1 =
        w.file.resize headerSize := by
      unfold stoppedFile
      rw [← hnext, truncateSteps_all]
      rfl
    rw [hfile] at hnew
    obtain ⟨w'', hcut, _, hzero, hckpt⟩ :=
      h.new_cut (cut_resize w.file) hheader 0
    rw [hnew] at hcut
    cases hcut
    omega
  · intro hckpt count checkpointEvery
    have hempty : numbered (entries.drop entries.length) = [] := by
      rw [List.drop_length]
      rfl
    rw [hempty]
    unfold stoppedFile
    rw [← hnext, truncateSteps_all]
    match count with
    | 0 =>
        refine ⟨_, h.new_close checkpointEvery, Or.inl ?_, h.ckpt_le⟩
        rw [(h.bookkeeping checkpointEvery 0).replay]
    | 1 =>
        obtain ⟨w', hnew, hreplay, _, hsame⟩ :=
          h.new_cut (cut_resize w.file) hheader checkpointEvery
        exact ⟨w', hnew, Or.inr (by rw [hreplay]), by omega⟩
    | 2 =>
        have hbyte : ∀ i < headerSize,
            ((w.file.resize headerSize).resize initialSize).byte i =
              w.file.byte i := by
          intro i hi
          have hinitial : i < initialSize := hi.trans (by decide)
          rw [ByteFile.resize_byte_of_lt hinitial, hheader i hi]
        obtain ⟨w', hnew, hreplay, _, hsame⟩ :=
          h.new_cut (cut_grown w.file) hbyte checkpointEvery
        exact ⟨w', hnew, Or.inr (by rw [hreplay]), by omega⟩
    | count + 3 =>
        have hall := applyAll_truncateSteps w w.nextLsn
        have hkept : Clean (entries.drop w.nextLsn) (WAL.kept w w.nextLsn) :=
          h.kept
        rw [truncateSteps_all] at hall
        rw [List.take_of_length_le (by simp), hall]
        refine ⟨_, hkept.new_close checkpointEvery, Or.inr ?_, hkept.ckpt_le⟩
        rw [(hkept.bookkeeping checkpointEvery 0).replay, hnext, hempty]

end Stops

/-- In every run, a truncation that is not skipped is atomic under a stop
after any of its steps if and only if it keeps nothing and no checkpoint is
recorded. -/
theorem truncate_crash_iff {os : OS} {checkpointEvery : ℕ}
    {calls : List (Call dim)} {w₀ w : WAL dim}
    (hnew : new os dim checkpointEvery none = .ok w₀)
    (hrun : runCalls os calls w₀ = .ok w) {keep : ℕ}
    (hlt : w.checkpointLsn < keep) (hle : keep ≤ w.nextLsn) :
    ∃ entries, w.replay = (numbered entries, entries.length) ∧
      w.nextLsn = entries.length ∧
      (CrashAtomic entries keep w ↔
        keep = w.nextLsn ∧ w.checkpointLsn = 0) := by
  have hclean := (tracks_of_run hnew hrun).clean
  generalize (SyncedLog.run (2 ^ 32) (calls.map Call.action)
    (SyncedLog.empty checkpointEvery)).entries = entries at hclean
  have hnext := hclean.holds.next
  refine ⟨entries, hclean.replay, hnext, ?_⟩
  rcases Nat.lt_or_ge keep entries.length with hsome | hall
  · constructor
    · intro hatomic
      exact (hclean.not_crashAtomic_of_lt hlt hsome hatomic).elim
    · intro hcond
      omega
  · obtain rfl : keep = entries.length := by omega
    rw [hclean.crashAtomic_all_iff]
    constructor
    · intro hckpt
      exact ⟨hnext.symm, hckpt⟩
    · intro hcond
      exact hcond.2

/-- The steps are those of the call. -/
theorem applyAll_truncateSteps_of_run {os : OS} {w w' : WAL dim}
    {entries : List (UInt64 × Vec dim)} (h : Holds w entries) {keep : ℕ}
    (hlt : w.checkpointLsn < keep) (hle : keep ≤ w.nextLsn)
    (hok : (truncate os keep).run w = .ok () w') :
    w.file.applyAll (truncateSteps w keep).flatten = w'.file := by
  obtain rfl := h.truncate_eq_ok hlt hok
  rw [min_eq_left hle]
  exact applyAll_truncateSteps w keep

theorem truncate_crash_one :
    ∃ w, runCalls OS.reliable
        [.basic (.append 7 (Vec.ofBytes 1 [1, 2, 3, 4]))] (created 1 0) =
          .ok w ∧
      ∃ entries, w.replay = (numbered entries, entries.length) ∧
        w.nextLsn = entries.length ∧
        (CrashAtomic entries 1 w ↔ 1 = w.nextLsn ∧ w.checkpointLsn = 0) := by
  obtain ⟨w, hrun⟩ := runCalls_small 0
    [.basic (.append 7 (Vec.ofBytes 1 [1, 2, 3, 4]))] (by decide)
  have htracks := tracks_of_run (new_small 0) hrun
  have hmark : w.checkpointLsn = 0 := htracks.mark
  have hnext : w.nextLsn = 1 := htracks.clean.holds.next
  exact ⟨w, hrun, truncate_crash_iff (new_small 0) hrun (by omega) (by omega)⟩

/-- Two entries and `truncate (1)`: some stop leaves neither both entries nor
the second one. -/
theorem truncate_stop_loses :
    ∃ w, runCalls OS.reliable
        [.basic (.append 7 (Vec.ofBytes 1 [1, 2, 3, 4])),
          .basic (.append 8 (Vec.ofBytes 1 [5, 6, 7, 8]))] (created 1 0) =
          .ok w ∧
      new OS.reliable 1 0 none = .ok (created 1 0) ∧
      w.checkpointLsn < 1 ∧ 1 ≤ w.nextLsn ∧
      w.replay = (numbered [(7, Vec.ofBytes 1 [1, 2, 3, 4]),
        (8, Vec.ofBytes 1 [5, 6, 7, 8])], 2) ∧
      ¬ CrashAtomic [(7, Vec.ofBytes 1 [1, 2, 3, 4]),
        (8, Vec.ofBytes 1 [5, 6, 7, 8])] 1 w := by
  obtain ⟨w, hrun⟩ := runCalls_small 0
    [.basic (.append 7 (Vec.ofBytes 1 [1, 2, 3, 4])),
      .basic (.append 8 (Vec.ofBytes 1 [5, 6, 7, 8]))] (by decide)
  have htracks := tracks_of_run (new_small 0) hrun
  have hmark : w.checkpointLsn = 0 := htracks.mark
  have hnext : w.nextLsn = 2 := htracks.clean.holds.next
  exact ⟨w, hrun, new_small 0, by omega, by omega, htracks.clean.replay,
    htracks.clean.not_crashAtomic_of_lt (by omega) (by decide)⟩

end WAL
end VecDB
