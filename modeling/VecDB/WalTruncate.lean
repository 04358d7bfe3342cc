import VecDB.WalCrash
import Mathlib.Tactic

/-!
# Truncation of the whole log

`truncate (current_lsn ())`, as it follows a snapshot.  It returns at once when
the last checkpoint is at the end of the log, entries and all; otherwise the
log is a new empty one.  A process that stops inside the truncation leaves a
log without entries, once the file is cut, that opens if its header does.
-/

namespace VecDB
namespace WAL

variable {dim : UInt32}

/-- The log behind a truncation that was not skipped. -/
def truncated (w : WAL dim) : WAL dim where
  checkpointEvery := w.checkpointEvery
  file := headerImage dim ((w.file.resize headerSize).resize initialSize) 0
  mapped := true
  mapSize := initialSize
  nextLsn := 0
  checkpointLsn := 0
  appendsSinceCkpt := 0

theorem truncate_of_le {os : OS} {w : WAL dim} {keepFromLsn : ℕ}
    (hle : keepFromLsn ≤ w.checkpointLsn) :
    (truncate os keepFromLsn).run w = .ok () w := by
  unfold truncate
  rw [run_get_bind, if_pos hle]
  rfl

/-- What is left of `truncate` when no entry is kept. -/
theorem truncate_of_next_le {os : OS} {w : WAL dim} {keepFromLsn : ℕ}
    (hlt : w.checkpointLsn < keepFromLsn) (hall : w.nextLsn ≤ keepFromLsn) :
    (truncate os keepFromLsn).run w =
      if os.ftruncate headerSize = false then
        .error (.runtimeError "WAL: ftruncate failed during truncate")
          { truncated w with
            file := w.file
            mapped := false
            mapSize := w.mapSize }
      else if os.ftruncate initialSize = false then
        .error (.runtimeError "WAL: ftruncate failed during remap")
          { truncated w with
            file := w.file.resize headerSize
            mapped := false
            mapSize := w.mapSize }
      else if os.mmap initialSize = false then
        .error (.runtimeError "WAL: mmap failed after truncate")
          { truncated w with
            file := (w.file.resize headerSize).resize initialSize
            mapped := false
            mapSize := w.mapSize }
      else .ok () (truncated w) := by
  unfold truncate
  rw [run_get_bind, if_neg (by omega)]
  dsimp only
  rw [if_pos hall, Nat.sub_self, Nat.zero_mul, Nat.add_zero,
    if_neg (fun h => absurd h.1 (lt_irrefl 0))]
  have hmax : max headerSize initialSize = initialSize := by decide
  have hgrows : headerSize < initialSize := by decide
  have hstores : (storeAll (renumberStores dim 0)).run w = .ok () w := rfl
  rw [hmax, if_pos hgrows, bind_of_ok hstores, run_modify_bind]
  by_cases hfirst : os.ftruncate headerSize = false
  · rw [if_pos hfirst, if_pos hfirst, run_throw_bind]
    rfl
  rw [if_neg hfirst, if_neg hfirst, run_modify_bind]
  by_cases hsecond : os.ftruncate initialSize = false
  · rw [if_pos hsecond, if_pos hsecond, run_throw_bind]
    rfl
  rw [if_neg hsecond, if_neg hsecond, run_modify_bind]
  by_cases hmmap : os.mmap initialSize = false
  · rw [if_pos hmmap, if_pos hmmap, run_throw_bind]
    rfl
  rw [if_neg hmmap, if_neg hmmap, run_modify_bind,
    writeHeader_run rfl hgrows.le]
  rfl

theorem truncate_eq_ok {os : OS} {w w' : WAL dim}
    (hlt : w.checkpointLsn < w.nextLsn)
    (hok : (truncate os w.nextLsn).run w = .ok () w') : w' = truncated w := by
  rw [truncate_of_next_le hlt le_rfl] at hok
  split_ifs at hok
  cases hok
  rfl

theorem truncated_holds (w : WAL dim) : Holds (truncated w) [] where
  mapped := rfl
  mapSize_eq := rfl
  initial_le := le_rfl
  mapSize_lt := by simp [truncated, initialSize]
  header := readHeader_headerImage (by simp [headerSize, initialSize])
    (by norm_num)
  next := rfl
  fits := by simp [truncated, entryPtr, headerSize, initialSize]
  valid := by simp
  entry := by simp [numbered]

theorem truncated_clean (w : WAL dim) (hdim : dim ≠ 0) :
    Clean [] (truncated w) where
  dim_ne_zero := hdim
  holds := truncated_holds w
  tail := by
    intro i hi
    have hhead := (headerSize_le_entryPtr dim _).trans hi
    unfold truncated
    dsimp only
    rw [headerImage_byte hhead]
    simp only [ByteFile.resize]
    split_ifs
    · omega
    · rfl
    · rfl
  header := read_headerImage (by simp [headerSize, initialSize])
  ckpt_le := le_rfl

/-! ## Stopping inside the truncation -/

/-- What the truncation does to the file. -/
def truncateEffects (w : WAL dim) : List ByteFile.Effect :=
  if w.nextLsn ≤ w.checkpointLsn then []
  else
    [.resize headerSize, .resize initialSize] ++
      writeHeaderEffects dim ((w.file.resize headerSize).resize initialSize) 0

theorem applyAll_truncateEffects {os : OS} {w w' : WAL dim}
    (hok : (truncate os w.nextLsn).run w = .ok () w') :
    w.file.applyAll (truncateEffects w) = w'.file := by
  unfold truncateEffects
  by_cases hle : w.nextLsn ≤ w.checkpointLsn
  · rw [truncate_of_le hle] at hok
    cases hok
    rw [if_pos hle]
    rfl
  · rw [truncate_eq_ok (not_le.mp hle) hok, if_neg hle,
      ByteFile.applyAll_append]
    exact applyAll_writeHeaderEffects _ 0

/-- There is nothing behind the header. -/
structure Cut (file : ByteFile) : Prop where
  headerSize_le : headerSize ≤ file.size
  size_le : file.size ≤ initialSize
  zero : ∀ i, headerSize ≤ i → file.byte i = 0

theorem cut_resize (file : ByteFile) : Cut (file.resize headerSize) := by
  refine ⟨le_rfl, by simp [headerSize, initialSize], ?_⟩
  intro i hi
  exact (file.resize headerSize).zero_beyond i hi

theorem cut_grown (file : ByteFile) :
    Cut ((file.resize headerSize).resize initialSize) := by
  refine ⟨by simp [headerSize, initialSize], le_rfl, ?_⟩
  intro i hi
  rw [ByteFile.resize_byte_of_le (by simp [headerSize, initialSize])]
  exact (cut_resize file).zero i hi

theorem writeHeaderEffects_storesBelow (file : ByteFile)
    (checkpointLsn : ℕ) :
    ∀ effect ∈ writeHeaderEffects dim file checkpointLsn,
      effect.StoresBelow headerSize := by
  unfold writeHeaderEffects headerStores
  simp [Store.effect, ByteFile.Effect.StoresBelow, headerSize]

/-- Once the first effect is done, the entries are gone. -/
theorem cut_of_stop {w : WAL dim} (hlt : w.checkpointLsn < w.nextLsn)
    (count : ℕ) :
    Cut (w.file.applyAll (((truncateEffects w).flatMap
      ByteFile.Effect.pieces).take (count + 1))) := by
  have hgrown := cut_grown w.file
  unfold truncateEffects
  rw [if_neg (not_le.mpr hlt)]
  cases count with
  | zero => exact cut_resize w.file
  | succ count =>
      generalize hheader : writeHeaderEffects dim
        ((w.file.resize headerSize).resize initialSize) 0 = header
      have hbelow : ∀ effect ∈ (header.flatMap
          ByteFile.Effect.pieces).take count,
          effect.StoresBelow headerSize := by
        intro piece hpiece
        obtain ⟨effect, heffect, hmem⟩ :=
          List.mem_flatMap.mp (List.mem_of_mem_take hpiece)
        rw [← hheader] at heffect
        exact (writeHeaderEffects_storesBelow _ 0 effect heffect).pieces
          piece hmem
      have hsplit : (([ByteFile.Effect.resize headerSize,
          .resize initialSize] ++ header).flatMap
            ByteFile.Effect.pieces).take (count + 1 + 1) =
          .resize headerSize :: .resize initialSize ::
            (header.flatMap ByteFile.Effect.pieces).take count := rfl
      obtain ⟨hsize, hbyte⟩ := ByteFile.applyAll_of_storesBelow hbelow
        ((w.file.resize headerSize).resize initialSize)
      rw [hsplit, ByteFile.applyAll_cons, ByteFile.applyAll_cons]
      refine ⟨?_, ?_, ?_⟩
      · exact hsize.symm ▸ hgrown.headerSize_le
      · exact hsize.symm ▸ hgrown.size_le
      · intro i hi
        exact (hbyte i hi).trans (hgrown.zero i hi)

namespace Cut

variable {file : ByteFile}

theorem new_ok (h : Cut file) (hdim : dim ≠ 0) (checkpointEvery : ℕ)
    {ckptLsn : ℕ} (hheader : readHeader dim (opened file) = .ok ckptLsn) :
    ∃ w, new OS.reliable dim checkpointEvery (some file) = .ok w := by
  have hlt : max file.size initialSize < 2 ^ 63 := by
    rw [max_eq_right h.size_le]
    norm_num [initialSize]
  exact ⟨_, new_some hdim h.headerSize_le (by simpa [OS.reliable] using hlt)
    (by simpa [OS.reliable] using hlt) hheader⟩

theorem replay_eq_nil (h : Cut file) {os : OS} {checkpointEvery : ℕ}
    {w : WAL dim} (hnew : new os dim checkpointEvery (some file) = .ok w) :
    w.replay.1 = [] := by
  have hdim := new_dim_ne_zero hnew
  obtain ⟨_, hlt, ckptLsn, hheader, rfl⟩ := new_some_eq_ok hnew
  have hfree : ∀ mapSize, ¬ SlotValid dim (opened file) mapSize 0 := by
    intro mapSize
    apply not_slotValid_of_zero hdim
    intro i hi
    rw [opened_byte]
    exact h.zero i ((headerSize_le_entryPtr dim 0).trans hi)
  obtain ⟨hholds, hstop⟩ := reopened_holds checkpointEvery hlt hheader
  have hcount : scanCount dim file = 0 := by
    by_contra hne
    have hvalid := hholds.valid 0 (by
      rw [length_scanned]
      exact Nat.pos_of_ne_zero hne)
    exact hfree _ hvalid
  have hnone : scanned dim file = [] :=
    List.eq_nil_of_length_eq_zero (by rw [length_scanned, hcount])
  rw [hnone] at hholds
  rw [hholds.replay (hfree _)]
  rfl

end Cut

end WAL
end VecDB
