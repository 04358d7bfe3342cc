import VecDB.WalTruncate
import Mathlib.Tactic

/-!
# Truncation to a suffix of the log

`truncate (k)` with the checkpoint below `k` moves the entries from `k` on to
the front of the file, rewrites their LSNs, cuts the file behind them and
extends it again.  The cut is what keeps the old entries from coming back: all
bytes behind the kept ones are zero afterwards.
-/

namespace VecDB
namespace WAL

open LittleEndian

variable {dim : UInt32}

/-! ## The file -/

/-- The kept entries at the front, with the LSNs they had. -/
def movedFile (w : WAL dim) (keep : ℕ) : ByteFile :=
  w.file.write headerSize
    (w.file.read (entryPtr dim keep) ((w.nextLsn - keep) * entrySize dim))

def renumbered (dim : UInt32) (file : ByteFile) (count : ℕ) : ByteFile :=
  file.applyAll ((renumberStores dim count).map Store.effect)

/-- The two calls of `ftruncate`. -/
def cutFile (file : ByteFile) (size : ℕ) : ByteFile :=
  (file.resize size).resize (max size initialSize)

/-- The file before it is cut. -/
def shiftedFile (w : WAL dim) (keep : ℕ) : ByteFile :=
  renumbered dim (movedFile w keep) (w.nextLsn - keep)

/-- The log behind a truncation to the entries from `keep` on. -/
def kept (w : WAL dim) (keep : ℕ) : WAL dim where
  checkpointEvery := w.checkpointEvery
  file := headerImage dim
    (cutFile (shiftedFile w keep) (entryPtr dim (w.nextLsn - keep))) 0
  mapped := true
  mapSize := max (entryPtr dim (w.nextLsn - keep)) initialSize
  nextLsn := w.nextLsn - keep
  checkpointLsn := 0
  appendsSinceCkpt := 0

theorem eight_le_entrySize (dim : UInt32) : 8 ≤ entrySize dim := by
  unfold entrySize fixedHdr
  omega

theorem renumbered_succ (file : ByteFile) (count : ℕ) :
    renumbered dim file (count + 1) =
      (renumbered dim file count).write (entryPtr dim count + lsnOff)
        (encode 8 count) := by
  unfold renumbered renumberStores
  rw [List.range_succ, List.map_append, List.map_append,
    ByteFile.applyAll_append]
  rfl

@[simp] theorem renumbered_size (file : ByteFile) (count : ℕ) :
    (renumbered dim file count).size = file.size := by
  induction count with
  | zero => rfl
  | succ count ih => rw [renumbered_succ, ByteFile.write_size, ih]

theorem renumbered_byte {file : ByteFile} {count j : ℕ}
    (hout : ∀ i < count, j < entryPtr dim i ∨ entryPtr dim i + 8 ≤ j) :
    (renumbered dim file count).byte j = file.byte j := by
  induction count with
  | zero => rfl
  | succ count ih =>
      have hlast := hout count (Nat.lt_succ_self count)
      rw [renumbered_succ, ByteFile.write_byte_of_not_mem]
      · exact ih fun i hi => hout i (hi.trans (Nat.lt_succ_self count))
      · rwa [length_encode]

theorem read_renumbered {file : ByteFile} {count i : ℕ} (hi : i < count)
    (hfits : entryPtr dim count ≤ file.size) :
    (renumbered dim file count).read (entryPtr dim i + lsnOff) 8 =
      encode 8 i := by
  have hentry := eight_le_entrySize dim
  induction count with
  | zero => omega
  | succ count ih =>
      have hsucc := entryPtr_succ dim count
      rw [renumbered_succ]
      unfold lsnOff
      rcases Nat.lt_succ_iff_lt_or_eq.mp hi with hlt | rfl
      · have hend := entryPtr_add_le dim hlt
        rw [ByteFile.read_write_of_disjoint (Or.inl (by omega))]
        exact ih hlt (by omega)
      · have hread := ByteFile.read_write_self (renumbered dim file i)
          (entryPtr dim i) (encode 8 i) (by simp; omega)
        rwa [length_encode] at hread

/-- Behind its LSN a kept entry has the bytes it had. -/
theorem shiftedFile_byte {w : WAL dim} {keep i j : ℕ}
    (hi : keep + i < w.nextLsn) (hfits : entryPtr dim w.nextLsn ≤ w.file.size)
    (hlo : 8 ≤ j) (hhi : j < entrySize dim) :
    (shiftedFile w keep).byte (entryPtr dim i + j) =
      w.file.byte (entryPtr dim (keep + i) + j) := by
  have hslot : (i + 1) * entrySize dim ≤
      (w.nextLsn - keep) * entrySize dim :=
    Nat.mul_le_mul_right _ (by omega)
  have hkept : (w.nextLsn - keep) * entrySize dim ≤
      w.nextLsn * entrySize dim := Nat.mul_le_mul_right _ (Nat.sub_le _ _)
  have hptr : entryPtr dim (keep + i) =
      entryPtr dim keep + i * entrySize dim := by
    unfold entryPtr
    ring
  rw [Nat.succ_mul] at hslot
  have hout : ∀ l < w.nextLsn - keep, entryPtr dim i + j < entryPtr dim l ∨
      entryPtr dim l + 8 ≤ entryPtr dim i + j := by
    intro l _
    rcases Nat.lt_or_ge i l with hlt | hge
    · have hend := entryPtr_add_le dim hlt
      omega
    · have hmono := entryPtr_mono dim hge
      omega
  unfold shiftedFile
  rw [renumbered_byte hout, hptr]
  unfold movedFile entryPtr at *
  rw [ByteFile.write_byte_of_mem (by omega) (by simp; omega) (by omega),
    List.getD_eq_getElem _ _ (by simp; omega), ByteFile.getElem_read]
  congr 1
  omega

@[simp] theorem shiftedFile_size (w : WAL dim) (keep : ℕ) :
    (shiftedFile w keep).size = w.file.size := by
  simp [shiftedFile, movedFile]

theorem cutFile_byte_of_lt {file : ByteFile} {size i : ℕ} (hi : i < size) :
    (cutFile file size).byte i = file.byte i := by
  simp [cutFile, ByteFile.resize, hi]

theorem cutFile_byte_of_ge {file : ByteFile} {size i : ℕ} (hi : size ≤ i) :
    (cutFile file size).byte i = 0 := by
  simp [cutFile, ByteFile.resize, Nat.not_lt.mpr hi]

theorem headerSize_le_cutFile (file : ByteFile) (size : ℕ) :
    headerSize ≤ (cutFile file size).size :=
  le_trans (by decide) (le_max_right size initialSize)

/-! ## The entries -/

theorem slot_shift {file other : ByteFile} {lsn source : ℕ}
    (hbyte : ∀ j, 8 ≤ j → j < entrySize dim →
      file.byte (entryPtr dim lsn + j) = other.byte (entryPtr dim source + j)) :
    storedVectorId dim file lsn = storedVectorId dim other source ∧
      storedDim dim file lsn = storedDim dim other source ∧
      storedCrc dim file lsn = storedCrc dim other source ∧
      storedPayload dim file lsn = storedPayload dim other source := by
  have hread : ∀ offset count, 8 ≤ offset →
      offset + count ≤ entrySize dim →
      file.read (entryPtr dim lsn + offset) count =
        other.read (entryPtr dim source + offset) count := by
    intro offset count hlo hle
    apply ByteFile.read_shift
    intro i hi
    rw [Nat.add_assoc, Nat.add_assoc]
    exact hbyte (offset + i) (by omega) (by omega)
  unfold storedVectorId storedDim storedCrc storedPayload
  rw [hread vidOff 8 (by decide) (by unfold vidOff entrySize fixedHdr; omega),
    hread dimOff 4 (by decide) (by unfold dimOff entrySize fixedHdr; omega),
    hread crcOff 4 (by decide) (by unfold crcOff entrySize fixedHdr; omega),
    hread dataOff (dim.toNat * 4) (by decide)
      (by unfold dataOff entrySize fixedHdr; omega)]
  exact ⟨rfl, rfl, rfl, rfl⟩

section Kept

variable {w : WAL dim} {entries : List (UInt64 × Vec dim)} {keep : ℕ}

theorem Holds.entryPtr_le_size (h : Holds w entries) :
    entryPtr dim w.nextLsn ≤ w.file.size := by
  rw [h.next, ← h.mapSize_eq]
  exact h.fits

theorem kept_byte_of_mem {i j : ℕ} (hi : keep + i < w.nextLsn)
    (hj : j < entrySize dim) :
    (kept w keep).file.byte (entryPtr dim i + j) =
      (shiftedFile w keep).byte (entryPtr dim i + j) := by
  have hhead := headerSize_le_entryPtr dim i
  have hend : entryPtr dim i + entrySize dim ≤
      entryPtr dim (w.nextLsn - keep) := entryPtr_add_le dim (by omega)
  unfold kept
  dsimp only
  rw [headerImage_byte (by omega), cutFile_byte_of_lt (by omega)]

/-- Slot `i` behind the truncation is slot `keep + i` before it. -/
theorem Holds.kept_slot (h : Holds w entries) {i : ℕ}
    (hi : keep + i < entries.length) :
    SlotValid dim (kept w keep).file (kept w keep).mapSize i ∧
      entryAt dim (kept w keep).file i =
        ⟨i, entries[keep + i].1, dim.toNat, entries[keep + i].2⟩ := by
  have hnext : keep + i < w.nextLsn := h.next ▸ hi
  have hentry := eight_le_entrySize dim
  have hend : entryPtr dim i + entrySize dim ≤
      entryPtr dim (w.nextLsn - keep) := entryPtr_add_le dim (by omega)
  have hmono := entryPtr_mono dim (Nat.sub_le w.nextLsn keep)
  have hsize := h.entryPtr_le_size
  have hlsn : storedLsn dim (kept w keep).file i = i := by
    have hread : (kept w keep).file.read (entryPtr dim i + lsnOff) 8 =
        encode 8 i := by
      have hshifted : (shiftedFile w keep).read (entryPtr dim i + lsnOff) 8 =
          encode 8 i := read_renumbered (by omega) (hmono.trans hsize)
      rw [← hshifted]
      exact ByteFile.read_shift fun j hj => kept_byte_of_mem hnext (by omega)
    have hlt := h.length_lt
    unfold storedLsn
    rw [hread, decode_encode_of_lt (by omega)]
  have hbyte : ∀ j, 8 ≤ j → j < entrySize dim →
      (kept w keep).file.byte (entryPtr dim i + j) =
        w.file.byte (entryPtr dim (keep + i) + j) := by
    intro j hlo hhi
    rw [kept_byte_of_mem hnext hhi, shiftedFile_byte hnext hsize hlo hhi]
  obtain ⟨hid, hdim, hcrc, hpayload⟩ := slot_shift hbyte
  have hold := h.valid (keep + i) hi
  have hat := h.entryAt_eq hi
  refine ⟨⟨hend.trans (le_max_left _ _), hlsn, hdim.trans hold.2.2.1, ?_⟩, ?_⟩
  · rw [hcrc, hpayload]
    exact hold.2.2.2
  · unfold entryAt at hat ⊢
    rw [WALEntry.mk.injEq] at hat ⊢
    rw [hid, hdim, hpayload]
    exact ⟨rfl, hat.2⟩

theorem Holds.kept (h : Holds w entries) :
    Holds (kept w keep) (entries.drop keep) where
  mapped := rfl
  mapSize_eq := rfl
  initial_le := le_max_right _ _
  mapSize_lt := by
    have hmono := entryPtr_mono dim (Nat.sub_le w.nextLsn keep)
    have hfits := h.entryPtr_le_size
    have hlt := h.mapSize_lt
    rw [h.mapSize_eq] at hlt
    have hinitial : initialSize < 2 ^ 63 := by decide
    exact max_lt (by omega) hinitial
  header := readHeader_headerImage (headerSize_le_cutFile _ _) (by norm_num)
  next := by
    rw [List.length_drop, ← h.next]
    rfl
  fits := by
    rw [List.length_drop, ← h.next]
    exact le_max_left _ _
  valid := by
    intro i hi
    rw [List.length_drop] at hi
    exact (h.kept_slot (by omega)).1
  entry := by
    apply List.ext_getElem (by simp)
    intro i hi hi'
    have hlt : i < (entries.drop keep).length := by simpa using hi'
    have hbound : keep + i < entries.length := by
      rw [List.length_drop] at hlt
      omega
    rw [List.getElem_map, List.getElem_range, (h.kept_slot hbound).2,
      getElem_numbered _ hlt, List.getElem_drop]

theorem Clean.kept (h : Clean entries w) :
    Clean (entries.drop keep) (kept w keep) where
  dim_ne_zero := h.dim_ne_zero
  holds := h.holds.kept
  tail := by
    intro i hi
    have hhead := headerSize_le_entryPtr dim (entries.drop keep).length
    rw [List.length_drop, ← h.holds.next] at hi hhead
    unfold WAL.kept
    dsimp only
    rw [headerImage_byte (by omega), cutFile_byte_of_ge hi]
  header := read_headerImage (headerSize_le_cutFile _ _)
  ckpt_le := Nat.zero_le _

theorem Clean.kept_min (h : Clean entries w) (keepFrom : ℕ) :
    Clean (entries.drop keepFrom) (WAL.kept w (min keepFrom w.nextLsn)) := by
  have hdrop : entries.drop (min keepFrom w.nextLsn) =
      entries.drop keepFrom := by
    rw [h.holds.next, List.drop_eq_drop_iff]
    omega
  rw [← hdrop]
  exact h.kept

end Kept

/-! ## The call -/

/-- The log between `munmap` and `mmap`. -/
def cutting (w : WAL dim) (keep : ℕ) (file : ByteFile) : WAL dim :=
  { kept w keep with
    file := file
    mapped := false
    mapSize := w.mapSize }

theorem renumberStores_fit {count size : ℕ}
    (hfits : entryPtr dim count ≤ size) :
    ∀ s ∈ renumberStores dim count, s.1 + s.2.length ≤ size := by
  intro s hs
  obtain ⟨i, hi, rfl⟩ := List.mem_map.mp hs
  have hend := entryPtr_add_le dim (List.mem_range.mp hi)
  have hentry := eight_le_entrySize dim
  rw [length_encode]
  unfold lsnOff
  omega

/-- The `memmove`, which is not made when no entry is kept. -/
theorem Holds.move_run {w : WAL dim} {entries : List (UInt64 × Vec dim)}
    (h : Holds w entries) (keep : ℕ) :
    (if 0 < (w.nextLsn - keep) * entrySize dim ∧
        headerSize + keep * entrySize dim < w.mapSize then
      store headerSize (w.file.read (headerSize + keep * entrySize dim)
        ((w.nextLsn - keep) * entrySize dim))
      else pure ()).run w = .ok () { w with file := movedFile w keep } := by
  have hmove : movedFile w keep = w.file.write headerSize
      (w.file.read (headerSize + keep * entrySize dim)
        ((w.nextLsn - keep) * entrySize dim)) := rfl
  have hfits := h.fits
  rw [← h.next] at hfits
  by_cases hlt : keep < w.nextLsn
  · have hpos : 0 < (w.nextLsn - keep) * entrySize dim :=
      Nat.mul_pos (by omega) (entrySize_pos dim)
    have hend := entryPtr_add_le dim hlt
    have hentry := entrySize_pos dim
    have hsource : headerSize + keep * entrySize dim = entryPtr dim keep := rfl
    have hmono := entryPtr_mono dim (Nat.sub_le w.nextLsn keep)
    have hkept : headerSize + (w.nextLsn - keep) * entrySize dim =
      entryPtr dim (w.nextLsn - keep) := rfl
    rw [if_pos ⟨hpos, by omega⟩, hmove]
    refine store_eq_ok.mpr ⟨h.mapped, ?_, rfl⟩
    rw [ByteFile.length_read]
    omega
  · have hzero : (w.nextLsn - keep) * entrySize dim = 0 := by
      rw [Nat.sub_eq_zero_of_le (not_lt.mp hlt), Nat.zero_mul]
    rw [hmove, hzero, if_neg (fun hpos => absurd hpos.1 (lt_irrefl 0))]
    have hnil : w.file.read (headerSize + keep * entrySize dim) 0 = [] := rfl
    rw [hnil, ByteFile.write_nil]
    rfl

/-- The end of `truncate`: the new mapping and its header. -/
def remap (os : OS) (size : ℕ) : EStateM Failure (WAL dim) Unit := do
  if os.mmap size = false then
    throw (.runtimeError "WAL: mmap failed after truncate")
  modify fun w => { w with mapped := true, mapSize := size }
  writeHeader

theorem remap_run (os : OS) (w : WAL dim) (keep : ℕ) (file : ByteFile) :
    let size := max (entryPtr dim (w.nextLsn - keep)) initialSize
    (remap os size).run (cutting w keep file) =
      if os.mmap size = false then
        .error (.runtimeError "WAL: mmap failed after truncate")
          (cutting w keep file)
      else .ok () { kept w keep with file := headerImage dim file 0 } := by
  intro size
  have hheader : headerSize ≤ size :=
    le_trans (by decide) (le_max_right _ _)
  unfold remap
  by_cases hmmap : os.mmap size = false
  · rw [if_pos hmmap, if_pos hmmap, run_throw_bind]
  · rw [if_neg hmmap, if_neg hmmap, run_modify_bind,
      writeHeader_run rfl hheader]
    rfl

/-- What `truncate` does once it is past its guard. -/
theorem Holds.truncate_run (os : OS) {w : WAL dim}
    {entries : List (UInt64 × Vec dim)} (h : Holds w entries) {keepFrom : ℕ}
    (hlt : w.checkpointLsn < keepFrom) :
    let keep := min keepFrom w.nextLsn
    let size := entryPtr dim (w.nextLsn - keep)
    (truncate os keepFrom).run w =
      if os.ftruncate size = false then
        .error (.runtimeError "WAL: ftruncate failed during truncate")
          (cutting w keep (shiftedFile w keep))
      else if size < max size initialSize ∧
          os.ftruncate (max size initialSize) = false then
        .error (.runtimeError "WAL: ftruncate failed during remap")
          (cutting w keep ((shiftedFile w keep).resize size))
      else if os.mmap (max size initialSize) = false then
        .error (.runtimeError "WAL: mmap failed after truncate")
          (cutting w keep (cutFile (shiftedFile w keep) size))
      else .ok () (WAL.kept w keep) := by
  intro keep size
  have hkeep : (if w.nextLsn ≤ keepFrom then w.nextLsn else keepFrom) =
      keep := by
    simp only [keep]
    split_ifs <;> omega
  have hsize : headerSize + (w.nextLsn - keep) * entrySize dim = size := rfl
  have hfits : size ≤ w.mapSize := by
    have hend := h.fits
    rw [← h.next] at hend
    exact (entryPtr_mono dim (Nat.sub_le _ _)).trans hend
  let moved : WAL dim := { w with file := movedFile w keep }
  have hstores : (storeAll (renumberStores dim (w.nextLsn - keep))).run
      moved = .ok () { w with file := shiftedFile w keep } :=
    storeAll_of_fits (w := moved) h.mapped (renumberStores_fit hfits)
  unfold truncate
  rw [run_get_bind, if_neg (by omega)]
  dsimp only
  rw [hkeep, run_when_bind, bind_of_ok (h.move_run keep), bind_of_ok hstores,
    run_modify_bind, hsize]
  by_cases hcut : os.ftruncate size = false
  · rw [if_pos hcut, if_pos hcut, run_throw_bind]
    rfl
  rw [if_neg hcut, if_neg hcut, run_modify_bind]
  by_cases hgrow : size < max size initialSize
  · rw [if_pos hgrow]
    by_cases hextend : os.ftruncate (max size initialSize) = false
    · have hboth : size < max size initialSize ∧
          os.ftruncate (max size initialSize) = false := ⟨hgrow, hextend⟩
      rw [if_pos hextend, if_pos hboth, run_throw_bind]
      rfl
    · have hnone : ¬ (size < max size initialSize ∧
          os.ftruncate (max size initialSize) = false) :=
        fun hboth => hextend hboth.2
      rw [if_neg hextend, if_neg hnone, run_modify_bind]
      exact remap_run os w keep (cutFile (shiftedFile w keep) size)
  · have hnone : ¬ (size < max size initialSize ∧
        os.ftruncate (max size initialSize) = false) :=
      fun hboth => hgrow hboth.1
    have hsame : (shiftedFile w keep).resize size =
        cutFile (shiftedFile w keep) size := by
      have hmax : max size initialSize = size :=
        le_antisymm (not_lt.mp hgrow) (le_max_left _ _)
      unfold cutFile
      rw [hmax, ByteFile.resize_resize_self]
    rw [if_neg hgrow, if_neg hnone, hsame]
    exact remap_run os w keep (cutFile (shiftedFile w keep) size)

theorem Holds.truncate_eq_ok {os : OS} {w w' : WAL dim}
    {entries : List (UInt64 × Vec dim)} (h : Holds w entries) {keepFrom : ℕ}
    (hlt : w.checkpointLsn < keepFrom)
    (hok : (truncate os keepFrom).run w = .ok () w') :
    w' = WAL.kept w (min keepFrom w.nextLsn) := by
  have hrun := h.truncate_run os hlt
  dsimp only at hrun
  rw [hrun] at hok
  split_ifs at hok
  cases hok
  rfl

theorem Holds.truncate_reliable {w : WAL dim}
    {entries : List (UInt64 × Vec dim)} (h : Holds w entries) {keepFrom : ℕ}
    (hlt : w.checkpointLsn < keepFrom) :
    (truncate OS.reliable keepFrom).run w =
      .ok () (WAL.kept w (min keepFrom w.nextLsn)) := by
  have hmax : max (entryPtr dim (w.nextLsn - min keepFrom w.nextLsn))
      initialSize < 2 ^ 63 := h.kept.mapSize_lt
  have hsize := lt_of_le_of_lt (le_max_left _ _) hmax
  have hrun := h.truncate_run OS.reliable hlt
  dsimp only at hrun
  rw [hrun, if_neg, if_neg, if_neg]
  · simpa [OS.reliable] using hmax
  · rintro ⟨_, hrefused⟩
    have hge : ¬ max (entryPtr dim (w.nextLsn - min keepFrom w.nextLsn))
        initialSize < 2 ^ 63 := of_decide_eq_false hrefused
    exact hge hmax
  · simpa [OS.reliable] using hsize

end WAL
end VecDB
