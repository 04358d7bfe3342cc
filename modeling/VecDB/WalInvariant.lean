import VecDB.WalHeader
import Mathlib.Tactic

/-!
# What every operation does to the log

`WAL.Holds w entries` is the representation invariant of an open log that
holds `entries`.  It says nothing about the bytes behind the last entry, so it
is true of any file the constructor accepts.  Each operation has one lemma
here that says what it does to the entries and which bytes it leaves alone.
-/

namespace VecDB
namespace WAL

open LittleEndian

variable {dim : UInt32}

/-- The entries as `replay` hands them over. -/
def numbered (entries : List (UInt64 × Vec dim)) : List (WALEntry dim) :=
  entries.mapIdx fun lsn entry => ⟨lsn, entry.1, dim.toNat, entry.2⟩

@[simp] theorem length_numbered (entries : List (UInt64 × Vec dim)) :
    (numbered entries).length = entries.length := by
  simp [numbered]

theorem getElem_numbered (entries : List (UInt64 × Vec dim)) {i : ℕ}
    (hi : i < entries.length) (hi' : i < (numbered entries).length) :
    (numbered entries)[i] = ⟨i, entries[i].1, dim.toNat, entries[i].2⟩ := by
  simp [numbered]

theorem numbered_append (entries more : List (UInt64 × Vec dim)) :
    numbered (entries ++ more) = numbered entries ++
      more.mapIdx fun i entry =>
        ⟨i + entries.length, entry.1, dim.toNat, entry.2⟩ := by
  simp [numbered, List.mapIdx_append]

structure Holds (w : WAL dim) (entries : List (UInt64 × Vec dim)) : Prop where
  mapped : w.mapped = true
  mapSize_eq : w.mapSize = w.file.size
  initial_le : initialSize ≤ w.mapSize
  mapSize_lt : w.mapSize < 2 ^ 63
  header : readHeader dim w.file = .ok w.checkpointLsn
  next : w.nextLsn = entries.length
  fits : entryPtr dim entries.length ≤ w.mapSize
  valid : ∀ i < entries.length, SlotValid dim w.file w.mapSize i
  entry : (List.range entries.length).map (entryAt dim w.file) =
    numbered entries

namespace Holds

variable {w : WAL dim} {entries : List (UInt64 × Vec dim)}

theorem headerSize_le (h : Holds w entries) : headerSize ≤ w.file.size := by
  have hinitial := h.initial_le
  rw [h.mapSize_eq] at hinitial
  exact le_trans (by decide) hinitial

theorem length_lt (h : Holds w entries) : entries.length < 2 ^ 63 := by
  have hlt := lt_entryPtr dim entries.length
  have hfits := h.fits
  have hmap := h.mapSize_lt
  omega

theorem replay (h : Holds w entries)
    (hstop : ¬ SlotValid dim w.file w.mapSize entries.length) :
    w.replay = (numbered entries, entries.length) := by
  rw [replay_eq h.valid hstop, h.entry]

theorem entryAt_eq (h : Holds w entries) {i : ℕ} (hi : i < entries.length) :
    entryAt dim w.file i = ⟨i, entries[i].1, dim.toNat, entries[i].2⟩ := by
  have hget := congrArg (fun list => list[i]?) h.entry
  rw [List.getElem?_eq_getElem (by simpa using hi),
    List.getElem?_eq_getElem (by simpa using hi), List.getElem_map,
    List.getElem_range, getElem_numbered entries hi] at hget
  exact Option.some.inj hget

/-- A log holds one list of entries. -/
theorem unique {other : List (UInt64 × Vec dim)} (h : Holds w entries)
    (h' : Holds w other) : entries = other := by
  have hlength : entries.length = other.length := by rw [← h.next, h'.next]
  apply List.ext_getElem hlength
  intro i hi hi'
  have hentry := h.entryAt_eq hi
  rw [h'.entryAt_eq hi', WALEntry.mk.injEq] at hentry
  exact Prod.ext hentry.2.1.symm hentry.2.2.2.symm

/-- The invariant survives any change of the file that keeps the header
accepted and the bytes of every entry. -/
theorem of_frame {w' : WAL dim} (h : Holds w entries)
    (hmapped : w'.mapped = true) (hsize : w'.mapSize = w'.file.size)
    (hmono : w.mapSize ≤ w'.mapSize) (hlt : w'.mapSize < 2 ^ 63)
    (hnext : w'.nextLsn = w.nextLsn)
    (hheader : readHeader dim w'.file = .ok w'.checkpointLsn)
    (hbyte : ∀ i, headerSize ≤ i → i < entryPtr dim entries.length →
      w'.file.byte i = w.file.byte i) :
    Holds w' entries := by
  have hslot : ∀ i < entries.length, ∀ j, entryPtr dim i ≤ j →
      j < entryPtr dim i + entrySize dim →
      w'.file.byte j = w.file.byte j := by
    intro i hi j hlo hhi
    have hhead := headerSize_le_entryPtr dim i
    have hend := entryPtr_add_le dim hi
    exact hbyte j (by omega) (by omega)
  refine ⟨hmapped, hsize, h.initial_le.trans hmono, hlt, hheader,
    hnext.trans h.next, h.fits.trans hmono, ?_, ?_⟩
  · intro i hi
    have hold := h.valid i hi
    refine (slotValid_congr (hslot i hi) ?_).mpr hold
    have hfits := hold.1
    exact ⟨fun _ => hfits, fun _ => by omega⟩
  · rw [← h.entry]
    apply List.map_congr_left
    intro i hi
    exact entryAt_congr (hslot i (List.mem_range.mp hi))

end Holds

/-! ## Opening -/

theorem new_dim_ne_zero {os : OS} {checkpointEvery : ℕ}
    {path : Option ByteFile} {w : WAL dim}
    (hnew : new os dim checkpointEvery path = .ok w) : dim ≠ 0 := by
  intro hdim
  simp [new, hdim] at hnew

/-- The log in a file that did not exist. -/
def created (dim : UInt32) (checkpointEvery : ℕ) : WAL dim where
  checkpointEvery := checkpointEvery
  file := headerImage dim (ByteFile.empty.resize initialSize) 0
  mapped := true
  mapSize := initialSize
  nextLsn := 0
  checkpointLsn := 0
  appendsSinceCkpt := 0

theorem new_none {os : OS} {checkpointEvery : ℕ} (hdim : dim ≠ 0)
    (hftruncate : os.ftruncate initialSize = true)
    (hmmap : os.mmap initialSize = true) :
    new os dim checkpointEvery none = .ok (created dim checkpointEvery) := by
  unfold new openOrCreate
  rw [if_neg hdim]
  dsimp only
  rw [if_neg (by simp [hftruncate]), if_neg (by simp [hmmap]),
    writeHeader_run rfl (by simp [headerSize, initialSize])]
  rfl

theorem new_none_eq_ok {os : OS} {checkpointEvery : ℕ} {w : WAL dim}
    (hnew : new os dim checkpointEvery none = .ok w) :
    w = created dim checkpointEvery := by
  have hdim := new_dim_ne_zero hnew
  have hopen := hnew
  unfold new openOrCreate at hopen
  rw [if_neg hdim] at hopen
  dsimp only at hopen
  split_ifs at hopen with hftruncate hmmap
  rw [new_none hdim (by simpa using hftruncate) (by simpa using hmmap)] at hnew
  exact (Except.ok.inj hnew).symm

theorem created_holds (dim : UInt32) (checkpointEvery : ℕ) :
    Holds (created dim checkpointEvery) [] where
  mapped := rfl
  mapSize_eq := rfl
  initial_le := le_rfl
  mapSize_lt := by simp [created, initialSize]
  header := readHeader_headerImage (by simp [headerSize, initialSize])
    (by norm_num)
  next := rfl
  fits := by simp [created, entryPtr, headerSize, initialSize]
  valid := by simp
  entry := by simp [numbered]

theorem created_byte {checkpointEvery i : ℕ} (hi : headerSize ≤ i) :
    (created dim checkpointEvery).file.byte i = 0 := by
  simp only [created]
  rw [headerImage_byte hi]
  simp [ByteFile.resize, ByteFile.empty]

@[simp] theorem opened_size (file : ByteFile) :
    (opened file).size = max file.size initialSize := by
  unfold opened
  split_ifs with h
  · rfl
  · omega

@[simp] theorem opened_byte (file : ByteFile) :
    (opened file).byte = file.byte := by
  unfold opened
  split_ifs with h
  · exact ByteFile.resize_byte_of_le (by omega)
  · rfl

/-- The number of entries the constructor's scan accepts. -/
def scanCount (dim : UInt32) (file : ByteFile) : ℕ :=
  scanFrom dim (opened file) (max file.size initialSize)
    (scanFuel dim (max file.size initialSize)) 0

/-- The entries the constructor's scan accepts. -/
def scanned (dim : UInt32) (file : ByteFile) : List (UInt64 × Vec dim) :=
  (List.range (scanCount dim file)).map fun i =>
    ((entryAt dim (opened file) i).vectorId, (entryAt dim (opened file) i).vec)

@[simp] theorem length_scanned (dim : UInt32) (file : ByteFile) :
    (scanned dim file).length = scanCount dim file := by
  simp [scanned]

/-- The log the constructor makes of an existing file with this checkpoint. -/
def reopened (dim : UInt32) (checkpointEvery : ℕ) (file : ByteFile)
    (ckptLsn : ℕ) : WAL dim where
  checkpointEvery := checkpointEvery
  file := opened file
  mapped := true
  mapSize := max file.size initialSize
  nextLsn := scanCount dim file
  checkpointLsn := ckptLsn
  appendsSinceCkpt := 0

theorem new_some_eq_ok {os : OS} {checkpointEvery : ℕ} {file : ByteFile}
    {w : WAL dim} (hnew : new os dim checkpointEvery (some file) = .ok w) :
    headerSize ≤ file.size ∧ max file.size initialSize < 2 ^ 63 ∧
      ∃ ckptLsn, readHeader dim (opened file) = .ok ckptLsn ∧
        w = reopened dim checkpointEvery file ckptLsn := by
  have hdim := new_dim_ne_zero hnew
  unfold new openOrCreate at hnew
  rw [if_neg hdim] at hnew
  dsimp only at hnew
  split_ifs at hnew with hsmall hftruncate hmmap
  cases hheader : readHeader dim (opened file) with
  | error e =>
      rw [hheader] at hnew
      cases hnew
  | ok ckptLsn =>
      refine ⟨by omega, os.mmap_lt _ (by simpa using hmmap), ckptLsn, rfl, ?_⟩
      rw [hheader] at hnew
      exact (Except.ok.inj hnew).symm

theorem new_some {os : OS} {checkpointEvery : ℕ} {file : ByteFile}
    {ckptLsn : ℕ} (hdim : dim ≠ 0) (hsize : headerSize ≤ file.size)
    (hftruncate : os.ftruncate (max file.size initialSize) = true)
    (hmmap : os.mmap (max file.size initialSize) = true)
    (hheader : readHeader dim (opened file) = .ok ckptLsn) :
    new os dim checkpointEvery (some file) =
      .ok (reopened dim checkpointEvery file ckptLsn) := by
  unfold new openOrCreate
  rw [if_neg hdim]
  dsimp only
  rw [if_neg (by omega), if_neg (by simp [hftruncate]), if_neg (by simp [hmmap]),
    hheader]
  rfl

theorem new_some_error {os : OS} {checkpointEvery : ℕ} {file : ByteFile}
    {e : Failure} (hdim : dim ≠ 0) (hsize : headerSize ≤ file.size)
    (hftruncate : os.ftruncate (max file.size initialSize) = true)
    (hmmap : os.mmap (max file.size initialSize) = true)
    (hheader : readHeader dim (opened file) = .error e) :
    new os dim checkpointEvery (some file) = .error e := by
  unfold new openOrCreate
  rw [if_neg hdim]
  dsimp only
  rw [if_neg (by omega), if_neg (by simp [hftruncate]), if_neg (by simp [hmmap]),
    hheader]

theorem opened_of_le {file : ByteFile} (hle : initialSize ≤ file.size) :
    opened file = file := by
  unfold opened
  rw [if_neg (by omega)]

/-- Whatever the file holds, the opened log holds what the scan accepts, and
the slot behind it is not valid. -/
theorem reopened_holds (checkpointEvery : ℕ) {ckptLsn : ℕ} {file : ByteFile}
    (hlt : max file.size initialSize < 2 ^ 63)
    (hheader : readHeader dim (opened file) = .ok ckptLsn) :
    Holds (reopened dim checkpointEvery file ckptLsn) (scanned dim file) ∧
      ¬ SlotValid dim (opened file) (max file.size initialSize)
        (scanCount dim file) := by
  obtain ⟨hvalid, hstop⟩ :=
    scan_spec dim (opened file) (max file.size initialSize)
  refine ⟨⟨rfl, (opened_size file).symm, le_max_right _ _, hlt, hheader,
    (length_scanned dim file).symm, ?_, ?_, ?_⟩, hstop⟩
  · rw [length_scanned]
    rcases Nat.eq_zero_or_pos (scanCount dim file) with hzero | hpos
    · rw [hzero]
      have hinitial : headerSize ≤ initialSize := by decide
      simp only [reopened, entryPtr]
      omega
    · have hlast := (hvalid (scanCount dim file - 1)
        (Nat.sub_lt hpos Nat.one_pos)).1
      rwa [← entryPtr_succ, Nat.sub_add_cancel hpos] at hlast
  · rw [length_scanned]
    exact hvalid
  · rw [length_scanned]
    apply List.ext_getElem (by simp)
    intro i hi hi'
    have hcount : i < scanCount dim file := by simpa using hi
    have hscanned : i < (scanned dim file).length := by simpa using hcount
    have hdim : (entryAt dim (opened file) i).dimField = dim.toNat :=
      (hvalid i hcount).2.2.1
    rw [getElem_numbered _ hscanned, List.getElem_map, List.getElem_range,
      ← hdim]
    simp only [scanned, List.getElem_map, List.getElem_range]
    rfl

/-! ## Checkpoints -/

def checkpointFile (file : ByteFile) (next : ℕ) : ByteFile :=
  (file.write 8 (encode 8 next)).write 20
    (encode 4 (headerCrc (file.write 8 (encode 8 next))).toNat)

@[simp] theorem checkpointFile_size (file : ByteFile) (next : ℕ) :
    (checkpointFile file next).size = file.size := rfl

theorem checkpointFile_byte {file : ByteFile} {next i : ℕ}
    (hi : headerSize ≤ i) : (checkpointFile file next).byte i = file.byte i := by
  unfold headerSize at hi
  unfold checkpointFile
  rw [ByteFile.write_byte_of_not_mem (by simp; omega),
    ByteFile.write_byte_of_not_mem (by simp; omega)]

/-- The log after `checkpoint`. -/
def checkpointed (w : WAL dim) : WAL dim := { w with
  file := checkpointFile w.file w.nextLsn
  checkpointLsn := w.nextLsn
  appendsSinceCkpt := 0 }

theorem checkpoint_run {w : WAL dim} (hmapped : w.mapped = true)
    (hsize : headerSize ≤ w.mapSize) :
    checkpoint.run w = .ok () (checkpointed w) := by
  unfold headerSize at hsize
  let w₁ : WAL dim := { w with checkpointLsn := w.nextLsn, appendsSinceCkpt := 0 }
  have hfirst : (store 8 (encode 8 w.nextLsn)).run w₁ =
      .ok () { w₁ with file := w.file.write 8 (encode 8 w.nextLsn) } :=
    store_eq_ok.mpr ⟨hmapped, by simp [w₁]; omega, rfl⟩
  unfold checkpoint
  rw [run_modify_bind, run_get_bind, bind_of_ok hfirst, run_get_bind]
  exact store_eq_ok.mpr ⟨hmapped, by simp [w₁]; omega, rfl⟩

theorem Holds.checkpointed {w : WAL dim} {entries : List (UInt64 × Vec dim)}
    (h : Holds w entries) : Holds (checkpointed w) entries := by
  have hnext : w.nextLsn < 2 ^ 64 := by
    have hlt := h.length_lt
    rw [h.next]
    omega
  apply h.of_frame
  · exact h.mapped
  · exact h.mapSize_eq
  · exact le_rfl
  · exact h.mapSize_lt
  · rfl
  · exact readHeader_checkpoint h.headerSize_le hnext h.header
  · intro i hlo _
    exact checkpointFile_byte hlo

theorem Holds.checkpoint_run {w : WAL dim} {entries : List (UInt64 × Vec dim)}
    (h : Holds w entries) :
    checkpoint.run w = .ok () (WAL.checkpointed w) := by
  apply WAL.checkpoint_run h.mapped
  rw [h.mapSize_eq]
  exact h.headerSize_le

/-! ## Appends -/

/-- The log once there is room for one more entry. -/
def reserved (w : WAL dim) : WAL dim :=
  if w.mapSize < headerSize + (w.nextLsn + 1) * entrySize dim then
    { w with
      file := w.file.resize (w.mapSize + growSize)
      mapSize := w.mapSize + growSize }
  else w

@[simp] theorem reserved_nextLsn (w : WAL dim) :
    (reserved w).nextLsn = w.nextLsn := by
  unfold reserved
  split_ifs <;> rfl

@[simp] theorem reserved_checkpointLsn (w : WAL dim) :
    (reserved w).checkpointLsn = w.checkpointLsn := by
  unfold reserved
  split_ifs <;> rfl

theorem reserved_mapped (w : WAL dim) : (reserved w).mapped = w.mapped := by
  unfold reserved
  split_ifs <;> rfl

theorem mapSize_le_reserved (w : WAL dim) : w.mapSize ≤ (reserved w).mapSize := by
  unfold reserved
  split_ifs
  · exact Nat.le_add_right _ _
  · exact le_rfl

theorem reserved_byte {w : WAL dim} (hsize : w.mapSize = w.file.size) :
    (reserved w).file.byte = w.file.byte := by
  unfold reserved
  split_ifs
  · exact ByteFile.resize_byte_of_le (by omega)
  · rfl

theorem grow_run (os : OS) (newSize : ℕ) (w : WAL dim) :
    (grow os newSize).run w =
      if os.ftruncate newSize = false then
        .error (.runtimeError "WAL: ftruncate failed")
          { w with mapped := false }
      else if os.mmap newSize = false then
        .error (.runtimeError "WAL: mmap failed after grow")
          { w with file := w.file.resize newSize, mapped := false }
      else .ok () { w with
        file := w.file.resize newSize
        mapped := true
        mapSize := newSize } := by
  unfold grow
  cases hftruncate : os.ftruncate newSize with
  | false => rfl
  | true =>
      cases hmmap : os.mmap newSize with
      | false => rfl
      | true => rfl

theorem reserve_of_full {os : OS} {w : WAL dim}
    (hroom : w.mapSize < entryPtr dim (w.nextLsn + 1)) :
    (reserve os).run w = (grow os (w.mapSize + growSize)).run w := by
  have hneeded : w.mapSize < headerSize + (w.nextLsn + 1) * entrySize dim :=
    hroom
  unfold reserve
  rw [run_get_bind]
  dsimp only
  rw [if_pos hneeded]

theorem reserved_of_full {w : WAL dim}
    (hroom : w.mapSize < entryPtr dim (w.nextLsn + 1)) :
    reserved w = { w with
      file := w.file.resize (w.mapSize + growSize)
      mapSize := w.mapSize + growSize } :=
  if_pos hroom

theorem reserved_of_fits {w : WAL dim}
    (hfits : entryPtr dim (w.nextLsn + 1) ≤ w.mapSize) : reserved w = w :=
  if_neg (not_lt.mpr hfits)

theorem reserve_of_fits {os : OS} {w : WAL dim}
    (hfits : entryPtr dim (w.nextLsn + 1) ≤ w.mapSize) :
    (reserve os).run w = .ok () w := by
  have hroom : ¬ w.mapSize < headerSize + (w.nextLsn + 1) * entrySize dim :=
    not_lt.mpr hfits
  unfold reserve
  rw [run_get_bind]
  dsimp only
  rw [if_neg hroom]
  rfl

theorem reserve_run {os : OS} {w : WAL dim} (hmapped : w.mapped = true)
    (hftruncate : os.ftruncate (w.mapSize + growSize) = true)
    (hmmap : os.mmap (w.mapSize + growSize) = true) :
    (reserve os).run w = .ok () (reserved w) := by
  rcases Nat.lt_or_ge w.mapSize (entryPtr dim (w.nextLsn + 1)) with
    hroom | hfits
  · rw [reserve_of_full hroom, reserved_of_full hroom, grow_run,
      if_neg (by simp [hftruncate]), if_neg (by simp [hmmap]), hmapped]
  · rw [reserve_of_fits hfits, reserved_of_fits hfits]

theorem reserve_eq_ok {os : OS} {w w' : WAL dim} (hmapped : w.mapped = true)
    (hlt : w.mapSize < 2 ^ 63) (hok : (reserve os).run w = .ok () w') :
    w' = reserved w ∧ (reserved w).mapSize < 2 ^ 63 := by
  rcases Nat.lt_or_ge w.mapSize (entryPtr dim (w.nextLsn + 1)) with
    hroom | hfits
  · rw [reserve_of_full hroom, grow_run] at hok
    split_ifs at hok with hftruncate hmmap
    cases hok
    rw [reserved_of_full hroom, hmapped]
    exact ⟨rfl, os.mmap_lt _ (by simpa using hmmap)⟩
  · rw [reserve_of_fits hfits] at hok
    cases hok
    rw [reserved_of_fits hfits]
    exact ⟨rfl, hlt⟩

/-- Where every size that `ftruncate` grants can be mapped, `append` fails to
make room only because `ftruncate` refuses. -/
theorem reserve_error {os : OS} {w w' : WAL dim} {e : Failure}
    (hmmap : ∀ size, os.ftruncate size = true → os.mmap size = true)
    (herr : (reserve os).run w = .error e w') :
    e = .runtimeError "WAL: ftruncate failed" ∧
      os.ftruncate (w.mapSize + growSize) = false ∧
        w.mapSize < headerSize + (w.nextLsn + 1) * entrySize dim := by
  rcases Nat.lt_or_ge w.mapSize (entryPtr dim (w.nextLsn + 1)) with
    hroom | hfits
  · rw [reserve_of_full hroom, grow_run] at herr
    split_ifs at herr with hftruncate hrefused
    · cases herr
      exact ⟨rfl, hftruncate, hroom⟩
    · rw [hmmap _ (by simpa using hftruncate)] at hrefused
      cases hrefused
  · rw [reserve_of_fits hfits] at herr
    cases herr

theorem Holds.reserved {w : WAL dim} {entries : List (UInt64 × Vec dim)}
    (h : Holds w entries) (hlt : (reserved w).mapSize < 2 ^ 63) :
    Holds (reserved w) entries := by
  have hbyte := reserved_byte h.mapSize_eq
  apply h.of_frame
  · rw [reserved_mapped]
    exact h.mapped
  · unfold WAL.reserved
    split_ifs
    · rfl
    · exact h.mapSize_eq
  · exact mapSize_le_reserved w
  · exact hlt
  · exact reserved_nextLsn w
  · rw [reserved_checkpointLsn, ← h.header]
    exact readHeader_congr fun i _ => congrFun hbyte i
  · intro i _ _
    exact congrFun hbyte i

/-- The log once the bytes of the entry are stored and counted. -/
def stored (w : WAL dim) (vectorId : UInt64) (vec : Vec dim) : WAL dim :=
  countAppend { reserved w with
    file := (reserved w).file.write (entryPtr dim w.nextLsn)
      (entryBytes w.nextLsn vectorId vec) }

/-- The log after `append`. -/
def appended (w : WAL dim) (vectorId : UInt64) (vec : Vec dim) : WAL dim :=
  if 0 < (stored w vectorId vec).checkpointEvery ∧
      (stored w vectorId vec).checkpointEvery ≤
        (stored w vectorId vec).appendsSinceCkpt then
    checkpointed (stored w vectorId vec)
  else stored w vectorId vec

@[simp] theorem stored_mapSize (w : WAL dim) (vectorId : UInt64)
    (vec : Vec dim) :
    (stored w vectorId vec).mapSize = (reserved w).mapSize := rfl

@[simp] theorem stored_nextLsn (w : WAL dim) (vectorId : UInt64)
    (vec : Vec dim) : (stored w vectorId vec).nextLsn = w.nextLsn + 1 := by
  simp [stored, countAppend]

@[simp] theorem appended_mapSize (w : WAL dim) (vectorId : UInt64)
    (vec : Vec dim) :
    (appended w vectorId vec).mapSize = (reserved w).mapSize := by
  unfold appended
  split_ifs <;> rfl

@[simp] theorem appended_nextLsn (w : WAL dim) (vectorId : UInt64)
    (vec : Vec dim) : (appended w vectorId vec).nextLsn = w.nextLsn + 1 := by
  unfold appended
  split_ifs
  · exact stored_nextLsn w vectorId vec
  · exact stored_nextLsn w vectorId vec

theorem appended_byte {w : WAL dim} (hsize : w.mapSize = w.file.size)
    (vectorId : UInt64) (vec : Vec dim) {i : ℕ} (hi : headerSize ≤ i)
    (hout : i < entryPtr dim w.nextLsn ∨ entryPtr dim (w.nextLsn + 1) ≤ i) :
    (appended w vectorId vec).file.byte i = w.file.byte i := by
  have hstored : (stored w vectorId vec).file.byte i = w.file.byte i := by
    rw [← congrFun (reserved_byte hsize) i]
    apply ByteFile.write_byte_of_not_mem
    rwa [length_entryBytes, ← entryPtr_succ]
  unfold appended
  split_ifs
  · exact (checkpointFile_byte hi).trans hstored
  · exact hstored

theorem entryStores_fit {lsn size : ℕ} {vectorId : UInt64} {vec : Vec dim} :
    (∀ s ∈ entryStores lsn vectorId vec, s.1 + s.2.length ≤ size) ↔
      entryPtr dim (lsn + 1) ≤ size := by
  rw [entryPtr_succ]
  constructor
  · intro hall
    have hlast := hall (entryPtr dim lsn + dataOff, vec.bytes)
      (by simp [entryStores])
    simp only [Vec.length_bytes, dataOff] at hlast
    unfold entrySize fixedHdr
    omega
  · intro hfits s hs
    unfold entrySize fixedHdr at hfits
    simp only [entryStores, List.mem_cons, List.not_mem_nil, or_false] at hs
    rcases hs with rfl | rfl | rfl | rfl | rfl <;>
      simp [lsnOff, vidOff, dimOff, crcOff, dataOff] <;> omega

theorem Holds.extend {w : WAL dim} {entries : List (UInt64 × Vec dim)}
    (h : Holds w entries) (vectorId : UInt64) (vec : Vec dim)
    (hslot : SlotValid dim w.file w.mapSize entries.length)
    (hentry : entryAt dim w.file entries.length =
      ⟨entries.length, vectorId, dim.toNat, vec⟩) :
    Holds { w with nextLsn := entries.length + 1 }
      (entries ++ [(vectorId, vec)]) := by
  refine ⟨h.mapped, h.mapSize_eq, h.initial_le, h.mapSize_lt, h.header,
    by simp, ?_, ?_, ?_⟩
  · rw [List.length_append, List.length_singleton, entryPtr_succ]
    exact hslot.1
  · intro i hi
    rw [List.length_append, List.length_singleton] at hi
    rcases Nat.lt_succ_iff_lt_or_eq.mp hi with hlt | rfl
    · exact h.valid i hlt
    · exact hslot
  · rw [List.length_append, List.length_singleton, List.range_succ,
      List.map_append, List.map_singleton, hentry, numbered_append]
    congr 1
    · exact h.entry
    · simp

theorem Holds.stored {w : WAL dim} {entries : List (UInt64 × Vec dim)}
    (h : Holds w entries) (hlt : (WAL.reserved w).mapSize < 2 ^ 63)
    (hfits : entryPtr dim (w.nextLsn + 1) ≤ (WAL.reserved w).mapSize)
    (vectorId : UInt64) (vec : Vec dim) :
    Holds (stored w vectorId vec) (entries ++ [(vectorId, vec)]) := by
  have hr := h.reserved hlt
  have hnext := h.next
  have hsucc := entryPtr_succ dim w.nextLsn
  have hbyte : ∀ i, i < entryPtr dim w.nextLsn →
      (WAL.stored w vectorId vec).file.byte i =
        (WAL.reserved w).file.byte i := by
    intro i hi
    exact ByteFile.write_byte_of_not_mem (Or.inl hi)
  have hold : Holds { WAL.stored w vectorId vec with nextLsn := w.nextLsn }
      entries := by
    apply hr.of_frame
    · exact hr.mapped
    · exact hr.mapSize_eq
    · exact le_rfl
    · exact hlt
    · exact (reserved_nextLsn w).symm
    · refine Eq.trans ?_ hr.header
      apply readHeader_congr
      intro i hi
      have hhead := headerSize_le_entryPtr dim w.nextLsn
      exact hbyte i (by omega)
    · intro i _ hi
      exact hbyte i (by rwa [hnext])
  have hread := ByteFile.read_write_self (WAL.reserved w).file
    (entryPtr dim w.nextLsn) (entryBytes w.nextLsn vectorId vec)
    (by rw [length_entryBytes, ← hr.mapSize_eq]; omega)
  rw [length_entryBytes] at hread
  have hlen := h.length_lt
  obtain ⟨hslot, hentry⟩ := slot_of_entryBytes hread (hsucc ▸ hfits) (by omega)
  rw [hnext] at hslot hentry
  have hextended := hold.extend vectorId vec
    (by rw [WAL.stored, hnext]; exact hslot)
    (by rw [WAL.stored, hnext]; exact hentry)
  rw [← hnext, ← stored_nextLsn w vectorId vec] at hextended
  exact hextended

theorem Holds.appended {w : WAL dim} {entries : List (UInt64 × Vec dim)}
    (h : Holds w entries) (hlt : (WAL.reserved w).mapSize < 2 ^ 63)
    (hfits : entryPtr dim (w.nextLsn + 1) ≤ (WAL.reserved w).mapSize)
    (vectorId : UInt64) (vec : Vec dim) :
    Holds (appended w vectorId vec) (entries ++ [(vectorId, vec)]) := by
  have hstored := h.stored hlt hfits vectorId vec
  unfold WAL.appended
  split_ifs
  · exact hstored.checkpointed
  · exact hstored

theorem Holds.autoCheckpoint_run {w : WAL dim}
    {entries : List (UInt64 × Vec dim)} (h : Holds w entries) :
    autoCheckpoint.run w = .ok () (if 0 < w.checkpointEvery ∧
      w.checkpointEvery ≤ w.appendsSinceCkpt then WAL.checkpointed w else w) := by
  unfold autoCheckpoint
  rw [run_get_bind]
  split_ifs
  · exact h.checkpoint_run
  · rfl

theorem Holds.writeEntry_run {os : OS} {w : WAL dim}
    {entries : List (UInt64 × Vec dim)} (h : Holds w entries)
    (hreserve : (reserve os).run w = .ok () (WAL.reserved w))
    (hfits : entryPtr dim (w.nextLsn + 1) ≤ (WAL.reserved w).mapSize)
    (vectorId : UInt64) (vec : Vec dim) :
    (writeEntry os vectorId vec).run w =
      .ok entries.length (WAL.stored w vectorId vec) := by
  have hlt := (reserve_eq_ok h.mapped h.mapSize_lt hreserve).2
  have hstores : (storeAll (entryStores w.nextLsn vectorId vec)).run
      (WAL.reserved w) = .ok () { WAL.reserved w with
        file := (WAL.reserved w).file.write (entryPtr dim w.nextLsn)
          (entryBytes w.nextLsn vectorId vec) } := by
    rw [storeAll_of_fits (h.reserved hlt).mapped (entryStores_fit.mpr hfits),
      applyAll_entryStores]
  unfold writeEntry
  rw [bind_of_ok hreserve, run_get_bind]
  dsimp only
  rw [reserved_nextLsn, bind_of_ok hstores, run_modify_bind, run_pure, ← h.next]
  rfl

theorem Holds.writeEntry_eq_ok {os : OS} {w w' : WAL dim} {lsn : ℕ}
    {entries : List (UInt64 × Vec dim)} (h : Holds w entries)
    {vectorId : UInt64} {vec : Vec dim}
    (hok : (writeEntry os vectorId vec).run w = .ok lsn w') :
    lsn = entries.length ∧ w' = WAL.stored w vectorId vec ∧
      (WAL.reserved w).mapSize < 2 ^ 63 ∧
        entryPtr dim (w.nextLsn + 1) ≤ (WAL.reserved w).mapSize := by
  have hsplit := hok
  unfold writeEntry at hsplit
  obtain ⟨_, w₁, hreserve, hrest⟩ := bind_eq_ok.mp hsplit
  obtain ⟨rfl, hlt⟩ := reserve_eq_ok h.mapped h.mapSize_lt hreserve
  rw [run_get_bind] at hrest
  obtain ⟨_, w₂, hstores, _⟩ := bind_eq_ok.mp hrest
  have hfits := entryStores_fit.mp fun s hs =>
    ((storeAll_eq_ok hstores).1 s hs).2
  rw [reserved_nextLsn] at hfits
  rw [h.writeEntry_run hreserve hfits vectorId vec] at hok
  cases hok
  exact ⟨rfl, rfl, hlt, hfits⟩

theorem Holds.append_run {os : OS} {w : WAL dim}
    {entries : List (UInt64 × Vec dim)} (h : Holds w entries)
    (hreserve : (reserve os).run w = .ok () (WAL.reserved w))
    (hfits : entryPtr dim (w.nextLsn + 1) ≤ (WAL.reserved w).mapSize)
    (vectorId : UInt64) (vec : Vec dim) :
    (append os vectorId vec).run w =
      .ok entries.length (WAL.appended w vectorId vec) := by
  have hlt := (reserve_eq_ok h.mapped h.mapSize_lt hreserve).2
  have hrun := (h.stored hlt hfits vectorId vec).autoCheckpoint_run
  unfold append
  rw [bind_of_ok (h.writeEntry_run hreserve hfits vectorId vec)]
  exact bind_of_ok hrun

theorem Holds.append_eq_ok {os : OS} {w w' : WAL dim} {lsn : ℕ}
    {entries : List (UInt64 × Vec dim)} (h : Holds w entries)
    {vectorId : UInt64} {vec : Vec dim}
    (hok : (append os vectorId vec).run w = .ok lsn w') :
    lsn = entries.length ∧ w' = WAL.appended w vectorId vec ∧
      (WAL.reserved w).mapSize < 2 ^ 63 ∧
        entryPtr dim (w.nextLsn + 1) ≤ (WAL.reserved w).mapSize := by
  unfold append at hok
  obtain ⟨_, w₁, hwrite, hrest⟩ := bind_eq_ok.mp hok
  obtain ⟨rfl, rfl, hlt, hfits⟩ := h.writeEntry_eq_ok hwrite
  have hrun := (h.stored hlt hfits vectorId vec).autoCheckpoint_run
  rw [bind_of_ok hrun] at hrest
  cases hrest
  exact ⟨rfl, rfl, hlt, hfits⟩

/-! ## Reopening -/

theorem Holds.max_size {w : WAL dim} {entries : List (UInt64 × Vec dim)}
    (h : Holds w entries) : max w.file.size initialSize = w.mapSize := by
  have hinitial := h.initial_le
  rw [h.mapSize_eq] at hinitial ⊢
  omega

theorem Holds.opened_file {w : WAL dim} {entries : List (UInt64 × Vec dim)}
    (h : Holds w entries) : opened w.file = w.file :=
  opened_of_le (h.mapSize_eq ▸ h.initial_le)

theorem Holds.reopened_close {w : WAL dim} {entries : List (UInt64 × Vec dim)}
    (h : Holds w entries) (checkpointEvery : ℕ)
    (hstop : ¬ SlotValid dim w.file w.mapSize entries.length) :
    reopened dim checkpointEvery w.file w.checkpointLsn =
      { w with checkpointEvery := checkpointEvery, appendsSinceCkpt := 0 } := by
  have hscan : scanCount dim w.file = w.nextLsn := by
    unfold scanCount
    rw [h.opened_file, h.max_size, h.next]
    exact scan_eq h.valid hstop
  unfold reopened
  rw [h.opened_file, h.max_size, hscan, ← h.mapped]

theorem Holds.new_close {os : OS} {w : WAL dim}
    {entries : List (UInt64 × Vec dim)} (h : Holds w entries)
    (checkpointEvery : ℕ) (hdim : dim ≠ 0)
    (hstop : ¬ SlotValid dim w.file w.mapSize entries.length)
    (hftruncate : os.ftruncate w.mapSize = true)
    (hmmap : os.mmap w.mapSize = true) :
    new os dim checkpointEvery (some w.close) =
      .ok { w with checkpointEvery := checkpointEvery, appendsSinceCkpt := 0 } := by
  rw [← h.reopened_close checkpointEvery hstop]
  apply new_some hdim h.headerSize_le
  · exact (congrArg os.ftruncate h.max_size).trans hftruncate
  · exact (congrArg os.mmap h.max_size).trans hmmap
  · exact (congrArg (readHeader dim) h.opened_file).trans h.header

theorem Holds.bookkeeping {w : WAL dim} {entries : List (UInt64 × Vec dim)}
    (h : Holds w entries) (checkpointEvery appendsSinceCkpt : ℕ) :
    Holds { w with
      checkpointEvery := checkpointEvery
      appendsSinceCkpt := appendsSinceCkpt } entries :=
  ⟨h.mapped, h.mapSize_eq, h.initial_le, h.mapSize_lt, h.header, h.next,
    h.fits, h.valid, h.entry⟩

end WAL
end VecDB
