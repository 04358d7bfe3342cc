import VecDB.GraphTermination
import VecDB.WalFailedGrow
import Mathlib.Tactic

/-!
# What a failed append leaves for recovery

A `grow` that throws may already have extended the file.  The bytes it adds
are zero, and a log file never holds the start of an entry that zeros would
complete: every slot that looks like an entry lies inside the file.  A log
that is opened on the longer file therefore replays the same entries.
-/

namespace VecDB
namespace WAL

open LittleEndian StateRules

variable {dim : UInt32}

/-! ## Sealed files -/

/-- The test on slot `lsn`, without its bound. -/
def SlotStored (dim : UInt32) (file : ByteFile) (lsn : ℕ) : Prop :=
  storedLsn dim file lsn = lsn ∧ storedDim dim file lsn = dim.toNat ∧
    storedCrc dim file lsn = (crc32 (storedPayload dim file lsn)).toNat

theorem slotValid_iff {file : ByteFile} {mapSize lsn : ℕ} :
    SlotValid dim file mapSize lsn ↔
      entryPtr dim (lsn + 1) ≤ mapSize ∧ SlotStored dim file lsn := by
  rw [entryPtr_succ]
  rfl

theorem slotStored_congr {file other : ByteFile} {lsn : ℕ}
    (hbyte : ∀ i, entryPtr dim lsn ≤ i →
      i < entryPtr dim lsn + entrySize dim → file.byte i = other.byte i) :
    SlotStored dim file lsn ↔ SlotStored dim other lsn := by
  obtain ⟨hlsn, _, hdim, hcrc, hpayload⟩ := slot_congr hbyte
  unfold SlotStored
  rw [hlsn, hdim, hcrc, hpayload]

/-- Every slot that looks like an entry lies inside the file. -/
def Sealed (dim : UInt32) (file : ByteFile) : Prop :=
  ∀ lsn, SlotStored dim file lsn → entryPtr dim (lsn + 1) ≤ file.size

namespace Sealed

variable {file other : ByteFile}

/-- A change of the file that writes whole slots, or none. -/
theorem of_slots (h : Sealed dim file) (hsize : file.size ≤ other.size)
    (hslot : ∀ lsn, entryPtr dim (lsn + 1) ≤ other.size ∨
      ∀ i, entryPtr dim lsn ≤ i → i < entryPtr dim lsn + entrySize dim →
        other.byte i = file.byte i) : Sealed dim other := by
  intro lsn hstored
  rcases hslot lsn with hfits | hbyte
  · exact hfits
  · exact (h lsn ((slotStored_congr hbyte).mp hstored)).trans hsize

theorem of_body (h : Sealed dim file) (hsize : file.size ≤ other.size)
    (hbyte : ∀ i, headerSize ≤ i → other.byte i = file.byte i) :
    Sealed dim other := by
  refine h.of_slots hsize fun lsn => Or.inr fun i hlo _ => hbyte i ?_
  exact (headerSize_le_entryPtr dim lsn).trans hlo

theorem of_zero (hdim : dim ≠ 0)
    (hzero : ∀ i, headerSize ≤ i → file.byte i = 0) : Sealed dim file := by
  intro lsn hstored
  have hread : file.read (entryPtr dim lsn + dimOff) 4 =
      List.replicate 4 0 := by
    refine ByteFile.read_eq_replicate_zero fun i hlo _ => hzero i ?_
    have hhead := headerSize_le_entryPtr dim lsn
    omega
  have hfield := hstored.2.1
  unfold storedDim at hfield
  rw [hread] at hfield
  refine absurd (UInt32.toNat_inj.mp ?_) hdim
  rw [← hfield]
  decide

theorem resize (h : Sealed dim file) {size : ℕ} (hle : file.size ≤ size) :
    Sealed dim (file.resize size) := by
  refine h.of_body hle fun i _ => ?_
  rw [ByteFile.resize_byte_of_le hle]

theorem cut (hdim : dim ≠ 0) : Sealed dim (file.resize headerSize) := by
  refine of_zero hdim fun i hi => ?_
  exact (file.resize headerSize).zero_beyond i hi

theorem write (h : Sealed dim file) {lsn : ℕ} {bytes : List UInt8}
    (hlength : bytes.length = entrySize dim)
    (hfits : entryPtr dim (lsn + 1) ≤ file.size) :
    Sealed dim (file.write (entryPtr dim lsn) bytes) := by
  refine h.of_slots le_rfl fun other => ?_
  rcases lt_trichotomy other lsn with hlt | rfl | hgt
  · have hend := entryPtr_add_le dim hlt
    exact Or.inr fun i _ hhi =>
      ByteFile.write_byte_of_not_mem (Or.inl (by omega))
  · exact Or.inl hfits
  · have hstart := entryPtr_add_le dim hgt
    exact Or.inr fun i hlo _ =>
      ByteFile.write_byte_of_not_mem (Or.inr (by omega))

/-- The longer file opens to the same entries. -/
theorem new_replay (h : Sealed dim file) (hsize : file.size ≤ other.size)
    (hbyte : other.byte = file.byte) {os : OS} {period : ℕ} {w w' : WAL dim}
    (hnew : new os dim period (some file) = .ok w)
    (hnew' : new os dim period (some other) = .ok w') :
    w'.replay = w.replay := by
  obtain ⟨_, _, ckptLsn, _, rfl⟩ := new_some_eq_ok hnew
  obtain ⟨_, _, ckptLsn', _, rfl⟩ := new_some_eq_ok hnew'
  have hsame : ∀ lsn i, entryPtr dim lsn ≤ i →
      i < entryPtr dim lsn + entrySize dim →
      (opened other).byte i = (opened file).byte i := by
    intro lsn i _ _
    rw [opened_byte, opened_byte, hbyte]
  have hvalid : ∀ lsn,
      SlotValid dim (opened other) (max other.size initialSize) lsn ↔
        SlotValid dim (opened file) (max file.size initialSize) lsn := by
    intro lsn
    rw [slotValid_iff, slotValid_iff, slotStored_congr (hsame lsn)]
    constructor
    · rintro ⟨_, hstored⟩
      have hfile : SlotStored dim file lsn :=
        (slotStored_congr fun i _ _ => by rw [opened_byte]).mp hstored
      exact ⟨(h lsn hfile).trans (le_max_left _ _), hstored⟩
    · rintro ⟨hfits, hstored⟩
      exact ⟨hfits.trans (max_le_max_right _ hsize), hstored⟩
  obtain ⟨count, hall, hstop⟩ :=
    exists_firstInvalid dim (opened file) (max file.size initialSize)
  have hreplay := replay_eq (w := reopened dim period file ckptLsn) hall hstop
  have hreplay' := replay_eq (w := reopened dim period other ckptLsn')
    (fun i hi => (hvalid i).mpr (hall i hi)) (fun hv => hstop ((hvalid _).mp hv))
  rw [hreplay, hreplay', Prod.mk.injEq]
  refine ⟨List.map_congr_left fun i _ => ?_, rfl⟩
  exact entryAt_congr (hsame i)

end Sealed

/-! ## Logs of a running store -/

/-- What every call that returned or threw leaves of a log. -/
structure Tidy (w : WAL dim) : Prop where
  dim_ne_zero : dim ≠ 0
  sealed : Sealed dim w.file
  mapSize_eq : w.mapped = true → w.mapSize = w.file.size
  size_le : w.file.size ≤ w.mapSize + growSize

theorem new_tidy {os : OS} {period : ℕ} {path : Option ByteFile} {w : WAL dim}
    (hnew : new os dim period path = .ok w)
    (hpath : ∀ file, path = some file → Sealed dim file) : Tidy w := by
  have hdim := new_dim_ne_zero hnew
  cases path with
  | none =>
      obtain rfl := new_none_eq_ok hnew
      exact ⟨hdim, Sealed.of_zero hdim fun i => created_byte,
        fun _ => (created_holds dim period).mapSize_eq,
        (created_holds dim period).mapSize_eq.ge.trans (Nat.le_add_right _ _)⟩
  | some file =>
      obtain ⟨_, _, ckptLsn, _, rfl⟩ := new_some_eq_ok hnew
      refine ⟨hdim, ?_, fun _ => (opened_size file).symm, ?_⟩
      · refine (hpath file rfl).of_body ?_ fun i _ => ?_
        · exact (le_max_left _ _).trans (opened_size file).ge
        · exact congrFun (opened_byte file) i
      · exact (opened_size file).le.trans (Nat.le_add_right _ _)

namespace Tidy

variable {w w' : WAL dim} {os : OS}

theorem of_file (h : Tidy w) (hsealed : Sealed dim w'.file)
    (hsize : w'.file.size = w.file.size) (hmapSize : w'.mapSize = w.mapSize)
    (hmapped : w'.mapped = w.mapped) : Tidy w' where
  dim_ne_zero := h.dim_ne_zero
  sealed := hsealed
  mapSize_eq := by
    rw [hmapped, hmapSize, hsize]
    exact h.mapSize_eq
  size_le := by
    rw [hsize, hmapSize]
    exact h.size_le

/-- The log behind a `grow` that returned. -/
theorem grown (h : Tidy w)
    (hfile : w'.file = w.file.resize (w.mapSize + growSize))
    (hmapSize : w'.mapSize = w.mapSize + growSize) : Tidy w' := by
  have hsize : w'.file.size = w'.mapSize := by
    rw [hfile, hmapSize, ByteFile.resize_size]
  refine ⟨h.dim_ne_zero, ?_, fun _ => hsize.symm, ?_⟩
  · rw [hfile]
    exact h.sealed.resize h.size_le
  · rw [hsize]
    exact Nat.le_add_right _ _

theorem unmapped (h : Tidy w) {file : ByteFile}
    (hfile : file = w.file ∨ file = w.file.resize (w.mapSize + growSize)) :
    Tidy (unmapped w file) where
  dim_ne_zero := h.dim_ne_zero
  sealed := by
    rcases hfile with rfl | rfl
    · exact h.sealed
    · exact h.sealed.resize h.size_le
  mapSize_eq := fun hmapped => (Bool.false_ne_true hmapped).elim
  size_le := by
    rcases hfile with rfl | rfl
    · exact h.size_le
    · exact (ByteFile.resize_size _ _).le

theorem checkpointed (h : Tidy w) : Tidy (checkpointed w) := by
  refine h.of_file ?_ rfl rfl rfl
  exact h.sealed.of_body le_rfl fun i hi => checkpointFile_byte hi

theorem autoCheckpoint_eq_ok (h : Tidy w) (hmapped : w.mapped = true)
    (hsize : headerSize ≤ w.mapSize) {u : Unit}
    (hok : autoCheckpoint.run w = .ok u w') : Tidy w' := by
  unfold autoCheckpoint at hok
  rw [run_get_bind] at hok
  split_ifs at hok
  · rw [checkpoint_run hmapped hsize] at hok
    cases hok
    exact h.checkpointed
  · cases hok
    exact h

theorem reserve_eq_ok (h : Tidy w)
    (hok : (reserve os).run w = .ok () w') :
    Tidy w' ∧ w'.nextLsn = w.nextLsn := by
  rcases Nat.lt_or_ge w.mapSize (entryPtr dim (w.nextLsn + 1)) with
    hroom | hfits
  · rw [reserve_of_full hroom, grow_run] at hok
    split_ifs at hok
    cases hok
    exact ⟨h.grown rfl rfl, rfl⟩
  · rw [reserve_of_fits hfits] at hok
    cases hok
    exact ⟨h, rfl⟩

/-- What an append that returns has done before the checkpoint. -/
theorem append_wrote (h : Tidy w) {vectorId : UInt64} {vec : Vec dim}
    {lsn : ℕ} (hok : (append os vectorId vec).run w = .ok lsn w') :
    ∃ w₁ : WAL dim, Tidy w₁ ∧ w₁.mapped = true ∧ headerSize ≤ w₁.mapSize ∧
      entryPtr dim (lsn + 1) ≤ w₁.file.size ∧
      autoCheckpoint.run (countAppend { w₁ with
        file := w₁.file.write (entryPtr dim lsn)
          (entryBytes lsn vectorId vec) }) = .ok () w' := by
  unfold append writeEntry at hok
  obtain ⟨_, w₃, hwrite, hok⟩ := bind_eq_ok.mp hok
  obtain ⟨_, w₁, hreserve, hwrite⟩ := bind_eq_ok.mp hwrite
  obtain ⟨h₁, hnext⟩ := h.reserve_eq_ok hreserve
  rw [run_get_bind] at hwrite
  obtain ⟨_, w₂, hstores, hwrite⟩ := bind_eq_ok.mp hwrite
  obtain ⟨hfit, rfl⟩ := storeAll_eq_ok hstores
  have hmapped : w₁.mapped = true := (hfit _ List.mem_cons_self).1
  have hfits : entryPtr dim (w₁.nextLsn + 1) ≤ w₁.file.size := by
    rw [← h₁.mapSize_eq hmapped]
    exact entryStores_fit.mp fun s hs => (hfit s hs).2
  rw [run_modify_bind, applyAll_entryStores] at hwrite
  cases hwrite
  obtain ⟨_, w₂, hauto, hok⟩ := bind_eq_ok.mp hok
  cases hok
  have hhead := headerSize_le_entryPtr dim (w₁.nextLsn + 1)
  exact ⟨w₁, h₁, hmapped,
    hhead.trans (hfits.trans (h₁.mapSize_eq hmapped).ge), hfits, hauto⟩

theorem append_eq_ok (h : Tidy w) {vectorId : UInt64} {vec : Vec dim} {lsn : ℕ}
    (hok : (append os vectorId vec).run w = .ok lsn w') : Tidy w' := by
  obtain ⟨w₁, h₁, hmapped, hsize, hfits, hauto⟩ := h.append_wrote hok
  have hwritten : Tidy (countAppend ({ w₁ with
      file := w₁.file.write (entryPtr dim lsn)
        (entryBytes lsn vectorId vec) } : WAL dim)) := by
    refine h₁.of_file ?_ rfl rfl rfl
    exact h₁.sealed.write (length_entryBytes _ _ _) hfits
  exact hwritten.autoCheckpoint_eq_ok hmapped hsize hauto

theorem autoCheckpoint_byte (hmapped : w.mapped = true)
    (hsize : headerSize ≤ w.mapSize) {u : Unit}
    (hok : autoCheckpoint.run w = .ok u w') {i : ℕ} (hi : headerSize ≤ i) :
    w'.file.byte i = w.file.byte i := by
  unfold autoCheckpoint at hok
  rw [run_get_bind] at hok
  split_ifs at hok
  · rw [checkpoint_run hmapped hsize] at hok
    cases hok
    exact checkpointFile_byte hi
  · cases hok
    rfl

/-- The entry that an append has written, whatever the log held. -/
theorem append_entryAt (h : Tidy w) {vectorId : UInt64} {vec : Vec dim}
    {lsn : ℕ} (hok : (append os vectorId vec).run w = .ok lsn w') :
    entryAt dim w'.file lsn = ⟨lsn, vectorId, dim.toNat, vec⟩ := by
  obtain ⟨w₁, _, hmapped, hsize, hfits, hauto⟩ := h.append_wrote hok
  have hbyte : ∀ i, entryPtr dim lsn ≤ i →
      i < entryPtr dim lsn + entrySize dim → w'.file.byte i =
        (w₁.file.write (entryPtr dim lsn)
          (entryBytes lsn vectorId vec)).byte i := by
    intro i hlo _
    refine autoCheckpoint_byte ?_ ?_ hauto ?_
    · exact hmapped
    · exact hsize
    · exact (headerSize_le_entryPtr dim _).trans hlo
  rw [entryAt_congr hbyte]
  apply entryAt_of_entryBytes
  rw [entryPtr_succ, ← length_entryBytes lsn vectorId vec] at hfits
  rw [← length_entryBytes lsn vectorId vec]
  exact ByteFile.read_write_self _ _ _ hfits

end Tidy

/-! ## Appends that throw -/

/-- The log has room for one more entry, or the system grants it. -/
def HasRoom (os : OS) (w : WAL dim) : Prop :=
  w.mapSize < entryPtr dim (w.nextLsn + 1) →
    os.ftruncate (w.mapSize + growSize) = true ∧
      os.mmap (w.mapSize + growSize) = true

/-- What `append` does once there is room throws nothing. -/
theorem append_of_room {os : OS} {w w' : WAL dim} (hroom : HasRoom os w)
    {vectorId : UInt64} {vec : Vec dim} {e : Failure}
    (hfail : (append os vectorId vec).run w = .error e w') :
    e = .accessViolation := by
  rcases append_error hfail with hreserve | he
  · rcases Nat.lt_or_ge w.mapSize (entryPtr dim (w.nextLsn + 1)) with
      hneeded | hfits
    · obtain ⟨hftruncate, hmmap⟩ := hroom hneeded
      rw [reserve_of_full hneeded, grow_run, if_neg (by simp [hftruncate]),
        if_neg (by simp [hmmap])] at hreserve
      cases hreserve
    · rw [reserve_of_fits hfits] at hreserve
      cases hreserve
  · exact he

theorem append_of_no_room {os : OS} {w : WAL dim} (hroom : ¬ HasRoom os w)
    (vectorId : UInt64) (vec : Vec dim) :
    ∃ e w', (append os vectorId vec).run w = .error e w' ∧
      e ∈ growFailures := by
  unfold HasRoom at hroom
  push Not at hroom
  obtain ⟨hneeded, hrefused⟩ := hroom
  have hgrow : ∃ e w', (grow os (w.mapSize + growSize)).run w = .error e w' ∧
      e ∈ growFailures := by
    rw [grow_run]
    by_cases hftruncate : os.ftruncate (w.mapSize + growSize) = true
    · rw [if_neg (by simp [hftruncate]),
        if_pos (by simpa using hrefused hftruncate)]
      exact ⟨_, _, rfl, by simp [growFailures]⟩
    · rw [if_pos (by simpa using hftruncate)]
      exact ⟨_, _, rfl, by simp [growFailures]⟩
  obtain ⟨e, w', herr, hmem⟩ := hgrow
  refine ⟨e, w', append_of_reserve_error ?_ vectorId vec, hmem⟩
  rw [reserve_of_full hneeded, herr]

theorem append_thrown {os : OS} {w w' : WAL dim} {vectorId : UInt64}
    {vec : Vec dim} {e : Failure} (hthrown : e.Thrown)
    (hfail : (append os vectorId vec).run w = .error e w') :
    ¬ HasRoom os w ∧ e ∈ growFailures := by
  have hroom : ¬ HasRoom os w := fun hroom =>
    hthrown.1 (append_of_room hroom hfail)
  refine ⟨hroom, ?_⟩
  obtain ⟨e', w'', hfail', hgrow⟩ := append_of_no_room hroom vectorId vec
  rw [hfail] at hfail'
  cases hfail'
  exact hgrow

theorem hasRoom_of_append {os : OS} {w w' : WAL dim} {vectorId : UInt64}
    {vec : Vec dim} {lsn : ℕ}
    (hok : (append os vectorId vec).run w = .ok lsn w') : HasRoom os w := by
  by_contra hroom
  obtain ⟨e, w'', hfail, _⟩ := append_of_no_room hroom vectorId vec
  rw [hok] at hfail
  cases hfail

/-- An append that throws leaves the file as it was, or longer. -/
theorem Tidy.append_eq_error {os : OS} {w w' : WAL dim} (h : Tidy w)
    {vectorId : UInt64} {vec : Vec dim} {e : Failure}
    (hgrow : e ∈ growFailures)
    (hfail : (append os vectorId vec).run w = .error e w') :
    Tidy w' ∧ w.file.size ≤ w'.file.size ∧ w'.file.byte = w.file.byte := by
  obtain ⟨_, rfl | rfl⟩ := WAL.append_eq_error hgrow hfail
  · exact ⟨h.unmapped (Or.inl rfl), le_rfl, rfl⟩
  · exact ⟨h.unmapped (Or.inr rfl), h.size_le,
      ByteFile.resize_byte_of_le h.size_le⟩

/-! ## Truncations -/

/-- Wherever the truncation that follows a snapshot returns or throws. -/
theorem Tidy.after_truncate {w : WAL dim} (h : Tidy w) (os : OS) :
    Tidy (after (truncate os w.nextLsn) w) := by
  rcases Nat.lt_or_ge w.checkpointLsn w.nextLsn with hlt | hle
  · have hinitial : initialSize ≤ w.mapSize + growSize :=
      le_trans (by decide) (Nat.le_add_left growSize _)
    have hheader : headerSize ≤ w.mapSize + growSize :=
      le_trans (by decide) hinitial
    have hcut : Sealed dim (w.file.resize headerSize) :=
      Sealed.cut h.dim_ne_zero
    have hlonger : (w.file.resize headerSize).size ≤ initialSize := by
      rw [ByteFile.resize_size]
      decide
    unfold after
    rw [truncate_of_next_le hlt le_rfl]
    split_ifs
    · exact ⟨h.dim_ne_zero, h.sealed,
        fun hmapped => (Bool.false_ne_true hmapped).elim, h.size_le⟩
    · exact ⟨h.dim_ne_zero, hcut,
        fun hmapped => (Bool.false_ne_true hmapped).elim, hheader⟩
    · exact ⟨h.dim_ne_zero, hcut.resize hlonger,
        fun hmapped => (Bool.false_ne_true hmapped).elim, hinitial⟩
    · have hholds := truncated_holds w
      refine ⟨h.dim_ne_zero, ?_, fun _ => hholds.mapSize_eq, ?_⟩
      · refine (hcut.resize hlonger).of_body le_rfl
          fun i hi => ?_
        exact headerImage_byte hi
      · exact hholds.mapSize_eq.ge.trans (Nat.le_add_right _ _)
  · rw [after_of_ok (truncate_of_le hle)]
    exact h

end WAL
end VecDB
