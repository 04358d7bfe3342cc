import VecDB.WalModel
import Mathlib.Tactic

/-!
# Valid slots of a log file

The constructor's scan and `replay` make the same test on a slot.  Both are
determined by the first slot that fails it, so every later statement about
them speaks of valid slots only.
-/

namespace VecDB
namespace WAL

open LittleEndian

variable {dim : UInt32}

/-- The test that the scan and `replay` make on slot `lsn`. -/
def SlotValid (dim : UInt32) (file : ByteFile) (mapSize lsn : ℕ) : Prop :=
  entryPtr dim lsn + entrySize dim ≤ mapSize ∧
    storedLsn dim file lsn = lsn ∧
    storedDim dim file lsn = dim.toNat ∧
    storedCrc dim file lsn = (crc32 (storedPayload dim file lsn)).toNat

instance (file : ByteFile) (mapSize lsn : ℕ) :
    Decidable (SlotValid dim file mapSize lsn) := by
  unfold SlotValid
  infer_instance

def entryAt (dim : UInt32) (file : ByteFile) (lsn : ℕ) : WALEntry dim where
  lsn := lsn
  vectorId := storedVectorId dim file lsn
  dimField := storedDim dim file lsn
  vec := Vec.ofBytes dim (storedPayload dim file lsn)

theorem entrySize_pos (dim : UInt32) : 0 < entrySize dim := by
  unfold entrySize fixedHdr
  omega

theorem entryPtr_succ (dim : UInt32) (lsn : ℕ) :
    entryPtr dim (lsn + 1) = entryPtr dim lsn + entrySize dim := by
  unfold entryPtr
  ring

theorem entryPtr_mono (dim : UInt32) {first second : ℕ}
    (hle : first ≤ second) : entryPtr dim first ≤ entryPtr dim second := by
  unfold entryPtr
  exact Nat.add_le_add_left (Nat.mul_le_mul_right _ hle) _

theorem entryPtr_add_le (dim : UInt32) {first second : ℕ}
    (hlt : first < second) :
    entryPtr dim first + entrySize dim ≤ entryPtr dim second := by
  rw [← entryPtr_succ]
  exact entryPtr_mono dim hlt

theorem headerSize_le_entryPtr (dim : UInt32) (lsn : ℕ) :
    headerSize ≤ entryPtr dim lsn := Nat.le_add_right _ _

theorem lt_entryPtr (dim : UInt32) (lsn : ℕ) : lsn < entryPtr dim lsn := by
  have hle : lsn * 1 ≤ lsn * entrySize dim :=
    Nat.mul_le_mul_left lsn (entrySize_pos dim)
  unfold entryPtr headerSize
  omega

theorem lt_scanFuel_of_fits {dim : UInt32} {mapSize count : ℕ}
    (hfits : ∀ i < count, entryPtr dim i + entrySize dim ≤ mapSize) :
    count < scanFuel dim mapSize := by
  unfold scanFuel
  rcases Nat.eq_zero_or_pos count with rfl | hpos
  · exact Nat.succ_pos _
  · have hlast := hfits (count - 1) (by omega)
    rw [← entryPtr_succ, Nat.sub_add_cancel hpos] at hlast
    have hmul : count * entrySize dim ≤ mapSize := by
      unfold entryPtr at hlast
      omega
    have hdiv := (Nat.le_div_iff_mul_le (entrySize_pos dim)).mpr hmul
    omega

theorem scanFrom_of_valid {file : ByteFile} {mapSize fuel lsn : ℕ}
    (hvalid : SlotValid dim file mapSize lsn) :
    scanFrom dim file mapSize (fuel + 1) lsn =
      scanFrom dim file mapSize fuel (lsn + 1) := by
  obtain ⟨hfits, hlsn, hdim, hcrc⟩ := hvalid
  rw [scanFrom, if_neg (by omega), if_neg (not_not.mpr hlsn),
    if_neg (not_not.mpr hdim), if_neg (not_not.mpr hcrc.symm)]

theorem scanFrom_of_not_valid {file : ByteFile} {mapSize fuel lsn : ℕ}
    (hstop : ¬ SlotValid dim file mapSize lsn) :
    scanFrom dim file mapSize (fuel + 1) lsn = lsn := by
  rw [scanFrom]
  split_ifs with hfits hlsn hdim hcrc
  · rfl
  · rfl
  · rfl
  · rfl
  · refine (hstop ⟨by omega, not_not.mp hlsn, not_not.mp hdim, ?_⟩).elim
    exact (not_not.mp hcrc).symm

theorem replayFrom_of_valid {file : ByteFile} {mapSize fuel lsn : ℕ}
    (hvalid : SlotValid dim file mapSize lsn) :
    replayFrom dim file mapSize (fuel + 1) lsn =
      (entryAt dim file lsn :: (replayFrom dim file mapSize fuel (lsn + 1)).1,
        (replayFrom dim file mapSize fuel (lsn + 1)).2 + 1) := by
  obtain ⟨hfits, hlsn, hdim, hcrc⟩ := hvalid
  rw [replayFrom, if_neg (by omega), if_neg (not_not.mpr hlsn),
    if_neg (not_not.mpr hdim), if_neg (not_not.mpr hcrc)]
  rfl

theorem replayFrom_of_not_valid {file : ByteFile} {mapSize fuel lsn : ℕ}
    (hstop : ¬ SlotValid dim file mapSize lsn) :
    replayFrom dim file mapSize (fuel + 1) lsn = ([], 0) := by
  rw [replayFrom]
  split_ifs with hfits hlsn hdim hcrc
  · rfl
  · rfl
  · rfl
  · rfl
  · exact (hstop ⟨by omega, not_not.mp hlsn, not_not.mp hdim,
      not_not.mp hcrc⟩).elim

theorem scanFrom_eq {file : ByteFile} {mapSize fuel lsn count : ℕ}
    (hvalid : ∀ i, lsn ≤ i → i < lsn + count → SlotValid dim file mapSize i)
    (hstop : ¬ SlotValid dim file mapSize (lsn + count))
    (hfuel : count < fuel) :
    scanFrom dim file mapSize fuel lsn = lsn + count := by
  induction count generalizing lsn fuel with
  | zero =>
      obtain ⟨fuel, rfl⟩ := Nat.exists_eq_add_of_lt hfuel
      rw [Nat.zero_add]
      exact scanFrom_of_not_valid hstop
  | succ count ih =>
      obtain ⟨fuel, rfl⟩ := Nat.exists_eq_add_of_lt hfuel
      rw [scanFrom_of_valid (hvalid lsn le_rfl (by omega)), ih]
      · omega
      · intro i hlo hhi
        exact hvalid i (by omega) (by omega)
      · rwa [show lsn + 1 + count = lsn + (count + 1) by omega]
      · omega

theorem replayFrom_eq {file : ByteFile} {mapSize fuel lsn count : ℕ}
    (hvalid : ∀ i, lsn ≤ i → i < lsn + count → SlotValid dim file mapSize i)
    (hstop : ¬ SlotValid dim file mapSize (lsn + count))
    (hfuel : count < fuel) :
    replayFrom dim file mapSize fuel lsn =
      ((List.range' lsn count).map (entryAt dim file), count) := by
  induction count generalizing lsn fuel with
  | zero =>
      obtain ⟨fuel, rfl⟩ := Nat.exists_eq_add_of_lt hfuel
      rw [Nat.zero_add]
      exact replayFrom_of_not_valid hstop
  | succ count ih =>
      obtain ⟨fuel, rfl⟩ := Nat.exists_eq_add_of_lt hfuel
      rw [replayFrom_of_valid (hvalid lsn le_rfl (by omega)), ih]
      · rw [List.range'_succ, List.map_cons]
      · intro i hlo hhi
        exact hvalid i (by omega) (by omega)
      · rwa [show lsn + 1 + count = lsn + (count + 1) by omega]
      · omega

theorem exists_firstInvalid (dim : UInt32) (file : ByteFile) (mapSize : ℕ) :
    ∃ count, (∀ i < count, SlotValid dim file mapSize i) ∧
      ¬ SlotValid dim file mapSize count := by
  have hex : ∃ i, ¬ SlotValid dim file mapSize i := by
    refine ⟨mapSize, fun hvalid => ?_⟩
    have hlt := lt_entryPtr dim mapSize
    have hfits := hvalid.1
    omega
  refine ⟨Nat.find hex, fun i hi => ?_, Nat.find_spec hex⟩
  exact not_not.mp (Nat.find_min hex hi)

theorem scan_eq {file : ByteFile} {mapSize count : ℕ}
    (hvalid : ∀ i < count, SlotValid dim file mapSize i)
    (hstop : ¬ SlotValid dim file mapSize count) :
    scanFrom dim file mapSize (scanFuel dim mapSize) 0 = count := by
  have hfuel := lt_scanFuel_of_fits fun i hi => (hvalid i hi).1
  have hscan : scanFrom dim file mapSize (scanFuel dim mapSize) 0 =
      0 + count := by
    apply scanFrom_eq (fun i _ hi => hvalid i (by omega)) _ hfuel
    rwa [Nat.zero_add]
  rwa [Nat.zero_add] at hscan

theorem scan_spec (dim : UInt32) (file : ByteFile) (mapSize : ℕ) :
    (∀ i < scanFrom dim file mapSize (scanFuel dim mapSize) 0,
        SlotValid dim file mapSize i) ∧
      ¬ SlotValid dim file mapSize
        (scanFrom dim file mapSize (scanFuel dim mapSize) 0) := by
  obtain ⟨count, hvalid, hstop⟩ := exists_firstInvalid dim file mapSize
  rw [scan_eq hvalid hstop]
  exact ⟨hvalid, hstop⟩

theorem replay_eq {w : WAL dim} {count : ℕ}
    (hvalid : ∀ i < count, SlotValid dim w.file w.mapSize i)
    (hstop : ¬ SlotValid dim w.file w.mapSize count) :
    w.replay = ((List.range count).map (entryAt dim w.file), count) := by
  have hfuel := lt_scanFuel_of_fits fun i hi => (hvalid i hi).1
  rw [List.range_eq_range']
  apply replayFrom_eq (fun i _ hi => hvalid i (by omega)) _ hfuel
  rwa [Nat.zero_add]

/-! ## Frame lemmas -/

theorem slot_congr {file other : ByteFile} {lsn : ℕ}
    (hbyte : ∀ i, entryPtr dim lsn ≤ i →
      i < entryPtr dim lsn + entrySize dim → file.byte i = other.byte i) :
    storedLsn dim file lsn = storedLsn dim other lsn ∧
      storedVectorId dim file lsn = storedVectorId dim other lsn ∧
      storedDim dim file lsn = storedDim dim other lsn ∧
      storedCrc dim file lsn = storedCrc dim other lsn ∧
      storedPayload dim file lsn = storedPayload dim other lsn := by
  have hread : ∀ offset count, offset + count ≤ entrySize dim →
      file.read (entryPtr dim lsn + offset) count =
        other.read (entryPtr dim lsn + offset) count := by
    intro offset count hle
    exact ByteFile.read_congr fun i hlo hhi => hbyte i (by omega) (by omega)
  unfold storedLsn storedVectorId storedDim storedCrc storedPayload
  rw [hread lsnOff 8 (by unfold lsnOff entrySize fixedHdr; omega),
    hread vidOff 8 (by unfold vidOff entrySize fixedHdr; omega),
    hread dimOff 4 (by unfold dimOff entrySize fixedHdr; omega),
    hread crcOff 4 (by unfold crcOff entrySize fixedHdr; omega),
    hread dataOff (dim.toNat * 4) (by unfold dataOff entrySize fixedHdr; omega)]
  exact ⟨rfl, rfl, rfl, rfl, rfl⟩

theorem slotValid_congr {file other : ByteFile} {mapSize size lsn : ℕ}
    (hbyte : ∀ i, entryPtr dim lsn ≤ i →
      i < entryPtr dim lsn + entrySize dim → file.byte i = other.byte i)
    (hfits : entryPtr dim lsn + entrySize dim ≤ mapSize ↔
      entryPtr dim lsn + entrySize dim ≤ size) :
    SlotValid dim file mapSize lsn ↔ SlotValid dim other size lsn := by
  obtain ⟨hlsn, _, hdim, hcrc, hpayload⟩ := slot_congr hbyte
  unfold SlotValid
  rw [hlsn, hdim, hcrc, hpayload, hfits]

theorem entryAt_congr {file other : ByteFile} {lsn : ℕ}
    (hbyte : ∀ i, entryPtr dim lsn ≤ i →
      i < entryPtr dim lsn + entrySize dim → file.byte i = other.byte i) :
    entryAt dim file lsn = entryAt dim other lsn := by
  obtain ⟨_, hid, hdim, _, hpayload⟩ := slot_congr hbyte
  unfold entryAt
  rw [hid, hdim, hpayload]

/-! ## The bytes of one entry -/

/-- The bytes the five stores of `append` lay out side by side. -/
def entryBytes (lsn : ℕ) (vectorId : UInt64) (vec : Vec dim) : List UInt8 :=
  encode 8 lsn ++ (encode 8 vectorId.toNat ++ (encode 4 dim.toNat ++
    (encode 4 (crc32 vec.bytes).toNat ++ vec.bytes)))

@[simp] theorem length_entryBytes (lsn : ℕ) (vectorId : UInt64)
    (vec : Vec dim) : (entryBytes lsn vectorId vec).length = entrySize dim := by
  simp only [entryBytes, List.length_append, length_encode, Vec.length_bytes,
    entrySize, fixedHdr]
  omega

section EntryBytes

variable {file : ByteFile} {lsn : ℕ} {vectorId : UInt64} {vec : Vec dim}

theorem fields_of_entryBytes
    (hread : file.read (entryPtr dim lsn) (entrySize dim) =
      entryBytes lsn vectorId vec) :
    file.read (entryPtr dim lsn + lsnOff) 8 = encode 8 lsn ∧
      storedVectorId dim file lsn = vectorId ∧
      storedDim dim file lsn = dim.toNat ∧
      storedCrc dim file lsn = (crc32 vec.bytes).toNat ∧
      storedPayload dim file lsn = vec.bytes := by
  have hsplit : file.read (entryPtr dim lsn) (entrySize dim) =
      file.read (entryPtr dim lsn + lsnOff) 8 ++
        (file.read (entryPtr dim lsn + vidOff) 8 ++
          (file.read (entryPtr dim lsn + dimOff) 4 ++
            (file.read (entryPtr dim lsn + crcOff) 4 ++
              storedPayload dim file lsn))) := by
    unfold storedPayload
    rw [show entrySize dim = 8 + (8 + (4 + (4 + dim.toNat * 4))) by
      unfold entrySize fixedHdr; omega]
    simp only [ByteFile.read_append]
    rfl
  rw [hsplit] at hread
  unfold entryBytes at hread
  obtain ⟨hlsnField, hread⟩ := List.append_inj hread (by simp)
  obtain ⟨hidField, hread⟩ := List.append_inj hread (by simp)
  obtain ⟨hdimField, hread⟩ := List.append_inj hread (by simp)
  obtain ⟨hcrcField, hpayload⟩ := List.append_inj hread (by simp)
  refine ⟨hlsnField, ?_, ?_, ?_, hpayload⟩
  · unfold storedVectorId
    rw [hidField, decode_encode_of_lt vectorId.toNat_lt, UInt64.ofNat_toNat]
  · unfold storedDim
    rw [hdimField, decode_encode_of_lt dim.toNat_lt]
  · unfold storedCrc
    rw [hcrcField, decode_encode_of_lt (crc32 vec.bytes).toNat_lt]

theorem entryAt_of_entryBytes
    (hread : file.read (entryPtr dim lsn) (entrySize dim) =
      entryBytes lsn vectorId vec) :
    entryAt dim file lsn = ⟨lsn, vectorId, dim.toNat, vec⟩ := by
  obtain ⟨_, hid, hdim, _, hpayload⟩ := fields_of_entryBytes hread
  unfold entryAt
  rw [hid, hdim, hpayload, Vec.ofBytes_bytes]

/-- A slot that holds the bytes of an entry is valid and reads back as that
entry. -/
theorem slot_of_entryBytes {mapSize : ℕ}
    (hread : file.read (entryPtr dim lsn) (entrySize dim) =
      entryBytes lsn vectorId vec)
    (hfits : entryPtr dim lsn + entrySize dim ≤ mapSize)
    (hlsn : lsn < 2 ^ 64) :
    SlotValid dim file mapSize lsn ∧
      entryAt dim file lsn = ⟨lsn, vectorId, dim.toNat, vec⟩ := by
  obtain ⟨hlsnField, _, hdim, hcrc, hpayload⟩ := fields_of_entryBytes hread
  have hstoredLsn : storedLsn dim file lsn = lsn := by
    unfold storedLsn
    rw [hlsnField, decode_encode_of_lt (by omega)]
  refine ⟨⟨hfits, hstoredLsn, hdim, ?_⟩, entryAt_of_entryBytes hread⟩
  rw [hcrc, hpayload]

end EntryBytes

/-- On zero bytes no slot is valid: slot zero fails on the dimension and
every other slot on its number. -/
theorem not_slotValid_of_zero {file : ByteFile} {mapSize lsn : ℕ}
    (hdim : dim ≠ 0)
    (hzero : ∀ i, entryPtr dim lsn ≤ i → file.byte i = 0) :
    ¬ SlotValid dim file mapSize lsn := by
  intro hvalid
  have hstored : storedDim dim file lsn = 0 := by
    unfold storedDim
    rw [ByteFile.read_eq_replicate_zero fun i hlo _ => hzero i (by omega),
      decode_replicate_zero]
  have hdimNat : dim.toNat = 0 := by
    rw [← hvalid.2.2.1, hstored]
  exact hdim (UInt32.toNat_inj.mp (by simpa using hdimNat))

end WAL
end VecDB
