import VecDB.ChecksumBursts
import VecDB.WalCrash
import Mathlib.Tactic

/-!
# Damaged entries

At most four bytes of one entry are overwritten.  The LSN and the dimension
are compared with what they have to be and the payload is covered by the
checksum, which sees every change of four bytes.  Nothing covers the vector
id, and a change of both the checksum and the payload is seen unless the new
checksum is the one of the new payload.
-/

namespace VecDB
namespace WAL

open LittleEndian

variable {dim : UInt32}

/-- At most four consecutive bytes of an entry, and what they become. -/
structure Damage (dim : UInt32) where
  offset : ℕ
  bytes : List UInt8
  short : bytes.length ≤ 4
  inside : offset + bytes.length ≤ entrySize dim

def Damage.apply (damage : Damage dim) (file : ByteFile) (lsn : ℕ) :
    ByteFile :=
  file.write (entryPtr dim lsn + damage.offset) damage.bytes

/-- Byte `j` of the entry is not what it was. -/
def Damage.Changes (damage : Damage dim) (file : ByteFile) (lsn j : ℕ) :
    Prop :=
  (damage.apply file lsn).byte (entryPtr dim lsn + j) ≠
    file.byte (entryPtr dim lsn + j)

instance (damage : Damage dim) (file : ByteFile) (lsn j : ℕ) :
    Decidable (damage.Changes file lsn j) := by
  unfold Damage.Changes
  infer_instance

/-- Some byte from `first` up to `last` is not what it was. -/
def Damage.ChangesIn (damage : Damage dim) (file : ByteFile)
    (lsn first last : ℕ) : Prop :=
  ∃ j, first ≤ j ∧ j < last ∧ damage.Changes file lsn j

/-- The checksum on file is the one of the payload on file. -/
def ChecksumFits (dim : UInt32) (file : ByteFile) (lsn : ℕ) : Prop :=
  storedCrc dim file lsn = (crc32 (storedPayload dim file lsn)).toNat

namespace Damage

variable {damage : Damage dim} {file : ByteFile} {lsn : ℕ}

theorem apply_byte_of_not_mem {i : ℕ}
    (hout : i < entryPtr dim lsn ∨ entryPtr dim lsn + entrySize dim ≤ i) :
    (damage.apply file lsn).byte i = file.byte i := by
  have hinside := damage.inside
  apply ByteFile.write_byte_of_not_mem
  omega

theorem Changes.mem {j : ℕ} (h : damage.Changes file lsn j) :
    damage.offset ≤ j ∧ j < damage.offset + 4 := by
  have hshort := damage.short
  by_contra hout
  apply h
  apply ByteFile.write_byte_of_not_mem
  omega

/-- A field is what it was if none of its bytes changed. -/
theorem decode_eq_iff (offset count : ℕ) :
    decode ((damage.apply file lsn).read (entryPtr dim lsn + offset) count) =
        decode (file.read (entryPtr dim lsn + offset) count) ↔
      ¬ damage.ChangesIn file lsn offset (offset + count) := by
  constructor
  · rintro heq ⟨j, hlo, hhi, hchange⟩
    have hbytes := decode_injective_of_length (by simp) heq
    have hget := congrArg (fun list => list[j - offset]?) hbytes
    rw [List.getElem?_eq_getElem (by simp; omega),
      List.getElem?_eq_getElem (by simp; omega), ByteFile.getElem_read,
      ByteFile.getElem_read] at hget
    rw [show entryPtr dim lsn + offset + (j - offset) = entryPtr dim lsn + j by
      omega] at hget
    exact hchange (Option.some.inj hget)
  · intro hnone
    congr 1
    apply ByteFile.read_shift
    intro i hi
    by_contra hchange
    rw [Nat.add_assoc] at hchange
    exact hnone ⟨offset + i, by omega, by omega, hchange⟩

/-- A change of four bytes of the payload changes its checksum. -/
theorem crc32_payload_ne
    (hchange : damage.ChangesIn file lsn dataOff (entrySize dim)) :
    crc32 (storedPayload dim (damage.apply file lsn) lsn) ≠
      crc32 (storedPayload dim file lsn) := by
  obtain ⟨j, hlo, hhi, hj⟩ := hchange
  have hsize : entrySize dim = dataOff + dim.toNat * 4 := rfl
  have hget : ∀ other : ByteFile, ∀ i < dim.toNat * 4,
      (storedPayload dim other lsn)[i]? =
        some (other.byte (entryPtr dim lsn + dataOff + i)) := by
    intro other i hi
    unfold storedPayload
    rw [List.getElem?_eq_getElem (by simpa using hi), ByteFile.getElem_read]
  apply crc32_ne_of_window (damage.offset - dataOff)
  · simp [storedPayload]
  · intro i hout
    rcases Nat.lt_or_ge i (dim.toNat * 4) with hlt | hge
    · rw [hget _ i hlt, hget _ i hlt]
      congr 1
      by_contra hne
      have hmem := Changes.mem (j := dataOff + i) (by
        rw [Nat.add_assoc] at hne
        exact hne)
      omega
    · rw [List.getElem?_eq_none (by simpa [storedPayload] using hge),
        List.getElem?_eq_none (by simpa [storedPayload] using hge)]
  · intro heq
    have hsame := congrArg (fun list => list[j - dataOff]?) heq
    rw [hget _ _ (by omega), hget _ _ (by omega)] at hsame
    have hindex : entryPtr dim lsn + dataOff + (j - dataOff) =
        entryPtr dim lsn + j := by omega
    rw [hindex] at hsame
    exact hj (Option.some.inj hsame)

/-- What the damage makes of a valid slot: it stays valid exactly if the LSN
and the dimension are what they were and the checksum fits the payload. -/
theorem slotValid_apply_iff {mapSize : ℕ}
    (hvalid : SlotValid dim file mapSize lsn) :
    SlotValid dim (damage.apply file lsn) mapSize lsn ↔
      ¬ damage.ChangesIn file lsn lsnOff vidOff ∧
        ¬ damage.ChangesIn file lsn dimOff crcOff ∧
          ChecksumFits dim (damage.apply file lsn) lsn := by
  obtain ⟨hfits, hlsn, hdim, _⟩ := hvalid
  have hlsnField : storedLsn dim (damage.apply file lsn) lsn =
      storedLsn dim file lsn ↔ ¬ damage.ChangesIn file lsn lsnOff vidOff :=
    damage.decode_eq_iff lsnOff 8
  have hdimField : storedDim dim (damage.apply file lsn) lsn =
      storedDim dim file lsn ↔ ¬ damage.ChangesIn file lsn dimOff crcOff :=
    damage.decode_eq_iff dimOff 4
  constructor
  · rintro ⟨_, hlsn', hdim', hcrc⟩
    exact ⟨hlsnField.mp (hlsn'.trans hlsn.symm),
      hdimField.mp (hdim'.trans hdim.symm), hcrc⟩
  · rintro ⟨hlsn', hdim', hcrc⟩
    exact ⟨hfits, (hlsnField.mpr hlsn').trans hlsn,
      (hdimField.mpr hdim').trans hdim, hcrc⟩

/-- The changes that the checks of a slot notice: a byte outside the vector
id, and not a checksum and a payload that fit each other again. -/
def Noticed (damage : Damage dim) (file : ByteFile) (lsn : ℕ) : Prop :=
  (damage.ChangesIn file lsn lsnOff vidOff ∨
      damage.ChangesIn file lsn dimOff (entrySize dim)) ∧
    ¬ (damage.ChangesIn file lsn crcOff dataOff ∧
        damage.ChangesIn file lsn dataOff (entrySize dim) ∧
          ChecksumFits dim (damage.apply file lsn) lsn)

theorem storedPayload_eq
    (hnone : ¬ damage.ChangesIn file lsn dataOff (entrySize dim)) :
    storedPayload dim (damage.apply file lsn) lsn =
      storedPayload dim file lsn := by
  have hsize : entrySize dim = dataOff + dim.toNat * 4 := rfl
  apply ByteFile.read_shift
  intro i hi
  by_contra hchange
  rw [Nat.add_assoc] at hchange
  exact hnone ⟨dataOff + i, by omega, by omega, hchange⟩

/-- Where not both of them changed, the checksum fits the payload only if
neither did. -/
theorem checksumFits_iff (damage : Damage dim) (hfits : ChecksumFits dim file lsn)
    (hone : ¬ (damage.ChangesIn file lsn crcOff dataOff ∧
      damage.ChangesIn file lsn dataOff (entrySize dim))) :
    ChecksumFits dim (damage.apply file lsn) lsn ↔
      ¬ damage.ChangesIn file lsn crcOff dataOff ∧
        ¬ damage.ChangesIn file lsn dataOff (entrySize dim) := by
  have hfield : storedCrc dim (damage.apply file lsn) lsn =
      storedCrc dim file lsn ↔ ¬ damage.ChangesIn file lsn crcOff dataOff :=
    damage.decode_eq_iff crcOff 4
  unfold ChecksumFits at hfits ⊢
  constructor
  · intro hstill
    by_cases hpayload : damage.ChangesIn file lsn dataOff (entrySize dim)
    · have hcrc : ¬ damage.ChangesIn file lsn crcOff dataOff :=
        fun hchange => hone ⟨hchange, hpayload⟩
      rw [hfield.mpr hcrc, hfits] at hstill
      exact (crc32_payload_ne hpayload (UInt32.toNat_inj.mp hstill.symm)).elim
    · rw [storedPayload_eq hpayload, ← hfits] at hstill
      exact ⟨hfield.mp hstill, hpayload⟩
  · rintro ⟨hcrc, hpayload⟩
    rw [hfield.mpr hcrc, storedPayload_eq hpayload, hfits]

theorem noticed_iff {mapSize : ℕ} (hvalid : SlotValid dim file mapSize lsn) :
    damage.Noticed file lsn ↔
      ¬ SlotValid dim (damage.apply file lsn) mapSize lsn := by
  have hone : ∀ {first last : ℕ}, last ≤ crcOff →
      damage.ChangesIn file lsn first last →
        ¬ damage.ChangesIn file lsn dataOff (entrySize dim) := by
    rintro first last hlast ⟨i, _, hi, hchange⟩ ⟨j, hj, _, hother⟩
    have hmem := hchange.mem
    have hmem' := hother.mem
    unfold crcOff at hlast
    unfold dataOff at hj
    omega
  have hrest : damage.ChangesIn file lsn dimOff (entrySize dim) ↔
      damage.ChangesIn file lsn dimOff crcOff ∨
        damage.ChangesIn file lsn crcOff dataOff ∨
          damage.ChangesIn file lsn dataOff (entrySize dim) := by
    have hsize : dataOff ≤ entrySize dim := Nat.le_add_right _ _
    constructor
    · rintro ⟨j, hlo, hhi, hchange⟩
      rcases Nat.lt_or_ge j crcOff with hlt | hge
      · exact Or.inl ⟨j, hlo, hlt, hchange⟩
      · rcases Nat.lt_or_ge j dataOff with hlt | hdata
        · exact Or.inr (Or.inl ⟨j, hge, hlt, hchange⟩)
        · exact Or.inr (Or.inr ⟨j, hdata, hhi, hchange⟩)
    · have horder : dimOff ≤ crcOff ∧ crcOff ≤ dataOff := by decide
      rintro (⟨j, hlo, hhi, hchange⟩ | ⟨j, hlo, hhi, hchange⟩ |
        ⟨j, hlo, hhi, hchange⟩)
      · exact ⟨j, hlo, by omega, hchange⟩
      · exact ⟨j, by omega, by omega, hchange⟩
      · exact ⟨j, by omega, hhi, hchange⟩
  have hlsn : damage.ChangesIn file lsn lsnOff vidOff →
      ¬ damage.ChangesIn file lsn dataOff (entrySize dim) :=
    hone (by decide)
  have hdim : damage.ChangesIn file lsn dimOff crcOff →
      ¬ damage.ChangesIn file lsn dataOff (entrySize dim) := hone le_rfl
  have hiff := damage.checksumFits_iff hvalid.2.2.2
  rw [slotValid_apply_iff hvalid]
  unfold Noticed
  rw [hrest]
  clear hone hrest
  generalize damage.ChangesIn file lsn lsnOff vidOff = lsnChanges at *
  generalize damage.ChangesIn file lsn dimOff crcOff = dimChanges at *
  generalize damage.ChangesIn file lsn crcOff dataOff = crcChanges at *
  generalize damage.ChangesIn file lsn dataOff (entrySize dim) =
    payloadChanges at *
  generalize ChecksumFits dim (damage.apply file lsn) lsn = fits at *
  tauto

end Damage

/-! ## Reopening a damaged log -/

/-- The file opens and replays exactly the entries before the damaged one. -/
def Detected (entries : List (UInt64 × Vec dim)) (lsn : ℕ)
    (file : ByteFile) : Prop :=
  ∀ checkpointEvery, ∃ w,
    new OS.reliable dim checkpointEvery (some file) = .ok w ∧
      w.replay = (numbered (entries.take lsn), lsn)

section Detected

variable {w : WAL dim} {entries : List (UInt64 × Vec dim)} {lsn : ℕ}

theorem Holds.take (h : Holds w entries) (hle : lsn ≤ entries.length) :
    Holds { w with nextLsn := lsn } (entries.take lsn) := by
  have hlength : (entries.take lsn).length = lsn := by
    rw [List.length_take, min_eq_left hle]
  refine ⟨h.mapped, h.mapSize_eq, h.initial_le, h.mapSize_lt, h.header,
    hlength.symm, ?_, ?_, ?_⟩
  · rw [hlength]
    exact (entryPtr_mono dim hle).trans h.fits
  · rw [hlength]
    intro i hi
    exact h.valid i (hi.trans_le hle)
  · apply List.ext_getElem (by simp)
    intro i hi hi'
    have hlt : i < (entries.take lsn).length := by simpa using hi'
    rw [List.getElem_map, List.getElem_range, getElem_numbered _ hlt,
      List.getElem_take]
    exact h.entryAt_eq (by rw [hlength] at hlt; omega)

/-- The damaged file still holds the entries before the damaged one. -/
theorem Holds.damaged (h : Holds w entries) (hlt : lsn < entries.length)
    (damage : Damage dim) :
    Holds { w with file := damage.apply w.file lsn, nextLsn := lsn }
      (entries.take lsn) := by
  have hlength : (entries.take lsn).length = lsn := by
    rw [List.length_take, min_eq_left hlt.le]
  have hhead := headerSize_le_entryPtr dim lsn
  apply (h.take hlt.le).of_frame
  · exact h.mapped
  · exact h.mapSize_eq
  · exact le_rfl
  · exact h.mapSize_lt
  · rfl
  · rw [← h.header]
    apply readHeader_congr
    intro i hi
    exact Damage.apply_byte_of_not_mem (Or.inl (by omega))
  · intro i _ hi
    rw [hlength] at hi
    exact Damage.apply_byte_of_not_mem (Or.inl hi)

theorem Clean.detected_iff (h : Clean entries w) (hlt : lsn < entries.length)
    (damage : Damage dim) :
    Detected entries lsn (damage.apply w.file lsn) ↔
      damage.Noticed w.file lsn := by
  have hdamaged := h.holds.damaged hlt damage
  have hlength : (entries.take lsn).length = lsn := by
    rw [List.length_take, min_eq_left hlt.le]
  rw [Damage.noticed_iff (h.holds.valid lsn hlt)]
  have hos : OS.reliable.ftruncate w.mapSize = true := by
    simpa [OS.reliable] using h.holds.mapSize_lt
  constructor
  · intro hdetected hslot
    obtain ⟨w', hnew, hreplay⟩ := hdetected 0
    obtain ⟨_, _, ckptLsn, _, rfl⟩ := new_some_eq_ok hnew
    have hopened : opened (damage.apply w.file lsn) =
        damage.apply w.file lsn := hdamaged.opened_file
    have hsize : max (damage.apply w.file lsn).size initialSize =
        w.mapSize := hdamaged.max_size
    have hcount := congrArg Prod.snd hreplay
    have hslots : ∀ i, SlotValid dim
        (reopened dim 0 (damage.apply w.file lsn) ckptLsn).file
        (reopened dim 0 (damage.apply w.file lsn) ckptLsn).mapSize i ↔
          SlotValid dim (damage.apply w.file lsn) w.mapSize i := by
      intro i
      unfold reopened
      dsimp only
      rw [hopened, hsize]
    refine (replay_snd_eq_iff ?_).mp hcount ((hslots lsn).mpr hslot)
    intro i hi
    exact (hslots i).mpr (hdamaged.valid i (by omega))
  · intro hslot checkpointEvery
    have hstop : ¬ SlotValid dim (damage.apply w.file lsn) w.mapSize
        (entries.take lsn).length := by rwa [hlength]
    refine ⟨_, hdamaged.new_close checkpointEvery h.dim_ne_zero hstop hos hos,
      ?_⟩
    have hreplay := (hdamaged.bookkeeping checkpointEvery 0).replay hstop
    rwa [hlength] at hreplay

end Detected

/-- Of a log written by appends, damage of at most four bytes of an entry
ends `replay` in front of that entry if and only if it changes a byte outside
the vector id, and not a checksum and a payload that fit each other again. -/
theorem damage_detected_iff {os : OS} {checkpointEvery : ℕ}
    {entries : List (UInt64 × Vec dim)} {w₀ w : WAL dim}
    (hnew : new os dim checkpointEvery none = .ok w₀)
    (hrun : (appendAll os entries).run w₀ = .ok () w) {lsn : ℕ}
    (hlt : lsn < entries.length) (damage : Damage dim) :
    Detected entries lsn (damage.apply w.file lsn) ↔
      damage.Noticed w.file lsn := by
  obtain rfl := new_none_eq_ok hnew
  have hcreated := Clean.created (new_dim_ne_zero hnew) checkpointEvery
  have hclean : Clean entries w := by
    simpa using hcreated.appendAll_eq_ok hrun
  exact hclean.detected_iff hlt damage

/-! ## Damage that is not detected -/

def zeroPair : Vec 2 := Vec.ofBytes 2 [0, 0, 0, 0, 0, 0, 0, 0]

/-- A log with one entry of two floats. -/
def pairLog : WAL 2 := appended (created 2 0) 7 zeroPair

theorem appendAll_pairLog :
    (appendAll OS.reliable [(7, zeroPair)]).run (created 2 0) =
      .ok () pairLog := by
  have hfits : entryPtr 2 ((created 2 0).nextLsn + 1) ≤
      (created 2 0).mapSize := by decide +kernel
  have hreserve : (reserve OS.reliable).run (created 2 0) =
      .ok () (reserved (created 2 0)) := by
    rw [reserved_of_fits hfits]
    exact reserve_of_fits hfits
  have happend := (created_holds 2 0).append_run hreserve
    (by rwa [reserved_of_fits hfits]) 7 zeroPair
  unfold appendAll
  rw [bind_of_ok happend]
  rfl

theorem pairLog_clean : Clean [(7, zeroPair)] pairLog := by
  have hcreated := Clean.created (show (2 : UInt32) ≠ 0 by decide) 0
  simpa using hcreated.appendAll_eq_ok appendAll_pairLog

/-- The vector id becomes 8. -/
def idDamage : Damage 2 where
  offset := vidOff
  bytes := [8]
  short := by decide
  inside := by decide

/-- Three bytes of the checksum and one of the payload. -/
def straddlingDamage : Damage 2 where
  offset := crcOff + 1
  bytes := [0xF5, 0xD6, 0x06, 0x19]
  short := by decide
  inside := by decide

/-- Both change the entry, and `replay` still hands it over, once with
another vector id and once with another payload. -/
theorem damage_undetected :
    (appendAll OS.reliable [(7, zeroPair)]).run (created 2 0) =
        .ok () pairLog ∧
      new OS.reliable 2 0 none = .ok (created 2 0) ∧
      (idDamage.Changes pairLog.file 0 vidOff ∧
        ¬ Detected [(7, zeroPair)] 0 (idDamage.apply pairLog.file 0) ∧
        (entryAt 2 (idDamage.apply pairLog.file 0) 0).vectorId = 8) ∧
      (straddlingDamage.Changes pairLog.file 0 dataOff ∧
        ¬ Detected [(7, zeroPair)] 0 (straddlingDamage.apply pairLog.file 0) ∧
        (entryAt 2 (straddlingDamage.apply pairLog.file 0) 0).vec ≠
          zeroPair) := by
  have hvalid := pairLog_clean.holds.valid 0 (by decide)
  refine ⟨appendAll_pairLog, new_none (by decide) (by decide) (by decide),
    ⟨by decide +kernel, ?_, by decide +kernel⟩,
    ⟨by decide +kernel, ?_, by decide +kernel⟩⟩
  · rw [pairLog_clean.detected_iff (by decide), Damage.noticed_iff hvalid]
    exact not_not.mpr (by decide +kernel)
  · rw [pairLog_clean.detected_iff (by decide), Damage.noticed_iff hvalid]
    exact not_not.mpr (by decide +kernel)

theorem damage_detected_payload :
    Detected [(7, zeroPair)] 0
        ((⟨dataOff, [1], by decide, by decide⟩ : Damage 2).apply
          pairLog.file 0) ↔
      (⟨dataOff, [1], by decide, by decide⟩ : Damage 2).Noticed
        pairLog.file 0 :=
  damage_detected_iff (new_none (by decide) (by decide) (by decide))
    appendAll_pairLog (by decide) _

end WAL
end VecDB
