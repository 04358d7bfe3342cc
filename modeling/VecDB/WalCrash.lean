import VecDB.WalRefinement
import VecDB.WalTornTail
import Mathlib.Tactic

/-!
# Stopping inside an append or a header update

A process that is killed leaves the stores it made so far.  Inside the stores
of an entry this costs at most that entry.  The header is not updated in one
store, and the constructor refuses a file whose header does not match its
checksum, so some stops inside the creation of a file or inside a checkpoint
leave a file that cannot be opened.
-/

namespace VecDB
namespace WAL

open LittleEndian

variable {dim : UInt32}

/-! ## Inside the stores of an entry -/

/-- The stores of `append` for entry `lsn`, a byte at a time. -/
def entryEffects (lsn : ℕ) (vectorId : UInt64) (vec : Vec dim) :
    List ByteFile.Effect :=
  (entryStores lsn vectorId vec).flatMap fun s => ByteFile.bytewise s.1 s.2

theorem entryEffects_eq (lsn : ℕ) (vectorId : UInt64) (vec : Vec dim) :
    entryEffects lsn vectorId vec =
      ByteFile.bytewise (entryPtr dim lsn) (entryBytes lsn vectorId vec) := by
  unfold entryBytes entryEffects entryStores
  rw [ByteFile.bytewise_append, ByteFile.bytewise_append,
    ByteFile.bytewise_append, ByteFile.bytewise_append]
  simp only [List.flatMap_cons, List.flatMap_nil, List.append_nil,
    length_encode, lsnOff, vidOff, dimOff, crcOff, dataOff, Nat.add_zero,
    Nat.add_assoc, Nat.reduceAdd]

theorem applyAll_take_entryEffects (file : ByteFile) (lsn : ℕ)
    (vectorId : UInt64) (vec : Vec dim) (count : ℕ) :
    file.applyAll ((entryEffects lsn vectorId vec).take count) =
      file.write (entryPtr dim lsn)
        ((entryBytes lsn vectorId vec).take count) := by
  rw [entryEffects_eq, ByteFile.applyAll_take_bytewise]

theorem Clean.appendAll_eq_ok {os : OS} {w w' : WAL dim}
    {entries more : List (UInt64 × Vec dim)} (h : Clean entries w)
    (hok : (appendAll os more).run w = .ok () w') :
    Clean (entries ++ more) w' := by
  induction more generalizing w entries with
  | nil =>
      cases hok
      rwa [List.append_nil]
  | cons entry more ih =>
      obtain ⟨vectorId, vec⟩ := entry
      unfold appendAll at hok
      obtain ⟨lsn, w₁, hfirst, hrest⟩ := bind_eq_ok.mp hok
      obtain ⟨_, rfl, hlt, hfits⟩ := h.holds.append_eq_ok hfirst
      have hstep := ih (h.appended hlt hfits vectorId vec) hrest
      simpa using hstep

theorem Clean.reserved {w : WAL dim} {entries : List (UInt64 × Vec dim)}
    (h : Clean entries w) (hlt : (WAL.reserved w).mapSize < 2 ^ 63) :
    Clean entries (WAL.reserved w) where
  dim_ne_zero := h.dim_ne_zero
  holds := h.holds.reserved hlt
  tail := by
    intro i hi
    rw [reserved_byte h.holds.mapSize_eq]
    exact h.tail i hi
  header := by
    rw [reserved_checkpointLsn, ← h.header]
    exact ByteFile.read_eq_of_byte (reserved_byte h.holds.mapSize_eq) 0 20
  ckpt_le := by
    rw [reserved_checkpointLsn, reserved_nextLsn]
    exact h.ckpt_le

/-- The log whose file got the first `count` bytes of the next entry. -/
def torn (w : WAL dim) (vectorId : UInt64) (vec : Vec dim) (count : ℕ) :
    WAL dim := { w with
  file := w.file.write (entryPtr dim w.nextLsn)
    ((entryBytes w.nextLsn vectorId vec).take count) }

section Torn

variable {w : WAL dim} {entries : List (UInt64 × Vec dim)}

theorem torn_byte_of_not_mem (w : WAL dim) (vectorId : UInt64)
    (vec : Vec dim) (count : ℕ) {i : ℕ}
    (hout : i < entryPtr dim w.nextLsn ∨
      entryPtr dim w.nextLsn + count ≤ i ∨
      entryPtr dim (w.nextLsn + 1) ≤ i) :
    (torn w vectorId vec count).file.byte i = w.file.byte i := by
  apply ByteFile.write_byte_of_not_mem
  rw [List.length_take, length_entryBytes]
  rw [entryPtr_succ] at hout
  omega

theorem Holds.torn (h : Holds w entries) (vectorId : UInt64)
    (vec : Vec dim) (count : ℕ) : Holds (torn w vectorId vec count) entries := by
  have hnext := h.next
  have hhead := headerSize_le_entryPtr dim w.nextLsn
  apply h.of_frame
  · exact h.mapped
  · exact h.mapSize_eq
  · exact le_rfl
  · exact h.mapSize_lt
  · rfl
  · refine Eq.trans ?_ h.header
    apply readHeader_congr
    intro i hi
    exact torn_byte_of_not_mem w vectorId vec count (Or.inl (by omega))
  · intro i _ hi
    rw [← hnext] at hi
    exact torn_byte_of_not_mem w vectorId vec count (Or.inl hi)

theorem Clean.torn_holds (h : Clean entries w) (vectorId : UInt64)
    (vec : Vec dim) (count : ℕ) : Holds (torn w vectorId vec count) entries :=
  h.holds.torn vectorId vec count

theorem Clean.not_torn_slotValid (h : Clean entries w) (vectorId : UInt64)
    (vec : Vec dim) {count : ℕ} (hcount : count ≤ dimOff) (mapSize : ℕ) :
    ¬ SlotValid dim (torn w vectorId vec count).file mapSize
      entries.length := by
  intro hvalid
  have hzero : storedDim dim (torn w vectorId vec count).file
      entries.length = 0 := by
    unfold storedDim
    rw [ByteFile.read_eq_replicate_zero, decode_replicate_zero]
    intro i hlo _
    rw [torn_byte_of_not_mem w vectorId vec count
      (Or.inr (Or.inl (by rw [h.holds.next]; omega)))]
    exact h.tail i (by omega)
  have hdim : dim.toNat = 0 := by
    rw [← hvalid.2.2.1, hzero]
  exact h.dim_ne_zero (UInt32.toNat_inj.mp (by simpa using hdim))

/-- A field that was stored whole before the stop. -/
theorem Holds.torn_read (h : Holds w entries) (vectorId : UInt64)
    (vec : Vec dim) (offset size : ℕ) {count : ℕ} (hcount : offset + size ≤ count)
    (hsize : offset + size ≤ entrySize dim)
    (hfits : entryPtr dim (w.nextLsn + 1) ≤ w.mapSize) :
    (WAL.torn w vectorId vec count).file.read
        (entryPtr dim w.nextLsn + offset) size =
      ((entryBytes w.nextLsn vectorId vec).drop offset).take size := by
  have hsucc := entryPtr_succ dim w.nextLsn
  have hmapSize := h.mapSize_eq
  have hlength := length_entryBytes w.nextLsn vectorId vec
  apply List.ext_getElem (by simp; omega)
  intro i hi hi'
  have hlt : i < size := by simpa using hi
  rw [ByteFile.getElem_read]
  unfold WAL.torn
  rw [ByteFile.write_byte_of_mem (by omega)
    (by rw [List.length_take, hlength]; omega) (by omega),
    Nat.add_assoc, Nat.add_sub_cancel_left,
    List.getD_eq_getElem _ _ (by rw [List.length_take, hlength]; omega)]
  simp

theorem Holds.torn_lsn (h : Holds w entries) (vectorId : UInt64)
    (vec : Vec dim) {count : ℕ} (hcount : vidOff ≤ count)
    (hfits : entryPtr dim (w.nextLsn + 1) ≤ w.mapSize) :
    storedLsn dim (WAL.torn w vectorId vec count).file entries.length =
      entries.length := by
  have hread := h.torn_read vectorId vec lsnOff 8 hcount
    (by unfold lsnOff entrySize fixedHdr; omega) hfits
  have hlt := h.length_lt
  rw [h.next] at hread
  unfold storedLsn
  rw [hread, lsnOff, List.drop_zero, entryBytes,
    List.take_left' (length_encode _ _), decode_encode_of_lt (by omega)]

theorem Holds.torn_vectorId (h : Holds w entries) (vectorId : UInt64)
    (vec : Vec dim) {count : ℕ} (hcount : dimOff ≤ count)
    (hfits : entryPtr dim (w.nextLsn + 1) ≤ w.mapSize) :
    storedVectorId dim (WAL.torn w vectorId vec count).file entries.length =
      vectorId := by
  have hread := h.torn_read vectorId vec vidOff 8 hcount
    (by unfold vidOff entrySize fixedHdr; omega) hfits
  rw [h.next] at hread
  unfold storedVectorId
  rw [hread, vidOff, entryBytes, List.drop_left' (length_encode _ _),
    List.take_left' (length_encode _ _),
    decode_encode_of_lt vectorId.toNat_lt, UInt64.ofNat_toNat]

theorem Clean.torn_vectorId (h : Clean entries w) (vectorId : UInt64)
    (vec : Vec dim) {count : ℕ} (hcount : dimOff ≤ count)
    (hfits : entryPtr dim (w.nextLsn + 1) ≤ w.mapSize) :
    storedVectorId dim (torn w vectorId vec count).file entries.length =
      vectorId :=
  h.holds.torn_vectorId vectorId vec hcount hfits

end Torn

/-- A checksum that fits the payload on file is the one of the entry in
flight. -/
def NoCollision (dim : UInt32) (file : ByteFile) (lsn : ℕ) (vec : Vec dim) :
    Prop :=
  storedCrc dim file lsn = (crc32 (storedPayload dim file lsn)).toNat →
    storedCrc dim file lsn = (crc32 vec.bytes).toNat ∧
      storedPayload dim file lsn = vec.bytes

/-- A process that stops after any number of the bytes that the next `append`
stores leaves a file that replays the completed entries, or these and the
entry in flight. -/
theorem replay_after_torn_append {os : OS} (hentry : entrySize dim ≤ growSize)
    {entries : List (UInt64 × Vec dim)} {w₀ w w₁ : WAL dim}
    (hnew : new os dim 0 none = .ok w₀)
    (hrun : (appendAll os entries).run w₀ = .ok () w)
    (hreserve : (reserve os).run w = .ok () w₁)
    (vectorId : UInt64) (vec : Vec dim) (count : ℕ)
    (hcrc : NoCollision dim (w₁.file.applyAll
      ((entryEffects entries.length vectorId vec).take count))
      entries.length vec) (checkpointEvery : ℕ) :
    ∃ w', new OS.reliable dim checkpointEvery (some (w₁.file.applyAll
        ((entryEffects entries.length vectorId vec).take count))) = .ok w' ∧
      (w'.replay = (numbered entries, entries.length) ∨
        w'.replay = (numbered (entries ++ [(vectorId, vec)]),
          entries.length + 1)) := by
  obtain rfl := new_none_eq_ok hnew
  have hclean : Clean entries w := by
    have hcreated := Clean.created (new_dim_ne_zero hnew) 0
    simpa using hcreated.appendAll_eq_ok hrun
  obtain ⟨rfl, hlt⟩ := reserve_eq_ok hclean.holds.mapped
    hclean.holds.mapSize_lt hreserve
  have hroom := entryPtr_le_reserved hentry
    (hclean.holds.next ▸ hclean.holds.fits)
  rw [← reserved_nextLsn] at hroom
  replace hclean := hclean.reserved hlt
  generalize reserved w = r at *
  have hlen := hclean.holds.next
  have hfile : r.file.applyAll
      ((entryEffects entries.length vectorId vec).take count) =
      (torn r vectorId vec count).file := by
    rw [applyAll_take_entryEffects, ← hlen]
    rfl
  rw [hfile] at hcrc ⊢
  have htorn := hclean.torn_holds vectorId vec count
  have hos : OS.reliable.ftruncate r.mapSize = true := by
    simpa [OS.reliable] using hlt
  by_cases hslot : SlotValid dim (torn r vectorId vec count).file r.mapSize
      entries.length
  · -- the slot passes the scan, so its entry is the one in flight
    obtain ⟨_, hpayload⟩ := hcrc hslot.2.2.2
    have hdimOff : dimOff ≤ count := by
      by_contra hnot
      exact hclean.not_torn_slotValid vectorId vec (by omega) _ hslot
    have hentryAt : entryAt dim (torn r vectorId vec count).file
        entries.length = ⟨entries.length, vectorId, dim.toNat, vec⟩ := by
      unfold entryAt
      rw [hclean.torn_vectorId vectorId vec hdimOff hroom, hslot.2.2.1,
        hpayload, Vec.ofBytes_bytes]
    have hextended := htorn.extend vectorId vec hslot hentryAt
    have hstop : ¬ SlotValid dim (torn r vectorId vec count).file r.mapSize
        (entries ++ [(vectorId, vec)]).length := by
      rw [List.length_append, List.length_singleton]
      apply not_slotValid_of_zero hclean.dim_ne_zero
      intro i hi
      have hmono := entryPtr_mono dim (Nat.le_add_right entries.length 1)
      rw [torn_byte_of_not_mem r vectorId vec count
        (Or.inr (Or.inr (by rwa [hlen])))]
      exact hclean.tail i (by omega)
    refine ⟨_, hextended.new_close checkpointEvery hclean.dim_ne_zero hstop
      hos hos, Or.inr ?_⟩
    have hreplay := (hextended.bookkeeping checkpointEvery 0).replay hstop
    rwa [List.length_append, List.length_singleton] at hreplay
  · refine ⟨_, htorn.new_close checkpointEvery hclean.dim_ne_zero hslot
      hos hos, Or.inl ?_⟩
    exact (htorn.bookkeeping checkpointEvery 0).replay hslot

/-! ## Inside a header update -/

/-- The stores of `write_header`. -/
def writeHeaderEffects (dim : UInt32) (file : ByteFile) (checkpointLsn : ℕ) :
    List ByteFile.Effect :=
  let fields := (headerStores dim checkpointLsn).map Store.effect
  fields ++ [.store 20 (encode 4 (headerCrc (file.applyAll fields)).toNat)]

/-- What the constructor does to a file that `open` has just created. -/
def creationEffects (dim : UInt32) : List ByteFile.Effect :=
  .resize initialSize ::
    writeHeaderEffects dim (ByteFile.empty.resize initialSize) 0

/-- What is on the path after `steps` steps of the creation of a log, the
`open` being the first. -/
def creationImage (dim : UInt32) : ℕ → Option ByteFile
  | 0 => none
  | steps + 1 =>
      some (ByteFile.empty.applyAll ((creationEffects dim).take steps))

/-- The stores of `checkpoint`. -/
def checkpointEffects (w : WAL dim) : List ByteFile.Effect :=
  [.store 8 (encode 8 w.nextLsn),
    .store 20 (encode 4
      (headerCrc (w.file.write 8 (encode 8 w.nextLsn))).toNat)]

theorem applyAll_writeHeaderEffects (file : ByteFile) (checkpointLsn : ℕ) :
    file.applyAll (writeHeaderEffects dim file checkpointLsn) =
      headerImage dim file checkpointLsn := by
  unfold writeHeaderEffects headerImage
  rw [ByteFile.applyAll_append, applyAll_headerStores]
  rfl

theorem applyAll_creationEffects (checkpointEvery : ℕ) :
    ByteFile.empty.applyAll (creationEffects dim) =
      (created dim checkpointEvery).file :=
  applyAll_writeHeaderEffects (ByteFile.empty.resize initialSize) 0

theorem applyAll_checkpointEffects (w : WAL dim) :
    w.file.applyAll (checkpointEffects w) = (checkpointed w).file := rfl

/-- What is on the path opens, and replays at least the entries. -/
def Recovers (dim : UInt32) (path : Option ByteFile)
    (entries : List (UInt64 × Vec dim)) : Prop :=
  ∀ checkpointEvery, ∃ w, new OS.reliable dim checkpointEvery path = .ok w ∧
    numbered entries <+: w.replay.1

theorem numbered_prefix {entries all : List (UInt64 × Vec dim)}
    (hpre : entries <+: all) : numbered entries <+: numbered all := by
  obtain ⟨more, rfl⟩ := hpre
  rw [numbered_append]
  exact List.prefix_append _ _

theorem Clean.recovers {w : WAL dim} {entries all : List (UInt64 × Vec dim)}
    (h : Clean all w) (hpre : entries <+: all) :
    Recovers dim (some w.file) entries := by
  intro checkpointEvery
  refine ⟨_, h.new_close checkpointEvery, ?_⟩
  rw [(h.bookkeeping checkpointEvery 0).replay]
  exact numbered_prefix hpre

theorem Clean.read_crc {w : WAL dim} {entries : List (UInt64 × Vec dim)}
    (h : Clean entries w) : w.file.read 20 4 =
      encode 4 (crc32 (headerBytes dim w.checkpointLsn)).toNat := by
  have hcrc := (readHeader_eq_ok.mp h.holds.header).2.2.1
  unfold headerCrc at hcrc
  rw [h.header] at hcrc
  rw [← hcrc]
  have hread := encode_decode (w.file.read 20 4)
  rw [ByteFile.length_read] at hread
  exact hread.symm

/-- After the first store of a checkpoint the file opens exactly when the new
fields have the checksum of the old ones. -/
theorem Clean.readHeader_checkpointing {w : WAL dim}
    {entries : List (UInt64 × Vec dim)} (h : Clean entries w) {ckptLsn : ℕ} :
    readHeader dim (w.file.write 8 (encode 8 w.nextLsn)) = .ok ckptLsn ↔
      crc32 (headerBytes dim w.nextLsn) =
          crc32 (headerBytes dim w.checkpointLsn) ∧ ckptLsn = w.nextLsn := by
  have hsize := h.holds.headerSize_le
  have hlt := h.holds.length_lt
  have hnext : w.nextLsn < 2 ^ 64 := by
    rw [h.holds.next]
    omega
  have hfields := read_write_checkpoint hsize h.header w.nextLsn
  have hstored : (w.file.write 8 (encode 8 w.nextLsn)).read 20 4 =
      encode 4 (crc32 (headerBytes dim w.checkpointLsn)).toNat := by
    rw [ByteFile.read_write_of_disjoint (by simp)]
    exact h.read_crc
  have hckpt := ByteFile.read_write_self w.file 8 (encode 8 w.nextLsn)
    (by unfold headerSize at hsize; simp; omega)
  rw [length_encode] at hckpt
  constructor
  · intro hok
    obtain ⟨_, _, hcrc, _, hfield⟩ := readHeader_eq_ok.mp hok
    rw [hstored, decode_encode_of_lt (UInt32.toNat_lt _)] at hcrc
    unfold headerCrc at hcrc
    rw [hfields] at hcrc
    rw [hckpt, decode_encode_of_lt hnext] at hfield
    exact ⟨(UInt32.toNat_inj.mp hcrc).symm, hfield.symm⟩
  · rintro ⟨hcrc, rfl⟩
    apply readHeader_of_bytes hfields _ hnext
    rw [hstored, hcrc]

theorem Clean.checkpointing {w : WAL dim} {entries : List (UInt64 × Vec dim)}
    (h : Clean entries w)
    (hcrc : crc32 (headerBytes dim w.nextLsn) =
      crc32 (headerBytes dim w.checkpointLsn)) :
    Clean entries { w with
      file := w.file.write 8 (encode 8 w.nextLsn)
      checkpointLsn := w.nextLsn } := by
  have hbyte : ∀ i, headerSize ≤ i →
      (w.file.write 8 (encode 8 w.nextLsn)).byte i = w.file.byte i := by
    intro i hi
    unfold headerSize at hi
    exact ByteFile.write_byte_of_not_mem (by simp; omega)
  refine ⟨h.dim_ne_zero, ?_, ?_, ?_, le_rfl⟩
  · apply h.holds.of_frame
    · exact h.holds.mapped
    · exact h.holds.mapSize_eq
    · exact le_rfl
    · exact h.holds.mapSize_lt
    · rfl
    · exact h.readHeader_checkpointing.mpr ⟨hcrc, rfl⟩
    · intro i hlo _
      exact hbyte i hlo
  · intro i hi
    have hhead := headerSize_le_entryPtr dim entries.length
    rw [hbyte i (by omega)]
    exact h.tail i hi
  · exact read_write_checkpoint h.holds.headerSize_le h.header w.nextLsn

theorem Clean.recovers_checkpointing_iff {w : WAL dim}
    {entries all : List (UInt64 × Vec dim)} (h : Clean all w)
    (hpre : entries <+: all) (stores : ℕ) :
    Recovers dim (some (w.file.applyAll ((checkpointEffects w).take stores)))
        entries ↔
      (stores = 1 → crc32 (headerBytes dim w.nextLsn) =
        crc32 (headerBytes dim w.checkpointLsn)) := by
  match stores with
  | 0 =>
      have hbefore : Recovers dim (some w.file) entries := h.recovers hpre
      exact ⟨fun _ hone => absurd hone (by decide), fun _ => hbefore⟩
  | 1 =>
      constructor
      · intro hrecovers _
        obtain ⟨w', hnew, _⟩ := hrecovers 0
        obtain ⟨_, _, ckptLsn, hheader, _⟩ := new_some_eq_ok hnew
        have hopened : opened (w.file.write 8 (encode 8 w.nextLsn)) =
            w.file.write 8 (encode 8 w.nextLsn) :=
          opened_of_le (h.holds.mapSize_eq ▸ h.holds.initial_le)
        rw [show w.file.applyAll ((checkpointEffects w).take 1) =
          w.file.write 8 (encode 8 w.nextLsn) from rfl, hopened] at hheader
        exact (h.readHeader_checkpointing.mp hheader).1
      · intro hcrc
        exact (h.checkpointing (hcrc rfl)).recovers hpre
  | stores + 2 =>
      have hafter : Recovers dim (some (WAL.checkpointed w).file) entries :=
        h.checkpointed.recovers hpre
      have htake : (checkpointEffects w).take (stores + 2) =
          checkpointEffects w := by simp [checkpointEffects]
      rw [htake, applyAll_checkpointEffects]
      exact ⟨fun _ hone => absurd hone (by omega), fun _ => hafter⟩

/-- The file a creation leaves after `open`, `ftruncate` and some of the
stores. -/
def partlyCreated (dim : UInt32) (stores : ℕ) : ByteFile :=
  ByteFile.empty.applyAll ((creationEffects dim).take (stores + 1))

theorem partlyCreated_eq {stores : ℕ} (hstores : stores ≤ 5) :
    partlyCreated dim stores = (ByteFile.empty.resize initialSize).applyAll
      (((headerStores dim 0).map Store.effect).take stores) := by
  unfold partlyCreated creationEffects writeHeaderEffects
  rw [List.take_succ_cons, List.take_append_of_le_length
    (by simpa [headerStores] using hstores), ByteFile.applyAll_cons]
  rfl

theorem readHeader_partlyCreated {stores ckptLsn : ℕ} (hstores : stores < 5) :
    readHeader dim (opened (partlyCreated dim stores)) ≠ .ok ckptLsn := by
  have hsame : partlyCreated dim stores = partlyCreated 0 stores := by
    rw [partlyCreated_eq hstores.le, partlyCreated_eq hstores.le]
    interval_cases stores <;>
      simp only [headerStores, List.map_cons, List.take_succ_cons,
        List.take_zero]
  have hcrc : decode ((opened (partlyCreated 0 stores)).read 20 4) ≠
      (headerCrc (opened (partlyCreated 0 stores))).toNat := by
    interval_cases stores <;> decide +kernel
  intro hok
  rw [hsame] at hok
  exact hcrc (readHeader_eq_ok.mp hok).2.2.1

/-- With every field stored the checksum on file is still zero. -/
theorem readHeader_fieldsCreated {ckptLsn : ℕ} :
    readHeader dim (opened (partlyCreated dim 5)) = .ok ckptLsn ↔
      crc32 (headerBytes dim 0) = 0 ∧ ckptLsn = 0 := by
  have hfile : partlyCreated dim 5 =
      ((ByteFile.empty.resize initialSize).write 0
        (List.replicate headerSize 0)).write 0 (headerBytes dim 0) := by
    rw [partlyCreated_eq le_rfl, ← applyAll_headerStores]
    rfl
  have hopened : opened (partlyCreated dim 5) = partlyCreated dim 5 := by
    rw [hfile]
    exact opened_of_le le_rfl
  have hfields : (partlyCreated dim 5).read 0 20 = headerBytes dim 0 := by
    rw [hfile]
    have hread := ByteFile.read_write_self
      ((ByteFile.empty.resize initialSize).write 0
        (List.replicate headerSize 0)) 0 (headerBytes dim 0)
      (by simp [initialSize])
    rwa [length_headerBytes] at hread
  have hzero : (partlyCreated dim 5).read 20 4 = List.replicate 4 0 := by
    rw [hfile, ByteFile.read_write_of_disjoint (by simp)]
    decide +kernel
  have hiff : crc32 (headerBytes dim 0) = 0 →
      readHeader dim (partlyCreated dim 5) = .ok 0 := by
    intro hcrc
    apply readHeader_of_bytes hfields _ (by decide)
    rw [hzero, hcrc]
    rfl
  rw [hopened]
  constructor
  · intro hok
    have hcrc := (readHeader_eq_ok.mp hok).2.2.1
    unfold headerCrc at hcrc
    rw [hzero, decode_replicate_zero, hfields] at hcrc
    have hcrcZero : crc32 (headerBytes dim 0) = 0 :=
      UInt32.toNat_inj.mp hcrc.symm
    rw [hiff hcrcZero] at hok
    exact ⟨hcrcZero, (Except.ok.inj hok).symm⟩
  · rintro ⟨hcrc, rfl⟩
    exact hiff hcrc

theorem recovers_creating_iff (hdim : dim ≠ 0) (steps : ℕ) :
    Recovers dim (creationImage dim steps) [] ↔
      steps = 0 ∨ 8 ≤ steps ∨ steps = 7 ∧ crc32 (headerBytes dim 0) = 0 := by
  match steps with
  | 0 =>
      refine ⟨fun _ => Or.inl rfl, fun _ checkpointEvery => ?_⟩
      exact ⟨_, new_none hdim (by decide) (by decide), List.nil_prefix⟩
  | 1 =>
      constructor
      · intro hrecovers
        obtain ⟨w, hnew, _⟩ := hrecovers 0
        have hsmall : headerSize ≤ 0 := (new_some_eq_ok hnew).1
        exact absurd hsmall (by decide)
      · intro h
        omega
  | stores + 2 =>
      have himage : creationImage dim (stores + 2) =
          some (partlyCreated dim stores) := rfl
      rw [himage]
      rcases lt_trichotomy stores 5 with hlt | rfl | hgt
      · constructor
        · intro hrecovers
          obtain ⟨w, hnew, _⟩ := hrecovers 0
          obtain ⟨_, _, ckptLsn, hheader, _⟩ := new_some_eq_ok hnew
          exact (readHeader_partlyCreated hlt hheader).elim
        · intro h
          omega
      · have hsize : (partlyCreated dim 5).size = initialSize := by
          rw [partlyCreated_eq le_rfl]
          rfl
        constructor
        · intro hrecovers
          obtain ⟨w, hnew, _⟩ := hrecovers 0
          obtain ⟨_, _, ckptLsn, hheader, _⟩ := new_some_eq_ok hnew
          exact Or.inr (Or.inr ⟨rfl, (readHeader_fieldsCreated.mp hheader).1⟩)
        · rintro (h | h | ⟨_, hcrc⟩) checkpointEvery
          · omega
          · omega
          · refine ⟨_, new_some hdim ?_ ?_ ?_
              (readHeader_fieldsCreated.mpr ⟨hcrc, rfl⟩), List.nil_prefix⟩
            · rw [hsize]
              decide
            · rw [hsize]
              decide
            · rw [hsize]
              decide
      · have hwhole : partlyCreated dim stores = (created dim 0).file := by
          have htake : (creationEffects dim).take (stores + 1) =
              creationEffects dim := by
            apply List.take_of_length_le
            simp [creationEffects, writeHeaderEffects, headerStores]
            omega
          unfold partlyCreated
          rw [htake, applyAll_creationEffects 0]
        rw [hwhole]
        refine ⟨fun _ => Or.inr (Or.inl (by omega)), fun _ => ?_⟩
        exact (Clean.created hdim 0).recovers List.prefix_rfl

/-- Where a process stops inside a header update. -/
inductive Stop (dim : UInt32) where
  | creating (steps : ℕ)
  | checkpointing (w : WAL dim) (stores : ℕ)

namespace Stop

/-- What the stop leaves on the path. -/
def image : Stop dim → Option ByteFile
  | creating steps => creationImage dim steps
  | checkpointing w stores =>
      some (w.file.applyAll ((checkpointEffects w).take stores))

/-- The stops of a run and of the append after it, with the entries whose
append had completed. -/
inductive Reached (os : OS) (checkpointEvery : ℕ) (ops : List (Op dim)) :
    Stop dim → List (UInt64 × Vec dim) → Prop
  | creating (steps : ℕ) :
      Reached os checkpointEvery ops (.creating steps) []
  | checkpoint {w : WAL dim} {outs : List (Option ℕ)}
      (hrun : runLog os checkpointEvery ops = .ok (w, outs)) (stores : ℕ) :
      Reached os checkpointEvery ops (.checkpointing w stores) (specLog ops).1
  | append {w w' : WAL dim} {outs : List (Option ℕ)} {lsn : ℕ}
      {vectorId : UInt64} {vec : Vec dim}
      (hrun : runLog os checkpointEvery ops = .ok (w, outs))
      (hwrite : (writeEntry os vectorId vec).run w = .ok lsn w')
      (hdue : 0 < w'.checkpointEvery ∧ w'.checkpointEvery ≤ w'.appendsSinceCkpt)
      (stores : ℕ) :
      Reached os checkpointEvery ops (.checkpointing w' stores) (specLog ops).1

/-- The header is as it was before the update or as it is after it, or its
checksum happens to fit in between. -/
def HeaderMatches : Stop dim → Prop
  | creating steps =>
      steps = 0 ∨ 8 ≤ steps ∨ steps = 7 ∧ crc32 (headerBytes dim 0) = 0
  | checkpointing w stores =>
      stores = 1 → crc32 (headerBytes dim w.nextLsn) =
        crc32 (headerBytes dim w.checkpointLsn)

end Stop

/-- A stop inside a header update leaves a file that opens and replays every
completed entry if and only if the header matches its checksum there. -/
theorem recovers_iff_headerMatches (hdim : dim ≠ 0) {os : OS}
    {checkpointEvery : ℕ} {ops : List (Op dim)} {stop : Stop dim}
    {entries : List (UInt64 × Vec dim)}
    (hreached : stop.Reached os checkpointEvery ops entries) :
    Recovers dim stop.image entries ↔ stop.HeaderMatches := by
  cases hreached with
  | creating steps => exact recovers_creating_iff hdim steps
  | checkpoint hrun stores =>
      exact (runLog_eq_ok hrun).recovers_checkpointing_iff List.prefix_rfl
        stores
  | append hrun hwrite hdue stores =>
      rename_i lsn vectorId vec
      have hclean := runLog_eq_ok hrun
      obtain ⟨_, rfl, hlt, hfits⟩ := hclean.holds.writeEntry_eq_ok hwrite
      exact (hclean.stored hlt hfits vectorId vec).recovers_checkpointing_iff
        (List.prefix_append _ _) stores

/-- A log with one entry. -/
def single : WAL 1 := appended (created 1 0) 7 (Vec.ofBytes 1 [1, 2, 3, 4])

theorem append_single :
    (append OS.reliable 7 (Vec.ofBytes 1 [1, 2, 3, 4])).run (created 1 0) =
      .ok 0 single := by
  have hreserve : (reserve OS.reliable).run (created 1 0) =
      .ok () (reserved (created 1 0)) :=
    reserve_run rfl (by decide) (by decide)
  exact (created_holds 1 0).append_run hreserve (by decide +kernel) 7
    (Vec.ofBytes 1 [1, 2, 3, 4])

theorem runLog_single :
    runLog OS.reliable 0 [.append 7 (Vec.ofBytes 1 [1, 2, 3, 4])] =
      .ok (single, [some 0]) := by
  have hnew : new OS.reliable 1 0 none = .ok (created 1 0) :=
    new_none (by decide) (by decide) (by decide)
  unfold runLog
  rw [hnew]
  simp only [Simulation.run, Op.step, append_single]

/-- One entry is appended, a checkpoint stops after its first store, and the
constructor refuses the file. -/
theorem checkpoint_stop_unreadable :
    ∃ stop, Stop.Reached OS.reliable 0
        [.append 7 (Vec.ofBytes 1 [1, 2, 3, 4])] stop
        [(7, Vec.ofBytes 1 [1, 2, 3, 4])] ∧
      (∃ file, stop.image = some file ∧
        new OS.reliable 1 0 (some file) = .error (.runtimeError
          "WAL: header CRC mismatch — file may be corrupt")) ∧
      ¬ Recovers 1 stop.image [(7, Vec.ofBytes 1 [1, 2, 3, 4])] := by
  have hrefused : new OS.reliable 1 0
      (some (single.file.write 8 (encode 8 1))) = .error (.runtimeError
        "WAL: header CRC mismatch — file may be corrupt") :=
    new_some_error (by decide) (by decide +kernel) (by decide +kernel)
      (by decide +kernel) (by decide +kernel)
  refine ⟨_, .checkpoint runLog_single 1, ⟨_, rfl, hrefused⟩, ?_⟩
  intro hrecovers
  obtain ⟨w, hnew, _⟩ := hrecovers 0
  have hsame := hrefused.symm.trans hnew
  cases hsame

/-- A stop behind both stores of the checkpoint. -/
theorem recovers_after_checkpoint :
    readHeader 1 (single.file.applyAll ((checkpointEffects single).take 2)) =
        .ok 1 ∧
      Recovers 1
        (some (single.file.applyAll ((checkpointEffects single).take 2)))
        [(7, Vec.ofBytes 1 [1, 2, 3, 4])] :=
  ⟨by decide +kernel, (recovers_iff_headerMatches (by decide)
    (.checkpoint runLog_single 2)).mpr fun hone => absurd hone (by decide)⟩

theorem replay_after_torn_append_checksum :
    ∃ w', new OS.reliable 1 3 (some (single.file.applyAll
          ((entryEffects 1 8 (Vec.ofBytes 1 [5, 6, 7, 8])).take 22))) =
        .ok w' ∧
      (w'.replay = (numbered [(7, Vec.ofBytes 1 [1, 2, 3, 4])], 1) ∨
        w'.replay = (numbered [(7, Vec.ofBytes 1 [1, 2, 3, 4]),
          (8, Vec.ofBytes 1 [5, 6, 7, 8])], 2)) := by
  have hnew : new OS.reliable 1 0 none = .ok (created 1 0) :=
    new_none (by decide) (by decide) (by decide)
  have hrun : (appendAll OS.reliable [(7, Vec.ofBytes 1 [1, 2, 3, 4])]).run
      (created 1 0) = .ok () single := by
    unfold appendAll
    rw [bind_of_ok append_single]
    rfl
  have hreserve : (reserve OS.reliable).run single = .ok () single :=
    reserve_of_fits (by decide +kernel)
  refine replay_after_torn_append (by decide) hnew hrun hreserve 8
    (Vec.ofBytes 1 [5, 6, 7, 8]) 22 ?_ 3
  intro hcrc
  exact absurd hcrc (by decide +kernel)

end WAL
end VecDB
