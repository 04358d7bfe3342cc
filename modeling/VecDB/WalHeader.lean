import VecDB.WalEntries
import Mathlib.Tactic

/-!
# Stores through the mapping and the file header

Stores inside the mapping always succeed and act on the file as effects.
From this follow the bytes of an entry and of a header, and that both writers
of the header leave one the constructor accepts.
-/

namespace VecDB
namespace WAL

open LittleEndian

variable {dim : UInt32}

/-! ## Stores -/

theorem store_eq_ok {offset : ℕ} {bytes : List UInt8} {w w' : WAL dim} :
    (store offset bytes).run w = .ok () w' ↔
      w.mapped = true ∧ offset + bytes.length ≤ w.mapSize ∧
        w' = { w with file := w.file.write offset bytes } := by
  unfold store EStateM.run
  dsimp only
  split_ifs with h
  · simp [h, eq_comm]
  · simp only [false_iff, not_and]
    intro hmapped hfits
    exact (h ⟨hmapped, hfits⟩).elim

theorem storeAll_of_fits {stores : List Store} {w : WAL dim}
    (hmapped : w.mapped = true)
    (hfits : ∀ s ∈ stores, s.1 + s.2.length ≤ w.mapSize) :
    (storeAll stores).run w = .ok () { w with
      file := w.file.applyAll (stores.map Store.effect) } := by
  induction stores generalizing w with
  | nil => rfl
  | cons head rest ih =>
      obtain ⟨offset, bytes⟩ := head
      have hhead : (store offset bytes).run w =
          .ok () { w with file := w.file.write offset bytes } :=
        store_eq_ok.mpr ⟨hmapped, hfits _ List.mem_cons_self, rfl⟩
      have hrest : ∀ s ∈ rest, s.1 + s.2.length ≤ w.mapSize :=
        fun s hs => hfits s (List.mem_cons_of_mem _ hs)
      rw [storeAll, bind_of_ok hhead]
      exact ih hmapped hrest

theorem storeAll_eq_ok {stores : List Store} {w w' : WAL dim}
    (hok : (storeAll stores).run w = .ok () w') :
    (∀ s ∈ stores, w.mapped = true ∧ s.1 + s.2.length ≤ w.mapSize) ∧
      w' = { w with file := w.file.applyAll (stores.map Store.effect) } := by
  induction stores generalizing w with
  | nil =>
      cases hok
      simp
  | cons head rest ih =>
      obtain ⟨offset, bytes⟩ := head
      rw [storeAll, bind_eq_ok] at hok
      obtain ⟨_, w₁, hhead, hrest⟩ := hok
      obtain ⟨hmapped, hfits, rfl⟩ := store_eq_ok.mp hhead
      obtain ⟨hall, rfl⟩ := ih hrest
      refine ⟨?_, rfl⟩
      intro s hs
      rcases List.mem_cons.mp hs with rfl | hs
      · exact ⟨hmapped, hfits⟩
      · exact hall s hs

theorem applyAll_entryStores (file : ByteFile) (lsn : ℕ) (vectorId : UInt64)
    (vec : Vec dim) :
    file.applyAll ((entryStores lsn vectorId vec).map Store.effect) =
      file.write (entryPtr dim lsn) (entryBytes lsn vectorId vec) := by
  have hlsn : entryPtr dim lsn + lsnOff = entryPtr dim lsn := rfl
  have hvid : entryPtr dim lsn + vidOff =
      entryPtr dim lsn + (encode 8 lsn).length := by simp [vidOff]
  have hdim : entryPtr dim lsn + dimOff = entryPtr dim lsn +
      (encode 8 lsn ++ encode 8 vectorId.toNat).length := by simp [dimOff]
  have hcrc : entryPtr dim lsn + crcOff = entryPtr dim lsn +
      ((encode 8 lsn ++ encode 8 vectorId.toNat) ++
        encode 4 dim.toNat).length := by simp [crcOff]
  have hdata : entryPtr dim lsn + dataOff = entryPtr dim lsn +
      (((encode 8 lsn ++ encode 8 vectorId.toNat) ++ encode 4 dim.toNat) ++
        encode 4 (crc32 vec.bytes).toNat).length := by simp [dataOff]
  simp only [entryStores, List.map_cons, List.map_nil, Store.effect,
    ByteFile.applyAll_cons, ByteFile.applyAll_nil, ByteFile.Effect.apply]
  rw [hlsn, hvid, ByteFile.write_write_append, hdim, ByteFile.write_write_append,
    hcrc, ByteFile.write_write_append, hdata, ByteFile.write_write_append]
  simp only [entryBytes, List.append_assoc]

/-! ## The header -/

/-- The first 20 bytes of a header. -/
def headerBytes (dim : UInt32) (checkpointLsn : ℕ) : List UInt8 :=
  encode 4 magic ++ encode 4 version ++ encode 8 checkpointLsn ++
    encode 4 dim.toNat

@[simp] theorem length_headerBytes (dim : UInt32) (checkpointLsn : ℕ) :
    (headerBytes dim checkpointLsn).length = 20 := by
  simp [headerBytes]

theorem applyAll_headerStores (file : ByteFile) (checkpointLsn : ℕ) :
    file.applyAll ((headerStores dim checkpointLsn).map Store.effect) =
      (file.write 0 (List.replicate headerSize 0)).write 0
        (headerBytes dim checkpointLsn) := by
  have h₁ : 4 = 0 + (encode 4 magic).length := by simp
  have h₂ : 8 = 0 + (encode 4 magic ++ encode 4 version).length := by simp
  have h₃ : 16 = 0 + ((encode 4 magic ++ encode 4 version) ++
      encode 8 checkpointLsn).length := by simp
  simp only [headerStores, List.map_cons, List.map_nil, Store.effect,
    ByteFile.applyAll_cons, ByteFile.applyAll_nil, ByteFile.Effect.apply]
  generalize file.write 0 (List.replicate headerSize 0) = cleared
  have hversion := ByteFile.write_write_append cleared 0 (encode 4 magic)
    (encode 4 version)
  rw [← h₁] at hversion
  have hckpt := ByteFile.write_write_append cleared 0
    (encode 4 magic ++ encode 4 version) (encode 8 checkpointLsn)
  rw [← h₂] at hckpt
  have hdim := ByteFile.write_write_append cleared 0
    ((encode 4 magic ++ encode 4 version) ++ encode 8 checkpointLsn)
    (encode 4 dim.toNat)
  rw [← h₃] at hdim
  rw [hversion, hckpt, hdim]
  rfl

theorem readHeader_congr {file other : ByteFile}
    (hbyte : ∀ i < headerSize, file.byte i = other.byte i) :
    readHeader dim file = readHeader dim other := by
  have hread : ∀ offset count, offset + count ≤ headerSize →
      file.read offset count = other.read offset count := by
    intro offset count hle
    exact ByteFile.read_congr fun i _ hhi => hbyte i (by omega)
  unfold readHeader headerCrc
  rw [hread 0 4 (by decide), hread 4 4 (by decide), hread 8 8 (by decide),
    hread 16 4 (by decide), hread 20 4 (by decide), hread 0 20 (by decide)]

theorem readHeader_eq_ok {file : ByteFile} {ckpt : ℕ} :
    readHeader dim file = .ok ckpt ↔
      decode (file.read 0 4) = magic ∧ decode (file.read 4 4) = version ∧
        decode (file.read 20 4) = (headerCrc file).toNat ∧
        (decode (file.read 16 4) = 0 ∨
          decode (file.read 16 4) = dim.toNat) ∧
        decode (file.read 8 8) = ckpt := by
  unfold readHeader
  dsimp only
  split_ifs with hmagic hversion hcrc hdim
  · simp only [false_iff]
    exact fun h => hmagic h.1
  · simp only [false_iff]
    exact fun h => hversion h.2.1
  · simp only [false_iff]
    exact fun h => hcrc h.2.2.1
  · simp only [false_iff]
    rintro ⟨_, _, _, hor, _⟩
    exact hor.elim hdim.1 hdim.2
  · simp only [Except.ok.injEq]
    have hor : decode (file.read 16 4) = 0 ∨
        decode (file.read 16 4) = dim.toNat := by
      by_contra hnot
      exact hdim (not_or.mp hnot)
    exact ⟨fun h => ⟨not_not.mp hmagic, not_not.mp hversion,
      not_not.mp hcrc, hor, h⟩, fun h => h.2.2.2.2⟩

/-- The header `write_header` leaves is accepted and records the checkpoint. -/
theorem readHeader_of_bytes {file : ByteFile} {ckpt : ℕ}
    (hfields : file.read 0 20 = headerBytes dim ckpt)
    (hcrc : file.read 20 4 =
      encode 4 (crc32 (headerBytes dim ckpt)).toNat)
    (hckpt : ckpt < 2 ^ 64) :
    readHeader dim file = .ok ckpt := by
  have hsplit : file.read 0 20 = file.read 0 4 ++ (file.read 4 4 ++
      (file.read 8 8 ++ file.read 16 4)) := by
    rw [show 20 = 4 + (4 + (8 + 4)) by rfl]
    simp only [ByteFile.read_append]
  rw [hsplit, headerBytes, List.append_assoc, List.append_assoc] at hfields
  obtain ⟨hmagic, hfields⟩ := List.append_inj hfields (by simp)
  obtain ⟨hversion, hfields⟩ := List.append_inj hfields (by simp)
  obtain ⟨hckptField, hdimField⟩ := List.append_inj hfields (by simp)
  have hheader : headerCrc file = crc32 (headerBytes dim ckpt) := by
    unfold headerCrc
    rw [hsplit, hmagic, hversion, hckptField, hdimField, headerBytes]
    simp only [List.append_assoc]
  apply readHeader_eq_ok.mpr
  refine ⟨?_, ?_, ?_, Or.inr ?_, ?_⟩
  · rw [hmagic]
    rfl
  · rw [hversion]
    rfl
  · rw [hcrc, hheader, decode_encode_of_lt (UInt32.toNat_lt _)]
  · rw [hdimField, decode_encode_of_lt dim.toNat_lt]
  · rw [hckptField, decode_encode_of_lt (by omega)]

/-- What `write_header` makes of a file. -/
def headerImage (dim : UInt32) (file : ByteFile) (ckpt : ℕ) : ByteFile :=
  let fields := (file.write 0 (List.replicate headerSize 0)).write 0
    (headerBytes dim ckpt)
  fields.write 20 (encode 4 (headerCrc fields).toNat)

@[simp] theorem headerImage_size (file : ByteFile) (ckpt : ℕ) :
    (headerImage dim file ckpt).size = file.size := rfl

theorem headerImage_byte {file : ByteFile} {ckpt i : ℕ}
    (hi : headerSize ≤ i) :
    (headerImage dim file ckpt).byte i = file.byte i := by
  unfold headerSize at hi
  unfold headerImage
  rw [ByteFile.write_byte_of_not_mem (by simp; omega),
    ByteFile.write_byte_of_not_mem (by simp; omega),
    ByteFile.write_byte_of_not_mem (by simp [headerSize]; omega)]

theorem read_headerImage {file : ByteFile} {ckpt : ℕ}
    (hsize : headerSize ≤ file.size) :
    (headerImage dim file ckpt).read 0 20 = headerBytes dim ckpt := by
  unfold headerSize at hsize
  unfold headerImage
  rw [ByteFile.read_write_of_disjoint (by simp)]
  have hread := ByteFile.read_write_self
    (file.write 0 (List.replicate headerSize 0)) 0 (headerBytes dim ckpt)
    (by simp; omega)
  rwa [length_headerBytes] at hread

theorem readHeader_headerImage {file : ByteFile} {ckpt : ℕ}
    (hsize : headerSize ≤ file.size) (hckpt : ckpt < 2 ^ 64) :
    readHeader dim (headerImage dim file ckpt) = .ok ckpt := by
  have hfields : (headerImage dim file ckpt).read 0 20 =
      headerBytes dim ckpt := read_headerImage hsize
  apply readHeader_of_bytes hfields _ hckpt
  unfold headerSize at hsize
  unfold headerImage headerCrc at hfields ⊢
  dsimp only at hfields ⊢
  rw [ByteFile.read_write_of_disjoint (by simp)] at hfields
  rw [hfields]
  have hread := ByteFile.read_write_self
    ((file.write 0 (List.replicate headerSize 0)).write 0
      (headerBytes dim ckpt)) 20
    (encode 4 (crc32 (headerBytes dim ckpt)).toNat) (by simp; omega)
  rwa [length_encode] at hread

theorem writeHeader_run {w : WAL dim} (hmapped : w.mapped = true)
    (hsize : headerSize ≤ w.mapSize) :
    writeHeader.run w = .ok () { w with
      file := headerImage dim w.file w.checkpointLsn } := by
  unfold headerSize at hsize
  have hfits : ∀ s ∈ headerStores dim w.checkpointLsn,
      s.1 + s.2.length ≤ w.mapSize := by
    intro s hs
    simp only [headerStores, List.mem_cons, List.not_mem_nil, or_false] at hs
    rcases hs with rfl | rfl | rfl | rfl | rfl <;>
      simp [headerSize] <;> omega
  unfold writeHeader
  rw [run_get_bind, bind_of_ok (storeAll_of_fits hmapped hfits), run_get_bind]
  refine store_eq_ok.mpr ⟨hmapped, ?_, ?_⟩
  · simp
    omega
  · rw [applyAll_headerStores]
    rfl

theorem read_write_checkpoint {file : ByteFile} {ckpt : ℕ}
    (hsize : headerSize ≤ file.size)
    (hfields : file.read 0 20 = headerBytes dim ckpt) (next : ℕ) :
    (file.write 8 (encode 8 next)).read 0 20 = headerBytes dim next := by
  unfold headerSize at hsize
  have hsplit : ∀ other : ByteFile, other.read 0 20 = other.read 0 8 ++
      (other.read 8 8 ++ other.read 16 4) := by
    intro other
    rw [show 20 = 8 + (8 + 4) by rfl]
    simp only [ByteFile.read_append]
  have hfield := ByteFile.read_write_self file 8 (encode 8 next)
    (by simp; omega)
  rw [length_encode] at hfield
  rw [hsplit, headerBytes, List.append_assoc] at hfields
  obtain ⟨hbefore, hfields⟩ := List.append_inj hfields (by simp)
  obtain ⟨_, hafter⟩ := List.append_inj hfields (by simp)
  rw [hsplit, hfield, ByteFile.read_write_of_disjoint (by simp),
    ByteFile.read_write_of_disjoint (by simp), hbefore, hafter, headerBytes]
  simp only [List.append_assoc]

theorem readHeader_checkpoint {file : ByteFile} {ckpt next : ℕ}
    (hsize : headerSize ≤ file.size) (hnext : next < 2 ^ 64)
    (hheader : readHeader dim file = .ok ckpt) :
    readHeader dim ((file.write 8 (encode 8 next)).write 20
      (encode 4 (headerCrc (file.write 8 (encode 8 next))).toNat)) =
        .ok next := by
  unfold headerSize at hsize
  obtain ⟨hmagic, hversion, _, hdim, _⟩ := readHeader_eq_ok.mp hheader
  have hcrc : headerCrc ((file.write 8 (encode 8 next)).write 20
      (encode 4 (headerCrc (file.write 8 (encode 8 next))).toNat)) =
      headerCrc (file.write 8 (encode 8 next)) := by
    unfold headerCrc
    rw [ByteFile.read_write_of_disjoint (by simp)]
  have hfield := ByteFile.read_write_self (file.write 8 (encode 8 next)) 20
    (encode 4 (headerCrc (file.write 8 (encode 8 next))).toNat)
    (by simp; omega)
  have hckpt := ByteFile.read_write_self file 8 (encode 8 next)
    (by simp; omega)
  rw [length_encode] at hfield hckpt
  have hread : ∀ offset count,
      (offset + count ≤ 8 ∨ 16 ≤ offset) → offset + count ≤ 20 →
      ((file.write 8 (encode 8 next)).write 20
        (encode 4 (headerCrc (file.write 8 (encode 8 next))).toNat)).read
          offset count = file.read offset count := by
    intro offset count hout hle
    rw [ByteFile.read_write_of_disjoint (by simp; omega),
      ByteFile.read_write_of_disjoint (by simp; omega)]
  apply readHeader_eq_ok.mpr
  rw [hread 0 4 (by omega) (by omega), hread 4 4 (by omega) (by omega),
    hread 16 4 (by omega) (by omega), hfield, hcrc]
  refine ⟨hmagic, hversion, decode_encode_of_lt (UInt32.toNat_lt _), hdim, ?_⟩
  rw [ByteFile.read_write_of_disjoint (by simp), hckpt,
    decode_encode_of_lt (by omega)]

end WAL
end VecDB
