import VecDB.SegmentInvariant
import VecDB.SnapshotRoundTrip
import Mathlib.Tactic

/-!
# Stopping while a segment is filled

A process that stops between two bytes of `MmapStore::create` or of an append
leaves a file whose vector count is at most the number of rows behind it.  So
if the header matches its checksum, the segment opens to the first vectors of
the index.
-/

namespace VecDB
namespace MmapStore

open LittleEndian ByteFile

variable {dim : UInt32}

/-! ## The changes of the file -/

/-- The stores of `write_header`. -/
def writeHeaderEffects (file : ByteFile) (dim : UInt32) (vecCount ns : ℕ) :
    List Effect :=
  let fields := fieldEffects dim vecCount
  fields ++
    [.store 20 (encode 4 (crc32Header (file.applyAll fields)).toNat),
      .store 24 (encode 8 ns)]

/-- What `create` does to the file that `open` made. -/
def createEffects (dim : UInt32) (ns : ℕ) : List Effect :=
  .resize (headerSize + initialData) ::
    writeHeaderEffects (ByteFile.empty.resize (headerSize + initialData)) dim
      0 ns

def growEffects (s : MmapStore) : List Effect :=
  if s.mapSize < requiredSize ((s.vecCount + 1) % 2 ^ 32) s.dim then
    [.resize (s.mapSize + growBytes)]
  else []

def appendEffects (s : MmapStore) (vec : List UInt8) : List Effect :=
  let row := ByteFile.Effect.store (vecPtr s.dim s.vecCount) vec
  let count := ByteFile.Effect.store 8 (encode 8 ((s.vecCount + 1) % 2 ^ 32))
  let before := growEffects s ++ [row, count]
  before ++
    [.store 20 (encode 4 (crc32Header (s.file.applyAll before)).toNat)]

/-- The loop of `save`. -/
def fillEffects : MmapStore → List (Vec dim) → List Effect
  | _, [] => []
  | s, vec :: vecs =>
      appendEffects s vec.bytes ++ fillEffects (appended s vec.bytes) vecs

/-- Step 1 of `save` from the creation of the file on. -/
def segmentEffects (dim : UInt32) (ns : ℕ) (vecs : List (Vec dim)) :
    List Effect :=
  createEffects dim ns ++ fillEffects (created dim ns) vecs

theorem applyAll_createEffects (dim : UInt32) (ns : ℕ) :
    ByteFile.empty.applyAll (createEffects dim ns) =
      (created dim ns).file := by
  unfold createEffects writeHeaderEffects
  rw [applyAll_cons, applyAll_append]
  rfl

theorem applyAll_growEffects {s : MmapStore}
    (hcount : s.vecCount + 1 < 2 ^ 32) :
    s.file.applyAll (growEffects s) = (roomy s).file := by
  unfold growEffects roomy
  rw [Nat.mod_eq_of_lt hcount, requiredSize_eq]
  split_ifs <;> rfl

theorem appendEffects_eq {s : MmapStore} (hcount : s.vecCount + 1 < 2 ^ 32)
    (vec : List UInt8) :
    appendEffects s vec = growEffects s ++
      [.store (vecPtr s.dim s.vecCount) vec,
        .store 8 (encode 8 (s.vecCount + 1)),
        .store 20 (encode 4 (crc32Header (((roomy s).file.write
          (vecPtr s.dim s.vecCount) vec).write 8
            (encode 8 (s.vecCount + 1)))).toNat)] := by
  unfold appendEffects
  dsimp only
  rw [Nat.mod_eq_of_lt hcount, applyAll_append, applyAll_growEffects hcount,
    List.append_assoc]
  rfl

theorem applyAll_appendEffects {s : MmapStore}
    (hcount : s.vecCount + 1 < 2 ^ 32) (vec : List UInt8) :
    s.file.applyAll (appendEffects s vec) = (appended s vec).file := by
  rw [appendEffects_eq hcount, applyAll_append, applyAll_growEffects hcount]
  rfl

/-! ## What a stop leaves -/

/-- The count on file is at most the number of rows in place. -/
structure Filling (vecs : List (Vec dim)) (file : ByteFile) : Prop where
  flags : file.read 6 2 = encode 2 0
  sized : file.size = 0 ∨ headerSize ≤ file.size
  size_lt : file.size < 2 ^ 63
  rows : ∃ rows ≤ vecs.length, decode (file.read 8 8) ≤ rows ∧
    vecPtr dim rows ≤ max headerSize file.size ∧
    ∀ i < rows, ∀ vec, vecs[i]? = some vec →
      file.read (vecPtr dim i) (dim.toNat * 4) = vec.bytes

/-- A header that matches its checksum heads the first vectors. -/
theorem Filling.holds {vecs : List (Vec dim)} {file : ByteFile}
    (h : Filling vecs file) (hlength : vecs.length < 2 ^ 32) {count : ℕ}
    (hheader : readAndValidateHeader file = .ok (dim, count)) :
    Holds ⟨file, true, file.size, dim, count⟩ (vecs.take count) ∧
      count ≤ vecs.length := by
  have hsize : headerSize ≤ file.size := by
    refine h.sized.resolve_left fun hempty => ?_
    -- an empty file has no magic number
    have hmagic := (readAndValidateHeader_eq_ok.mp hheader).1
    rw [ByteFile.read_eq_replicate_zero fun i _ _ =>
      file.zero_beyond i (by omega), decode_replicate_zero] at hmagic
    exact absurd hmagic (by decide)
  obtain ⟨rows, hrows, hcount, hfits, hpayload⟩ := h.rows
  obtain ⟨hmagic, hversion, hcrc, hdim, hfield⟩ :=
    readAndValidateHeader_eq_ok.mp hheader
  rw [Nat.mod_eq_of_lt (by omega)] at hfield
  have hle : count ≤ vecs.length := by omega
  have htake : (vecs.take count).length = count :=
    List.length_take_of_le hle
  have hencode : ∀ offset width, file.read offset width =
      encode width (decode (file.read offset width)) := by
    intro offset width
    have hread := encode_decode (file.read offset width)
    rw [length_read] at hread
    exact hread.symm
  have hdimLt : decode (file.read 16 4) < 2 ^ 32 := by
    have hlt := decode_lt (file.read 16 4)
    rw [length_read] at hlt
    exact hlt
  have hdimField : decode (file.read 16 4) = dim.toNat := by
    rw [← hdim, UInt32.toNat_ofNat_of_lt' hdimLt]
  have hfields : file.read 0 20 = headerBytes dim count := by
    apply fields_eq_iff.mpr
    refine ⟨?_, ?_, h.flags, ?_, ?_⟩
    · rw [hencode, hmagic]
    · rw [hencode, hversion]
    · rw [hencode, hfield]
    · rw [hencode, hdimField]
  refine ⟨?_, hle⟩
  exact {
    mapped := rfl
    mapSize_eq := rfl
    mapSize_lt := h.size_lt
    dim_eq := rfl
    vecCount := htake.symm
    count_lt := by omega
    headed := by
      rw [htake]
      refine ⟨hfields, ?_⟩
      rw [hencode, hcrc, crc32Header, hfields]
    fits := by
      rw [htake]
      have hmono := vecPtr_mono dim (show count ≤ rows by omega)
      rw [max_eq_right hsize] at hfits
      exact hmono.trans hfits
    payload := by
      intro i vec hvec
      have hi := (List.getElem?_eq_some_iff.mp hvec).1
      rw [htake] at hi
      rw [List.getElem?_take_of_lt hi] at hvec
      exact hpayload i (by omega) vec hvec }

/-! ### While the file is created -/

/-- Flags and count are still zero. -/
structure Unfilled (file : ByteFile) : Prop where
  zero : ∀ i, 6 ≤ i → i < 16 → file.byte i = 0
  sized : file.size = 0 ∨ headerSize ≤ file.size
  size_lt : file.size < 2 ^ 63

theorem Unfilled.filling {file : ByteFile} (h : Unfilled file)
    (vecs : List (Vec dim)) : Filling vecs file where
  flags := ByteFile.read_eq_replicate_zero fun i hlo hhi =>
    h.zero i hlo (by omega)
  sized := h.sized
  size_lt := h.size_lt
  rows := by
    refine ⟨0, Nat.zero_le _, ?_, ?_, ?_⟩
    · rw [ByteFile.read_eq_replicate_zero fun i hlo hhi =>
        h.zero i (by omega) hhi, decode_replicate_zero]
    · exact le_max_of_le_left (by simp [vecPtr, headerSize])
    · intro i hi
      exact absurd hi (Nat.not_lt_zero i)

theorem Unfilled.write {file : ByteFile} (h : Unfilled file) {offset : ℕ}
    {bytes : List UInt8} (hbytes : offset + bytes.length ≤ 6 ∨ 16 ≤ offset ∨
      ∀ byte ∈ bytes, byte = 0) : Unfilled (file.write offset bytes) where
  zero := by
    intro i hlo hhi
    by_cases hin : offset ≤ i ∧ i < offset + bytes.length ∧ i < file.size
    · rw [ByteFile.write_byte_of_mem hin.1 hin.2.1 hin.2.2,
        List.getD_eq_getElem _ _ (by omega)]
      rcases hbytes with hleft | hright | hzero
      · omega
      · omega
      · exact hzero _ (List.getElem_mem _)
    · simp only [ByteFile.write]
      rw [if_neg hin]
      exact h.zero i hlo hhi
  sized := h.sized
  size_lt := h.size_lt

theorem Unfilled.store {file : ByteFile} (h : Unfilled file) {offset : ℕ}
    {bytes : List UInt8} {rest : List Effect}
    (hbytes : offset + bytes.length ≤ 6 ∨ 16 ≤ offset ∨
      ∀ byte ∈ bytes, byte = 0)
    (hrest : Unfilled (file.write offset bytes) →
      AtEveryStop Unfilled (file.write offset bytes) rest) :
    AtEveryStop Unfilled file (.store offset bytes :: rest) := by
  apply AtEveryStop.store
  · intro count
    apply h.write
    rcases hbytes with hleft | hright | hzero
    · left
      rw [List.length_take]
      omega
    · exact Or.inr (Or.inl hright)
    · exact Or.inr (Or.inr fun byte hbyte =>
        hzero byte (List.mem_of_mem_take hbyte))
  · exact hrest (h.write hbytes)

theorem createEffects_unfilled (dim : UInt32) (ns : ℕ) :
    AtEveryStop Unfilled ByteFile.empty (createEffects dim ns) := by
  have hzeros : ∀ count, ∀ byte ∈ List.replicate count (0 : UInt8),
      byte = 0 := fun count byte hbyte => List.eq_of_mem_replicate hbyte
  have hencoded : ∀ width, ∀ byte ∈ encode width 0, byte = 0 := by
    intro width
    rw [encode_zero]
    exact hzeros width
  apply AtEveryStop.resize
  · exact ⟨fun _ _ _ => rfl, Or.inl rfl, by simp [ByteFile.empty]⟩
  have hfresh : Unfilled
      (ByteFile.empty.resize (headerSize + initialData)) :=
    ⟨fun i _ _ => by simp [ByteFile.resize, ByteFile.empty],
      Or.inr (Nat.le_add_right _ _), by simp [headerSize, initialData]⟩
  unfold writeHeaderEffects fieldEffects
  -- field by field, in the order of the stores
  refine hfresh.store (Or.inr (Or.inr (hzeros _))) fun h => ?_
  refine h.store (Or.inl (by simp)) fun h => ?_
  refine h.store (Or.inl (by simp)) fun h => ?_
  refine h.store (Or.inr (Or.inr (hencoded 2))) fun h => ?_
  refine h.store (Or.inr (Or.inr (hencoded 8))) fun h => ?_
  refine h.store (Or.inr (Or.inl le_rfl)) fun h => ?_
  refine h.store (Or.inr (Or.inl (by decide))) fun h => ?_
  exact h.store (Or.inr (Or.inl (by decide))) fun h => atEveryStop_nil h

/-! ### While vectors are appended -/

namespace Holds

variable {s : MmapStore} {vecs : List (Vec dim)}

theorem rows_read (h : Holds s vecs) {file : ByteFile}
    (hbyte : ∀ i, headerSize ≤ i → i < vecPtr dim vecs.length →
      file.byte i = s.file.byte i) {more : List (Vec dim)} {i : ℕ}
    (hi : i < vecs.length) {vec : Vec dim}
    (hvec : (vecs ++ more)[i]? = some vec) :
    file.read (vecPtr dim i) (dim.toNat * 4) = vec.bytes := by
  rw [List.getElem?_append_left hi] at hvec
  rw [← h.payload i vec hvec]
  have hhead := headerSize_le_vecPtr dim i
  have hmono := vecPtr_mono dim hi
  rw [vecPtr_succ] at hmono
  exact ByteFile.read_congr fun j hlo hhi => hbyte j (by omega) (by omega)

theorem count_read (h : Holds s vecs) :
    s.file.read 6 2 = encode 2 0 ∧
      s.file.read 8 8 = encode 8 vecs.length := by
  obtain ⟨_, _, hflags, hcount, _⟩ := fields_eq_iff.mp h.headed.fields
  exact ⟨hflags, hcount⟩

theorem filling (h : Holds s vecs) (more : List (Vec dim)) {file : ByteFile}
    (hlt : file.size < 2 ^ 63) (hsize : s.mapSize ≤ file.size)
    (hbyte : ∀ i, i < vecPtr dim vecs.length → file.byte i = s.file.byte i) :
    Filling (vecs ++ more) file where
  flags := by
    rw [← h.count_read.1]
    have hhead := headerSize_le_vecPtr dim vecs.length
    unfold headerSize at hhead
    exact ByteFile.read_congr fun i _ hi => hbyte i (by omega)
  sized := Or.inr (h.headerSize_le.trans hsize)
  size_lt := hlt
  rows := by
    have hcount : file.read 8 8 = encode 8 vecs.length := by
      rw [← h.count_read.2]
      have hhead := headerSize_le_vecPtr dim vecs.length
      unfold headerSize at hhead
      exact ByteFile.read_congr fun i _ hi => hbyte i (by omega)
    have hcountLt := h.count_lt
    refine ⟨vecs.length, by simp, ?_, ?_, ?_⟩
    · rw [hcount, decode_encode_of_lt (by omega)]
    · exact (h.fits.trans hsize).trans (le_max_right _ _)
    · intro i hi vec hvec
      exact h.rows_read (fun j _ hj => hbyte j hj) hi hvec

end Holds

/-- The row behind those of `s` is in place, and the header may be in an
update. -/
structure Counting (s : MmapStore) (vecs : List (Vec dim)) (vec : Vec dim)
    (file : ByteFile) : Prop where
  size_lt : file.size < 2 ^ 63
  fits : vecPtr dim (vecs.length + 1) ≤ file.size
  flags : file.read 6 2 = encode 2 0
  count : decode (file.read 8 8) ≤ vecs.length + 1
  below : ∀ i, headerSize ≤ i → i < vecPtr dim vecs.length →
    file.byte i = s.file.byte i
  row : file.read (vecPtr dim vecs.length) (dim.toNat * 4) = vec.bytes

namespace Counting

variable {s : MmapStore} {vecs : List (Vec dim)} {vec : Vec dim}
  {file : ByteFile}

theorem filling (h : Counting s vecs vec file) (hseg : Holds s vecs)
    (more : List (Vec dim)) : Filling (vecs ++ vec :: more) file where
  flags := h.flags
  sized := Or.inr ((headerSize_le_vecPtr dim _).trans h.fits)
  size_lt := h.size_lt
  rows := by
    refine ⟨vecs.length + 1, by simp, h.count,
      h.fits.trans (le_max_right _ _), ?_⟩
    intro i hi v hv
    rcases Nat.lt_or_ge i vecs.length with hold | hnew
    · exact hseg.rows_read h.below hold hv
    · have hlast : i = vecs.length := by omega
      subst hlast
      have hsame : vec = v := by simpa using hv
      rw [h.row, hsame]

theorem write (h : Counting s vecs vec file) {offset : ℕ}
    {bytes : List UInt8} (hlo : 8 ≤ offset)
    (hhi : offset + bytes.length ≤ headerSize)
    (hcount : decode ((file.write offset bytes).read 8 8) ≤
      vecs.length + 1) : Counting s vecs vec (file.write offset bytes) where
  size_lt := h.size_lt
  fits := h.fits
  flags := by
    rw [ByteFile.read_write_of_disjoint (Or.inl (by omega)), h.flags]
  count := hcount
  below := by
    intro i hi hi'
    rw [ByteFile.write_byte_of_not_mem (Or.inr (by omega)), h.below i hi hi']
  row := by
    have hhead := headerSize_le_vecPtr dim vecs.length
    rw [ByteFile.read_write_of_disjoint (Or.inr (by omega)), h.row]

end Counting

namespace Holds

variable {s : MmapStore} {vecs : List (Vec dim)}

theorem counting (h : Holds s vecs) (vec : Vec dim) {room : ByteFile}
    (hlt : room.size < 2 ^ 63)
    (hfits : vecPtr dim (vecs.length + 1) ≤ room.size)
    (hbyte : room.byte = s.file.byte) :
    Counting s vecs vec
      (room.write (vecPtr dim vecs.length) vec.bytes) := by
  have hhead := headerSize_le_vecPtr dim vecs.length
  have hsucc := vecPtr_succ dim vecs.length
  have hcountLt := h.count_lt
  unfold headerSize at hhead
  have hread : ∀ offset width, offset + width ≤ 64 →
      (room.write (vecPtr dim vecs.length) vec.bytes).read offset width =
        s.file.read offset width := by
    intro offset width hle
    rw [ByteFile.read_write_of_disjoint (Or.inl (by omega)),
      ByteFile.read_eq_of_byte hbyte]
  exact {
    size_lt := hlt
    fits := hfits
    flags := by rw [hread 6 2 (by norm_num), h.count_read.1]
    count := by
      rw [hread 8 8 (by norm_num), h.count_read.2,
        decode_encode_of_lt (by omega)]
      exact Nat.le_succ _
    below := by
      intro i _ hi
      rw [ByteFile.write_byte_of_not_mem (Or.inl hi), hbyte]
    row := by
      have hself := ByteFile.read_write_self room (vecPtr dim vecs.length)
        vec.bytes (by rw [Vec.length_bytes]; omega)
      rwa [Vec.length_bytes] at hself }

theorem stores_filling (h : Holds s vecs) (vec : Vec dim)
    (more : List (Vec dim)) {room : ByteFile} (hlt : room.size < 2 ^ 63)
    (hsize : s.mapSize ≤ room.size)
    (hfits : vecPtr dim (vecs.length + 1) ≤ room.size)
    (hbyte : room.byte = s.file.byte) {crc : List UInt8}
    (hcrc : crc.length = 4) :
    AtEveryStop (Filling (vecs ++ vec :: more)) room
      [.store (vecPtr dim vecs.length) vec.bytes,
        .store 8 (encode 8 (vecs.length + 1)), .store 20 crc] := by
  have hcountLt := h.count_lt
  apply AtEveryStop.store
  · intro stored
    have hwritten : (room.write (vecPtr dim vecs.length)
        (vec.bytes.take stored)).size = room.size := rfl
    rw [← hwritten] at hlt hsize
    apply h.filling _ hlt hsize
    intro i hi
    rw [ByteFile.write_byte_of_not_mem (Or.inl hi), hbyte]
  have hrow := h.counting vec hlt hfits hbyte
  have hold : (room.write (vecPtr dim vecs.length) vec.bytes).read 8 8 =
      encode 8 vecs.length := by
    have hhead := headerSize_le_vecPtr dim vecs.length
    unfold headerSize at hhead
    rw [ByteFile.read_write_of_disjoint (Or.inl (by omega)),
      ByteFile.read_eq_of_byte hbyte, h.count_read.2]
  have hhead := (headerSize_le_vecPtr dim (vecs.length + 1)).trans hrow.fits
  generalize room.write (vecPtr dim vecs.length) vec.bytes = written at *
  unfold headerSize at hhead
  have hpart : ∀ stored, Counting s vecs vec
      (written.write 8 ((encode 8 (vecs.length + 1)).take stored)) := by
    intro stored
    apply hrow.write le_rfl
    · rw [List.length_take, length_encode]
      unfold headerSize
      omega
    · have hread := ByteFile.read_write_take written 8
        (encode 8 (vecs.length + 1)) stored (by rw [length_encode]; omega)
      rw [length_encode, hold] at hread
      rw [hread]
      exact decode_take_append_drop_le 8 (Nat.le_succ _) stored
  have hcounted : Counting s vecs vec
      (written.write 8 (encode 8 (vecs.length + 1))) := by
    have hall := hpart 8
    rwa [List.take_of_length_le (by simp)] at hall
  apply AtEveryStop.store
  · exact fun stored => (hpart stored).filling h more
  have hsealed : ∀ stored, Counting s vecs vec
      ((written.write 8 (encode 8 (vecs.length + 1))).write 20
        (crc.take stored)) := by
    intro stored
    apply hcounted.write (by norm_num)
    · rw [List.length_take]
      unfold headerSize
      omega
    · rw [ByteFile.read_write_of_disjoint (Or.inl (by norm_num))]
      exact hcounted.count
  apply AtEveryStop.store
  · exact fun stored => (hsealed stored).filling h more
  apply atEveryStop_nil
  have hall := hsealed 4
  rw [List.take_of_length_le hcrc.le] at hall
  exact hall.filling h more

theorem appendEffects_filling (h : Holds s vecs) (vec : Vec dim)
    (more : List (Vec dim)) (hcount : vecs.length + 1 < 2 ^ 32)
    (hlt : (roomy s).mapSize < 2 ^ 63)
    (hfits : vecPtr dim (vecs.length + 1) ≤ (roomy s).mapSize) :
    AtEveryStop (Filling (vecs ++ vec :: more)) s.file
      (appendEffects s vec.bytes) := by
  have hnext : s.vecCount + 1 < 2 ^ 32 := by rwa [h.vecCount]
  have hroomySize := roomy_mapSize_eq h.mapSize_eq
  have hbyte := roomy_byte h.mapSize_eq
  have hle := mapSize_le_roomy s
  rw [hroomySize] at hlt hfits hle
  have hbefore : Filling (vecs ++ vec :: more) s.file := by
    apply h.filling _ _ h.mapSize_eq.le fun _ _ => rfl
    rw [← h.mapSize_eq]
    exact h.mapSize_lt
  have hgrown : Filling (vecs ++ vec :: more) (roomy s).file :=
    h.filling _ hlt hle fun i _ => by rw [hbyte]
  have hgrow : AtEveryStop (Filling (vecs ++ vec :: more)) s.file
      (growEffects s) := by
    have hafter := applyAll_growEffects hnext
    unfold growEffects at hafter ⊢
    split_ifs at hafter ⊢ with hroom
    · apply AtEveryStop.resize hbefore
      apply atEveryStop_nil
      have hfile : s.file.resize (s.mapSize + growBytes) = (roomy s).file :=
        hafter
      rwa [hfile]
    · exact atEveryStop_nil hbefore
  rw [appendEffects_eq hnext, h.dim_eq, h.vecCount]
  apply hgrow.append
  rw [applyAll_growEffects hnext]
  exact h.stores_filling vec more hlt hle hfits hbyte (length_encode _ _)

end Holds

theorem fillEffects_filling {os : OS} {s s' : MmapStore}
    {vecs more : List (Vec dim)} (h : Holds s vecs)
    (hcount : vecs.length + more.length < 2 ^ 32)
    (hok : (Storage.appendVectors os more).run s = .ok () s') :
    AtEveryStop (Filling (vecs ++ more)) s.file (fillEffects s more) ∧
      s.file.applyAll (fillEffects s more) = s'.file := by
  induction more generalizing s vecs with
  | nil =>
      cases hok
      refine ⟨atEveryStop_nil ?_, rfl⟩
      apply h.filling _ _ h.mapSize_eq.le fun _ _ => rfl
      rw [← h.mapSize_eq]
      exact h.mapSize_lt
  | cons vec more ih =>
      rw [List.length_cons] at hcount
      rw [Storage.appendVectors, bind_eq_ok] at hok
      obtain ⟨id, s₁, happend, hrest⟩ := hok
      obtain ⟨rfl, _, hnext⟩ := h.append_eq_ok (by omega) happend
      have hnextCount : s.vecCount + 1 < 2 ^ 32 := by
        rw [h.vecCount]
        omega
      have hfits := hnext.fits
      rw [List.length_append, List.length_singleton] at hfits
      have hone := h.appendEffects_filling vec more (by omega)
        hnext.mapSize_lt hfits
      obtain ⟨hstops, hfile⟩ := ih hnext (by simp; omega) hrest
      have hafter := applyAll_appendEffects hnextCount vec.bytes
      rw [List.append_assoc, List.singleton_append] at hstops
      rw [fillEffects]
      constructor
      · apply hone.append
        rw [hafter]
        exact hstops
      · rw [applyAll_append, hafter, hfile]

end MmapStore

namespace Storage

open MmapStore ByteFile

variable {dim : UInt32}

/-- The effects of step 1 of `save`: what each stop leaves, and what all of
them do. -/
theorem segmentEffects_filling {os : OS} {path : String} {ns : ℕ}
    {index : HNSWIndex (Vec dim)} {layers : List ℕ}
    (h : HNSWIndex.RepInv index layers)
    (hdim : index.cfg.dim.toUInt32 = dim) {seg : ByteFile}
    (hok : writeSegment os path ns index = .ok seg) :
    AtEveryStop (Filling index.vectors) ByteFile.empty
        (segmentEffects dim ns index.vectors) ∧
      ByteFile.empty.applyAll (segmentEffects dim ns index.vectors) = seg := by
  rw [writeSegment, except_bind_eq_ok] at hok
  obtain ⟨s, hcreate, hok⟩ := hok
  rw [h.getVectors, except_bind_ok] at hok
  obtain ⟨_, rfl⟩ := MmapStore.create_eq_ok hcreate
  rw [hdim] at hok
  have hlength := h.vectors
  have hids := h.nextId_lt
  cases happend : (appendVectors os index.vectors).run
      (MmapStore.created dim ns) with
  | error e s => simp [happend] at hok
  | ok u s =>
      simp only [happend] at hok
      cases hok
      obtain ⟨hfilled, hfile⟩ := fillEffects_filling
        (created_holds dim ns) (by simp; omega) happend
      have hcreated : AtEveryStop (Filling index.vectors) ByteFile.empty
          (createEffects dim ns) :=
        fun count => (createEffects_unfilled dim ns count).filling _
      unfold segmentEffects
      constructor
      · apply hcreated.append
        rw [applyAll_createEffects]
        exact hfilled
      · rw [applyAll_append, applyAll_createEffects, hfile]
        rfl

end Storage
end VecDB
