import VecDB.MmapStore
import Mathlib.Tactic

/-!
# What a segment holds

`MmapStore.Holds s vecs` says that an open segment holds the vectors `vecs`.
Creation establishes it for the empty list, an append extends the list, and a
file left by a segment opens to the same list.
-/

namespace VecDB
namespace MmapStore

open LittleEndian

/-! ## The header -/

/-- The first 20 bytes of the header. -/
def headerBytes (dim : UInt32) (vecCount : ℕ) : List UInt8 :=
  encode 4 magic ++ encode 2 version ++ encode 2 0 ++ encode 8 vecCount ++
    encode 4 dim.toNat

@[simp] theorem length_headerBytes (dim : UInt32) (vecCount : ℕ) :
    (headerBytes dim vecCount).length = 20 := by
  simp [headerBytes]

/-- The file has the header of a segment of `vecCount` vectors. -/
structure Headed (file : ByteFile) (dim : UInt32) (vecCount : ℕ) : Prop where
  fields : file.read 0 20 = headerBytes dim vecCount
  crc : file.read 20 4 = encode 4 (crc32Buf (headerBytes dim vecCount)).toNat

theorem read_fields (file : ByteFile) :
    file.read 0 20 = file.read 0 4 ++ file.read 4 2 ++ file.read 6 2 ++
      file.read 8 8 ++ file.read 16 4 := by
  rw [show 20 = 4 + 2 + 2 + 8 + 4 by rfl]
  simp only [ByteFile.read_append]

theorem fields_eq_iff {file : ByteFile} {dim : UInt32} {vecCount : ℕ} :
    file.read 0 20 = headerBytes dim vecCount ↔
      file.read 0 4 = encode 4 magic ∧ file.read 4 2 = encode 2 version ∧
        file.read 6 2 = encode 2 0 ∧ file.read 8 8 = encode 8 vecCount ∧
        file.read 16 4 = encode 4 dim.toNat := by
  rw [read_fields, headerBytes]
  constructor
  · intro h
    obtain ⟨h, hdim⟩ := List.append_inj h (by simp)
    obtain ⟨h, hcount⟩ := List.append_inj h (by simp)
    obtain ⟨h, hflags⟩ := List.append_inj h (by simp)
    obtain ⟨hmagic, hversion⟩ := List.append_inj h (by simp)
    exact ⟨hmagic, hversion, hflags, hcount, hdim⟩
  · rintro ⟨hmagic, hversion, hflags, hcount, hdim⟩
    rw [hmagic, hversion, hflags, hcount, hdim]

theorem readAndValidateHeader_eq_ok {file : ByteFile} {dim : UInt32}
    {vecCount : ℕ} :
    readAndValidateHeader file = .ok (dim, vecCount) ↔
      decode (file.read 0 4) = magic ∧ decode (file.read 4 2) = version ∧
        decode (file.read 20 4) = (crc32Header file).toNat ∧
        UInt32.ofNat (decode (file.read 16 4)) = dim ∧
        decode (file.read 8 8) % 2 ^ 32 = vecCount := by
  unfold readAndValidateHeader
  dsimp only
  split_ifs with hmagic hversion hcrc
  · simp only [false_iff]
    exact fun h => hmagic h.1
  · simp only [false_iff]
    exact fun h => hversion h.2.1
  · simp only [false_iff]
    exact fun h => hcrc h.2.2.1
  · simp only [Except.ok.injEq, Prod.mk.injEq]
    exact ⟨fun h => ⟨not_not.mp hmagic, not_not.mp hversion,
      not_not.mp hcrc, h.1, h.2⟩, fun h => h.2.2.2⟩

theorem Headed.readAndValidateHeader {file : ByteFile} {dim : UInt32}
    {vecCount : ℕ} (h : Headed file dim vecCount) (hlt : vecCount < 2 ^ 32) :
    readAndValidateHeader file = .ok (dim, vecCount) := by
  obtain ⟨hmagic, hversion, _, hcount, hdim⟩ := fields_eq_iff.mp h.fields
  apply readAndValidateHeader_eq_ok.mpr
  refine ⟨?_, ?_, ?_, ?_, ?_⟩
  · rw [hmagic]
    rfl
  · rw [hversion]
    rfl
  · rw [h.crc, crc32Header, h.fields, decode_encode_of_lt (UInt32.toNat_lt _)]
  · rw [hdim, decode_encode_of_lt dim.toNat_lt, UInt32.ofNat_toNat]
  · rw [hcount, decode_encode_of_lt (by omega), Nat.mod_eq_of_lt hlt]

theorem Headed.congr {file other : ByteFile} {dim : UInt32} {vecCount : ℕ}
    (h : Headed file dim vecCount)
    (hbyte : ∀ i < headerSize, other.byte i = file.byte i) :
    Headed other dim vecCount where
  fields := by
    rw [← h.fields]
    exact ByteFile.read_congr fun i _ hi =>
      hbyte i (by unfold headerSize; omega)
  crc := by
    rw [← h.crc]
    exact ByteFile.read_congr fun i _ hi =>
      hbyte i (by unfold headerSize; omega)

/-- The checksum over the fields as they are. -/
def sealHeader (file : ByteFile) : ByteFile :=
  file.write 20 (encode 4 (crc32Header file).toNat)

theorem sealHeader_headed {file : ByteFile} {dim : UInt32} {vecCount : ℕ}
    (hsize : headerSize ≤ file.size)
    (hfields : file.read 0 20 = headerBytes dim vecCount) :
    Headed (sealHeader file) dim vecCount where
  fields := by
    unfold sealHeader
    rw [ByteFile.read_write_of_disjoint (by simp), hfields]
  crc := by
    unfold headerSize at hsize
    have hread := ByteFile.read_write_self file 20
      (encode 4 (crc32Header file).toNat) (by simp; omega)
    rw [length_encode] at hread
    unfold sealHeader
    rw [hread, crc32Header, hfields]

theorem sealHeader_byte {file : ByteFile} {i : ℕ} (hi : headerSize ≤ i) :
    (sealHeader file).byte i = file.byte i := by
  unfold headerSize at hi
  exact ByteFile.write_byte_of_not_mem (by simp; omega)

/-- The two header stores of `append`. -/
def recount (file : ByteFile) (vecCount : ℕ) : ByteFile :=
  sealHeader (file.write 8 (encode 8 vecCount))

theorem recount_headed {file : ByteFile} {dim : UInt32} {before : ℕ}
    (hsize : headerSize ≤ file.size)
    (hfields : file.read 0 20 = headerBytes dim before) (vecCount : ℕ) :
    Headed (recount file vecCount) dim vecCount := by
  obtain ⟨hmagic, hversion, hflags, _, hdim⟩ := fields_eq_iff.mp hfields
  have hsize' : headerSize ≤ (file.write 8 (encode 8 vecCount)).size := hsize
  apply sealHeader_headed hsize'
  unfold headerSize at hsize
  apply fields_eq_iff.mpr
  have hcount := ByteFile.read_write_self file 8 (encode 8 vecCount)
    (by simp; omega)
  rw [length_encode] at hcount
  refine ⟨?_, ?_, ?_, hcount, ?_⟩
  · rw [ByteFile.read_write_of_disjoint (by simp), hmagic]
  · rw [ByteFile.read_write_of_disjoint (by simp), hversion]
  · rw [ByteFile.read_write_of_disjoint (by simp), hflags]
  · rw [ByteFile.read_write_of_disjoint (by simp), hdim]

@[simp] theorem recount_size (file : ByteFile) (vecCount : ℕ) :
    (recount file vecCount).size = file.size := rfl

theorem recount_byte {file : ByteFile} {vecCount i : ℕ}
    (hi : headerSize ≤ i) : (recount file vecCount).byte i = file.byte i := by
  unfold recount
  rw [sealHeader_byte hi]
  unfold headerSize at hi
  exact ByteFile.write_byte_of_not_mem (by simp; omega)

/-! ## Stores and sizes -/

theorem store_eq_ok {offset : ℕ} {bytes : List UInt8} {s s' : MmapStore} :
    (store offset bytes).run s = .ok () s' ↔
      s.mapped = true ∧ offset + bytes.length ≤ s.mapSize ∧
        s' = { s with file := s.file.write offset bytes } := by
  unfold store EStateM.run
  dsimp only
  split_ifs with h
  · simp [h, eq_comm]
  · simp only [false_iff, not_and]
    intro hmapped hfits
    exact (h ⟨hmapped, hfits⟩).elim

theorem vecPtr_succ (dim : UInt32) (nodeId : ℕ) :
    vecPtr dim (nodeId + 1) = vecPtr dim nodeId + dim.toNat * 4 := by
  unfold vecPtr
  ring

theorem vecPtr_mono (dim : UInt32) {i j : ℕ} (hle : i ≤ j) :
    vecPtr dim i ≤ vecPtr dim j :=
  Nat.add_le_add_left (Nat.mul_le_mul_right _ hle) 64

theorem headerSize_le_vecPtr (dim : UInt32) (nodeId : ℕ) :
    headerSize ≤ vecPtr dim nodeId :=
  Nat.le_add_right _ _

theorem requiredSize_eq (vecCount : ℕ) (dim : UInt32) :
    requiredSize vecCount dim = vecPtr dim vecCount := by
  unfold requiredSize vecPtr
  ring

/-! ## Creation -/

/-- The stores of `write_header` up to the checksum. -/
def fieldEffects (dim : UInt32) (vecCount : ℕ) : List ByteFile.Effect :=
  [.store 0 (List.replicate headerSize 0), .store 0 (encode 4 magic),
    .store 4 (encode 2 version), .store 6 (encode 2 0),
    .store 8 (encode 8 vecCount), .store 16 (encode 4 dim.toNat)]

/-- What `write_header` makes of a file. -/
def headerImage (file : ByteFile) (dim : UInt32) (vecCount ns : ℕ) :
    ByteFile :=
  (sealHeader (file.applyAll (fieldEffects dim vecCount))).write 24
    (encode 8 ns)

theorem applyAll_fieldEffects (file : ByteFile) (dim : UInt32)
    (vecCount : ℕ) :
    file.applyAll (fieldEffects dim vecCount) =
      (file.write 0 (List.replicate headerSize 0)).write 0
        (headerBytes dim vecCount) := by
  have h₁ : 4 = 0 + (encode 4 magic).length := by simp
  have h₂ : 6 = 0 + (encode 4 magic ++ encode 2 version).length := by simp
  have h₃ : 8 = 0 + (encode 4 magic ++ encode 2 version ++
      encode 2 0).length := by simp
  have h₄ : 16 = 0 + (encode 4 magic ++ encode 2 version ++ encode 2 0 ++
      encode 8 vecCount).length := by simp
  simp only [fieldEffects, ByteFile.applyAll_cons, ByteFile.applyAll_nil,
    ByteFile.Effect.apply]
  generalize file.write 0 (List.replicate headerSize 0) = cleared
  have hversion := ByteFile.write_write_append cleared 0 (encode 4 magic)
    (encode 2 version)
  rw [← h₁] at hversion
  have hflags := ByteFile.write_write_append cleared 0
    (encode 4 magic ++ encode 2 version) (encode 2 0)
  rw [← h₂] at hflags
  have hcount := ByteFile.write_write_append cleared 0
    (encode 4 magic ++ encode 2 version ++ encode 2 0) (encode 8 vecCount)
  rw [← h₃] at hcount
  have hdim := ByteFile.write_write_append cleared 0
    (encode 4 magic ++ encode 2 version ++ encode 2 0 ++ encode 8 vecCount)
    (encode 4 dim.toNat)
  rw [← h₄] at hdim
  rw [hversion, hflags, hcount, hdim]
  rfl

theorem headerImage_headed {file : ByteFile} {dim : UInt32} {vecCount : ℕ}
    (hsize : headerSize ≤ file.size) (ns : ℕ) :
    Headed (headerImage file dim vecCount ns) dim vecCount := by
  have hfields : (file.applyAll (fieldEffects dim vecCount)).read 0 20 =
      headerBytes dim vecCount := by
    unfold headerSize at hsize
    have hread := ByteFile.read_write_self
      (file.write 0 (List.replicate headerSize 0)) 0
      (headerBytes dim vecCount) (by simp; omega)
    rw [length_headerBytes] at hread
    rw [applyAll_fieldEffects, hread]
  have hsealed : Headed (sealHeader (file.applyAll (fieldEffects dim vecCount)))
      dim vecCount := by
    apply sealHeader_headed _ hfields
    rw [applyAll_fieldEffects]
    exact hsize
  constructor
  · rw [← hsealed.fields]
    exact ByteFile.read_write_of_disjoint (by simp)
  · rw [← hsealed.crc]
    exact ByteFile.read_write_of_disjoint (by simp)

theorem headerImage_size (file : ByteFile) (dim : UInt32)
    (vecCount ns : ℕ) : (headerImage file dim vecCount ns).size = file.size :=
  rfl

theorem writeHeader_run {s : MmapStore} (hmapped : s.mapped = true)
    (hsize : headerSize ≤ s.mapSize) (ns : ℕ) :
    (writeHeader ns).run s = .ok () { s with
      file := headerImage s.file s.dim s.vecCount ns } := by
  unfold headerSize at hsize
  unfold writeHeader
  rw [run_get_bind]
  have hstore : ∀ (offset : ℕ) (bytes : List UInt8) (file : ByteFile),
      offset + bytes.length ≤ 64 →
      (store offset bytes).run { s with file := file } =
        .ok () { s with file := file.write offset bytes } := by
    intro offset bytes file hfits
    exact store_eq_ok.mpr ⟨hmapped, by dsimp only; omega, rfl⟩
  rw [bind_of_ok (hstore _ _ s.file (by simp [headerSize])),
    bind_of_ok (hstore _ _ _ (by simp)), bind_of_ok (hstore _ _ _ (by simp)),
    bind_of_ok (hstore _ _ _ (by simp)), bind_of_ok (hstore _ _ _ (by simp)),
    bind_of_ok (hstore _ _ _ (by simp)), run_get_bind,
    bind_of_ok (hstore _ _ _ (by simp))]
  exact hstore _ _ _ (by simp)

/-- A segment that has just been created. -/
def created (dim : UInt32) (ns : ℕ) : MmapStore where
  file := headerImage (ByteFile.empty.resize (headerSize + initialData)) dim
    0 ns
  mapped := true
  mapSize := headerSize + initialData
  dim := dim
  vecCount := 0

theorem create_eq {os : OS} {path : String} {dim : UInt32} (hdim : dim ≠ 0)
    (hftruncate : os.ftruncate (headerSize + initialData) = true)
    (hmmap : os.mmap (headerSize + initialData) = true) (ns : ℕ) :
    create os path none dim ns = .ok (created dim ns) := by
  unfold create
  rw [if_neg hdim, if_neg (by simp), if_neg (by simp [hftruncate]),
    if_neg (by simp [hmmap]), writeHeader_run rfl (Nat.le_add_right _ _)]
  rfl

theorem create_eq_ok {os : OS} {path : String} {dim : UInt32} {ns : ℕ}
    {s : MmapStore} (hcreate : create os path none dim ns = .ok s) :
    dim ≠ 0 ∧ s = created dim ns := by
  have hopen := hcreate
  unfold create at hopen
  split_ifs at hopen with hdim hexists hftruncate hmmap
  rw [create_eq hdim (by simpa using hftruncate) (by simpa using hmmap)]
    at hcreate
  exact ⟨hdim, (Except.ok.inj hcreate).symm⟩

/-! ## The invariant -/

structure Holds {dim : UInt32} (s : MmapStore) (vecs : List (Vec dim)) :
    Prop where
  mapped : s.mapped = true
  mapSize_eq : s.mapSize = s.file.size
  mapSize_lt : s.mapSize < 2 ^ 63
  dim_eq : s.dim = dim
  vecCount : s.vecCount = vecs.length
  count_lt : vecs.length < 2 ^ 32
  headed : Headed s.file dim vecs.length
  fits : vecPtr dim vecs.length ≤ s.mapSize
  payload : ∀ i vec, vecs[i]? = some vec →
    s.file.read (vecPtr dim i) (dim.toNat * 4) = vec.bytes

theorem created_holds (dim : UInt32) (ns : ℕ) :
    Holds (created dim ns) ([] : List (Vec dim)) where
  mapped := rfl
  mapSize_eq := rfl
  mapSize_lt := by simp [created, headerSize, initialData]
  dim_eq := rfl
  vecCount := rfl
  count_lt := by simp
  headed := headerImage_headed (Nat.le_add_right _ _) ns
  fits := by simp [created, vecPtr, headerSize, initialData]
  payload := by simp

/-! ## Appends -/

def roomy (s : MmapStore) : MmapStore :=
  if s.mapSize < vecPtr s.dim (s.vecCount + 1) then
    { s with
      file := s.file.resize (s.mapSize + growBytes)
      mapSize := s.mapSize + growBytes }
  else s

/-- The segment after an append that stayed inside the mapping. -/
def appended (s : MmapStore) (vec : List UInt8) : MmapStore :=
  { roomy s with
    file := recount ((roomy s).file.write (vecPtr s.dim s.vecCount) vec)
      (s.vecCount + 1)
    vecCount := s.vecCount + 1 }

theorem roomy_dim (s : MmapStore) : (roomy s).dim = s.dim := by
  unfold roomy
  split_ifs <;> rfl

theorem roomy_vecCount (s : MmapStore) : (roomy s).vecCount = s.vecCount := by
  unfold roomy
  split_ifs <;> rfl

theorem roomy_mapped (s : MmapStore) : (roomy s).mapped = s.mapped := by
  unfold roomy
  split_ifs <;> rfl

theorem roomy_mapSize_eq {s : MmapStore} (hsize : s.mapSize = s.file.size) :
    (roomy s).mapSize = (roomy s).file.size := by
  unfold roomy
  split_ifs
  · rfl
  · exact hsize

theorem mapSize_le_roomy (s : MmapStore) : s.mapSize ≤ (roomy s).mapSize := by
  unfold roomy
  split_ifs
  · exact Nat.le_add_right _ _
  · exact le_rfl

theorem roomy_byte {s : MmapStore} (hsize : s.mapSize = s.file.size) :
    (roomy s).file.byte = s.file.byte := by
  unfold roomy
  split_ifs
  · exact ByteFile.resize_byte_of_le (by omega)
  · rfl

theorem grow_run (os : OS) (newSize : ℕ) (s : MmapStore) :
    (grow os newSize).run s =
      if os.ftruncate newSize = false then
        .error (.runtimeError "MmapStore: ftruncate failed during grow")
          { s with mapped := false }
      else if os.mmap newSize = false then
        .error (.runtimeError "MmapStore: mmap failed after grow")
          { s with file := s.file.resize newSize, mapped := false }
      else .ok () { s with
        file := s.file.resize newSize
        mapped := true
        mapSize := newSize } := by
  unfold grow
  cases hftruncate : os.ftruncate newSize with
  | false => rfl
  | true =>
      cases hmmap : os.mmap newSize with
      | false => rfl
      | true => rfl

theorem reserve_run {os : OS} {s : MmapStore} (hmapped : s.mapped = true)
    (hcount : s.vecCount + 1 < 2 ^ 32)
    (hftruncate : os.ftruncate (s.mapSize + growBytes) = true)
    (hmmap : os.mmap (s.mapSize + growBytes) = true) :
    (reserve os).run s = .ok () (roomy s) := by
  unfold reserve roomy
  rw [run_get_bind]
  dsimp only
  rw [Nat.mod_eq_of_lt hcount, requiredSize_eq]
  split_ifs with hroom
  · rw [grow_run, if_neg (by simp [hftruncate]), if_neg (by simp [hmmap]),
      hmapped]
  · rfl

theorem reserve_eq_ok {os : OS} {s s' : MmapStore} (hmapped : s.mapped = true)
    (hlt : s.mapSize < 2 ^ 63) (hcount : s.vecCount + 1 < 2 ^ 32)
    (hok : (reserve os).run s = .ok () s') :
    s' = roomy s ∧ (roomy s).mapSize < 2 ^ 63 := by
  unfold reserve at hok
  rw [run_get_bind] at hok
  dsimp only at hok
  rw [Nat.mod_eq_of_lt hcount, requiredSize_eq] at hok
  unfold roomy
  split_ifs at hok ⊢ with hroom
  · rw [grow_run] at hok
    split_ifs at hok with hftruncate hmmap
    cases hok
    rw [hmapped]
    exact ⟨rfl, os.mmap_lt _ (by simpa using hmmap)⟩
  · cases hok
    exact ⟨rfl, hlt⟩

theorem append_of_reserve {os : OS} {s : MmapStore} {vec : List UInt8}
    (hmapped : s.mapped = true) (hcount : s.vecCount + 1 < 2 ^ 32)
    (hreserve : (reserve os).run s = .ok () (roomy s))
    (hhead : headerSize ≤ (roomy s).mapSize)
    (hfits : vecPtr s.dim s.vecCount + vec.length ≤ (roomy s).mapSize) :
    (append os vec).run s = .ok s.vecCount (appended s vec) := by
  unfold headerSize at hhead
  have hstore : ∀ (offset : ℕ) (bytes : List UInt8) (file : ByteFile)
      (count : ℕ), offset + bytes.length ≤ (roomy s).mapSize →
      (store offset bytes).run
          { roomy s with file := file, vecCount := count } =
        .ok () { roomy s with
          file := file.write offset bytes
          vecCount := count } := by
    intro offset bytes file count hle
    exact store_eq_ok.mpr ⟨(roomy_mapped s).trans hmapped, hle, rfl⟩
  have hpayload := hstore _ vec (roomy s).file (roomy s).vecCount hfits
  unfold append
  rw [bind_of_ok hreserve, run_get_bind, roomy_dim, roomy_vecCount]
  rw [roomy_vecCount] at hpayload
  rw [show roomy s = { roomy s with
      file := (roomy s).file, vecCount := s.vecCount } by
    rw [← roomy_vecCount s], bind_of_ok hpayload, run_modify_bind,
    run_get_bind, Nat.mod_eq_of_lt hcount,
    bind_of_ok (hstore _ _ _ _ (by simp; omega)), run_get_bind,
    bind_of_ok (hstore _ _ _ _ (by simp; omega))]
  rfl

namespace Holds

variable {dim : UInt32} {s : MmapStore} {vecs : List (Vec dim)}

theorem headerSize_le (h : Holds s vecs) : headerSize ≤ s.mapSize :=
  (headerSize_le_vecPtr dim vecs.length).trans h.fits

theorem appended (h : Holds s vecs) (hcount : vecs.length + 1 < 2 ^ 32)
    (hlt : (roomy s).mapSize < 2 ^ 63) (vec : Vec dim)
    (hfits : vecPtr dim (vecs.length + 1) ≤ (roomy s).mapSize) :
    Holds (appended s vec.bytes) (vecs ++ [vec]) where
  mapped := (roomy_mapped s).trans h.mapped
  mapSize_eq := roomy_mapSize_eq h.mapSize_eq
  mapSize_lt := hlt
  dim_eq := (roomy_dim s).trans h.dim_eq
  vecCount := by
    rw [List.length_append, List.length_singleton, ← h.vecCount]
    rfl
  count_lt := by simpa using hcount
  headed := by
    rw [List.length_append, List.length_singleton, ← h.vecCount]
    have hhead := h.headerSize_le.trans (mapSize_le_roomy s)
    rw [roomy_mapSize_eq h.mapSize_eq,
      ← ByteFile.write_size _ (vecPtr s.dim s.vecCount) vec.bytes] at hhead
    have hptr := headerSize_le_vecPtr s.dim s.vecCount
    unfold headerSize at hptr
    have hfields : ((roomy s).file.write (vecPtr s.dim s.vecCount)
        vec.bytes).read 0 20 = headerBytes dim vecs.length := by
      rw [ByteFile.read_write_of_disjoint (Or.inl (by omega)),
        ByteFile.read_eq_of_byte (roomy_byte h.mapSize_eq), h.headed.fields]
    exact recount_headed hhead hfields (s.vecCount + 1)
  fits := by
    rw [List.length_append, List.length_singleton]
    exact hfits
  payload := by
    intro i v hv
    have hptr := headerSize_le_vecPtr dim i
    have hread : (MmapStore.appended s vec.bytes).file.read (vecPtr dim i)
        (dim.toNat * 4) =
        ((roomy s).file.write (vecPtr dim vecs.length) vec.bytes).read
          (vecPtr dim i) (dim.toNat * 4) := by
      unfold MmapStore.appended
      rw [h.dim_eq, h.vecCount]
      exact ByteFile.read_congr fun j hj _ => recount_byte (hptr.trans hj)
    rw [hread]
    rw [vecPtr_succ] at hfits
    rcases Nat.lt_or_ge i vecs.length with hi | hi
    · rw [List.getElem?_append_left hi] at hv
      have hmono := vecPtr_mono dim hi
      rw [vecPtr_succ] at hmono
      rw [ByteFile.read_write_of_disjoint (Or.inl hmono),
        ByteFile.read_eq_of_byte (roomy_byte h.mapSize_eq)]
      exact h.payload i v hv
    · have hlt := (List.getElem?_eq_some_iff.mp hv).1
      rw [List.length_append, List.length_singleton] at hlt
      have hi' : i = vecs.length := by omega
      subst hi'
      have hself := ByteFile.read_write_self (roomy s).file
        (vecPtr dim vecs.length) vec.bytes (by
          rw [← roomy_mapSize_eq h.mapSize_eq, Vec.length_bytes]
          exact hfits)
      rw [Vec.length_bytes] at hself
      have hvec : vec = v := by simpa using hv
      rw [hself, hvec]

theorem append_run {os : OS} (h : Holds s vecs)
    (hcount : vecs.length + 1 < 2 ^ 32)
    (hreserve : (reserve os).run s = .ok () (roomy s)) (vec : Vec dim)
    (hfits : vecPtr dim (vecs.length + 1) ≤ (roomy s).mapSize) :
    (append os vec.bytes).run s =
      .ok vecs.length (MmapStore.appended s vec.bytes) := by
  rw [← h.vecCount] at hcount ⊢
  apply append_of_reserve h.mapped hcount hreserve
  · exact h.headerSize_le.trans (mapSize_le_roomy s)
  · rw [h.dim_eq, h.vecCount, Vec.length_bytes, ← vecPtr_succ]
    exact hfits

/-- An append that returns stayed inside the mapping and extended the list. -/
theorem append_eq_ok {os : OS} {s' : MmapStore} {id : ℕ} (h : Holds s vecs)
    (hcount : vecs.length + 1 < 2 ^ 32) {vec : Vec dim}
    (hok : (append os vec.bytes).run s = .ok id s') :
    s' = MmapStore.appended s vec.bytes ∧ id = vecs.length ∧
      Holds s' (vecs ++ [vec]) := by
  have happend := hok
  unfold append at hok
  rw [bind_eq_ok] at hok
  obtain ⟨_, s₁, hreserve, hok⟩ := hok
  obtain ⟨rfl, hlt⟩ := reserve_eq_ok h.mapped h.mapSize_lt
    (by rwa [h.vecCount]) hreserve
  rw [run_get_bind, bind_eq_ok] at hok
  obtain ⟨_, s₂, hpayload, _⟩ := hok
  have hfits := (store_eq_ok.mp hpayload).2.1
  rw [roomy_dim, roomy_vecCount, h.dim_eq, h.vecCount, Vec.length_bytes,
    ← vecPtr_succ] at hfits
  rw [h.append_run hcount hreserve vec hfits] at happend
  cases happend
  exact ⟨rfl, rfl, h.appended hcount hlt vec hfits⟩

theorem room (h : Holds s vecs) (hdim : dim.toNat * 4 ≤ growBytes) :
    vecPtr dim (vecs.length + 1) ≤ (roomy s).mapSize := by
  have hfits := h.fits
  have hsucc := vecPtr_succ dim vecs.length
  unfold roomy
  rw [h.dim_eq, h.vecCount]
  split_ifs with hroom
  · dsimp only
    omega
  · exact Nat.le_of_not_lt hroom

/-- What a segment left on disk opens to the same vectors. -/
theorem openFile_eq {os : OS} (h : Holds s vecs) (path : String)
    (hmmap : os.mmap s.mapSize = true) :
    openFile os path (some s.close) = .ok s := by
  have hhead := h.headerSize_le
  rw [h.mapSize_eq] at hhead hmmap
  unfold openFile close
  dsimp only
  rw [if_neg (by omega), if_neg (by simp [hmmap]),
    h.headed.readAndValidateHeader h.count_lt, ← h.vecCount]
  dsimp only
  rw [← h.mapSize_eq, ← h.dim_eq]
  cases s
  cases h.mapped
  rfl

theorem readAt_get (h : Holds s vecs) {i : ℕ} {vec : Vec dim}
    (hvec : vecs[i]? = some vec) :
    s.get i = .ok (vecPtr dim i) ∧
      s.readAt (vecPtr dim i) (dim.toNat * 4) = .ok vec.bytes := by
  have hi := (List.getElem?_eq_some_iff.mp hvec).1
  constructor
  · unfold get
    rw [h.vecCount, if_neg (by omega), h.dim_eq]
  · have hmono := vecPtr_mono dim hi
    rw [vecPtr_succ] at hmono
    unfold readAt
    rw [if_pos ⟨h.mapped, hmono.trans h.fits⟩, h.payload i vec hvec]

end Holds

end MmapStore
end VecDB
