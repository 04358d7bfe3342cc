import VecDB.ByteFile
import VecDB.Checksum
import VecDB.Platform
import Mathlib.Tactic

/-!
# The segment store

The `MmapStore` class over the bytes of its `.seg` file: a header of 64 bytes
and the vectors behind it, row after row.  As for the log, a store through the
mapping is a store to the file, and an address is an offset from `map_`.
-/

namespace VecDB

open LittleEndian

structure MmapStore where
  file : ByteFile
  mapped : Bool
  mapSize : ℕ
  dim : UInt32
  vecCount : ℕ

namespace MmapStore

def headerSize : ℕ := 64
def magic : ℕ := 0x56454344
def version : ℕ := 1
def initialData : ℕ := 1024 * 1024
def growBytes : ℕ := 64 * 1024 * 1024

def requiredSize (vecCount : ℕ) (dim : UInt32) : ℕ :=
  64 + vecCount * dim.toNat * 4

/-- Where vector `nodeId` starts. -/
def vecPtr (dim : UInt32) (nodeId : ℕ) : ℕ := 64 + nodeId * (dim.toNat * 4)

/-! ## Stores through the mapping -/

def store (offset : ℕ) (bytes : List UInt8) :
    EStateM Failure MmapStore Unit := fun s =>
  if s.mapped = true ∧ offset + bytes.length ≤ s.mapSize then
    .ok () { s with file := s.file.write offset bytes }
  else .error .accessViolation s

/-- A load of `count` bytes through the mapping. -/
def readAt (s : MmapStore) (offset count : ℕ) : Except Failure (List UInt8) :=
  if s.mapped = true ∧ offset + count ≤ s.mapSize then
    .ok (s.file.read offset count)
  else .error .accessViolation

def crc32Header (h : ByteFile) : UInt32 := crc32Buf (h.read 0 20)

/-! ## The header -/

def writeHeader (ns : ℕ) : EStateM Failure MmapStore Unit := do
  let s ← get
  store 0 (List.replicate headerSize 0)
  store 0 (encode 4 magic)
  store 4 (encode 2 version)
  store 6 (encode 2 0)
  store 8 (encode 8 s.vecCount)
  store 16 (encode 4 s.dim.toNat)
  store 20 (encode 4 (crc32Header (← get).file).toNat)
  store 24 (encode 8 ns)

/-- `dim_` and `vec_count_` from a valid header. -/
def readAndValidateHeader (h : ByteFile) : Except Failure (UInt32 × ℕ) :=
  let storedMagic := decode (h.read 0 4)
  let storedVersion := decode (h.read 4 2)
  let vc := decode (h.read 8 8)
  let d := decode (h.read 16 4)
  let storedCrc := decode (h.read 20 4)
  if storedMagic ≠ magic then
    .error (.runtimeError "MmapStore: bad magic — not a vecdb segment file")
  else if storedVersion ≠ version then
    .error (.runtimeError "MmapStore: unsupported segment version")
  else if storedCrc ≠ (crc32Header h).toNat then
    .error (.runtimeError "MmapStore: header CRC mismatch")
  else .ok (UInt32.ofNat d, vc % 2 ^ 32)

/-! ## Creating and opening -/

/-- `existing` is what is at the path; `O_EXCL` refuses a file. -/
def create (os : OS) (path : String) (existing : Option ByteFile)
    (dim : UInt32) (ns : ℕ) : Except Failure MmapStore :=
  if dim = 0 then .error (.invalidArgument "MmapStore: dim must be > 0")
  else if existing.isSome = true then
    .error (.runtimeError ("MmapStore: cannot create file: " ++ path))
  else if os.ftruncate (headerSize + initialData) = false then
    .error (.runtimeError "MmapStore: ftruncate failed on create")
  else if os.mmap (headerSize + initialData) = false then
    .error (.runtimeError "MmapStore: mmap failed on create")
  else
    match (writeHeader ns).run {
        file := ByteFile.empty.resize (headerSize + initialData)
        mapped := true
        mapSize := headerSize + initialData
        dim := dim
        vecCount := 0 } with
    | .ok _ s => .ok s
    | .error e _ => .error e

/-- The static `open`. -/
def openFile (os : OS) (path : String) (existing : Option ByteFile) :
    Except Failure MmapStore :=
  match existing with
  | none => .error (.runtimeError ("MmapStore: cannot open file: " ++ path))
  | some file =>
      if file.size < headerSize then
        .error (.runtimeError "MmapStore: file too small")
      else if os.mmap file.size = false then
        .error (.runtimeError "MmapStore: mmap failed on open")
      else
        match readAndValidateHeader file with
        | .error e => .error e
        | .ok (dim, vecCount) => .ok {
            file := file
            mapped := true
            mapSize := file.size
            dim := dim
            vecCount := vecCount }

/-! ## Appending and reading -/

def grow (os : OS) (newSize : ℕ) : EStateM Failure MmapStore Unit := do
  modify fun s => { s with mapped := false }
  if os.ftruncate newSize = false then
    throw (.runtimeError "MmapStore: ftruncate failed during grow")
  modify fun s => { s with file := s.file.resize newSize }
  if os.mmap newSize = false then
    throw (.runtimeError "MmapStore: mmap failed after grow")
  modify fun s => { s with mapped := true, mapSize := newSize }

/-- The first part of `append`: room for one more vector. -/
def reserve (os : OS) : EStateM Failure MmapStore Unit := do
  let s ← get
  let needed := requiredSize ((s.vecCount + 1) % 2 ^ 32) s.dim
  if s.mapSize < needed then grow os (s.mapSize + growBytes)

/-- `vec` is the `dim_ * 4` bytes behind the pointer. -/
def append (os : OS) (vec : List UInt8) : EStateM Failure MmapStore ℕ := do
  reserve os
  let s ← get
  store (vecPtr s.dim s.vecCount) vec
  modify fun s => { s with vecCount := (s.vecCount + 1) % 2 ^ 32 }
  store 8 (encode 8 (← get).vecCount)
  store 20 (encode 4 (crc32Header (← get).file).toNat)
  return s.vecCount

/-- The address of a vector. -/
def get (s : MmapStore) (nodeId : ℕ) : Except Failure ℕ :=
  if s.vecCount ≤ nodeId then
    .error (.outOfRange "MmapStore::get: node_id out of range")
  else .ok (vecPtr s.dim nodeId)

/-- What the destructor, or a process that is killed, leaves on disk. -/
def close (s : MmapStore) : ByteFile := s.file

end MmapStore

end VecDB
