import VecDB.ByteFile
import VecDB.Checksum
import VecDB.Platform
import Mathlib.Tactic

/-!
# The write-ahead log

The `WAL` class over the bytes of its file.  The file is mapped shared, so a
store through `map_` is a store to the file and survives the process; `msync`
and `munmap` change no byte.  An address is an offset from `map_`.

Sizes and log sequence numbers are naturals: an operating system refuses
`2 ^ 63` bytes, so no product or sum below reaches `2 ^ 64`.
-/

namespace VecDB

open LittleEndian

structure WALEntry (dim : UInt32) where
  lsn : ℕ
  vectorId : UInt64
  dimField : ℕ
  vec : Vec dim
  deriving DecidableEq, Repr

/-- `mapped` is `map_ != nullptr`. -/
structure WAL (dim : UInt32) where
  checkpointEvery : ℕ
  file : ByteFile
  mapped : Bool
  mapSize : ℕ
  nextLsn : ℕ
  checkpointLsn : ℕ
  appendsSinceCkpt : ℕ

namespace WAL

def headerSize : ℕ := 64
def magic : ℕ := 0x57414C21
def version : ℕ := 1
def initialSize : ℕ := 4 * 1024 * 1024
def growSize : ℕ := 16 * 1024 * 1024

def lsnOff : ℕ := 0
def vidOff : ℕ := 8
def dimOff : ℕ := 16
def crcOff : ℕ := 20
def dataOff : ℕ := 24
def fixedHdr : ℕ := 24

def entrySize (dim : UInt32) : ℕ := fixedHdr + dim.toNat * 4

def entryPtr (dim : UInt32) (lsn : ℕ) : ℕ := headerSize + lsn * entrySize dim

variable {dim : UInt32}

/-! ## Stores through the mapping -/

abbrev Store := ℕ × List UInt8

def Store.effect (store : Store) : ByteFile.Effect := .store store.1 store.2

def store (offset : ℕ) (bytes : List UInt8) :
    EStateM Failure (WAL dim) Unit := fun w =>
  if w.mapped = true ∧ offset + bytes.length ≤ w.mapSize then
    .ok () { w with file := w.file.write offset bytes }
  else .error .accessViolation w

def storeAll : List Store → EStateM Failure (WAL dim) Unit
  | [] => pure ()
  | (offset, bytes) :: rest => do
      store offset bytes
      storeAll rest

/-! ## The header -/

def headerStores (dim : UInt32) (checkpointLsn : ℕ) : List Store :=
  [(0, List.replicate headerSize 0),
    (0, encode 4 magic),
    (4, encode 4 version),
    (8, encode 8 checkpointLsn),
    (16, encode 4 dim.toNat)]

/-- The header checksum, over the first 20 bytes in memory. -/
def headerCrc (file : ByteFile) : UInt32 := crc32 (file.read 0 20)

def writeHeader : EStateM Failure (WAL dim) Unit := do
  storeAll (headerStores dim (← get).checkpointLsn)
  store 20 (encode 4 (headerCrc (← get).file).toNat)

/-- The checkpoint a valid header records, or the exception the constructor
throws on it. -/
def readHeader (dim : UInt32) (h : ByteFile) : Except Failure ℕ :=
  let storedMagic := decode (h.read 0 4)
  let storedVersion := decode (h.read 4 4)
  let ckptLsn := decode (h.read 8 8)
  let storedDim := decode (h.read 16 4)
  let hcrc := decode (h.read 20 4)
  if storedMagic ≠ magic then
    .error (.runtimeError "WAL: bad magic — file is not a vecdb WAL")
  else if storedVersion ≠ version then
    .error (.runtimeError "WAL: unsupported WAL version")
  else if hcrc ≠ (headerCrc h).toNat then
    .error (.runtimeError "WAL: header CRC mismatch — file may be corrupt")
  else if storedDim ≠ 0 ∧ storedDim ≠ dim.toNat then
    .error (.runtimeError
      "WAL: dim mismatch — file was created with different dim")
  else .ok ckptLsn

/-! ## Entries on file -/

def storedLsn (dim : UInt32) (file : ByteFile) (lsn : ℕ) : ℕ :=
  decode (file.read (entryPtr dim lsn + lsnOff) 8)

def storedVectorId (dim : UInt32) (file : ByteFile) (lsn : ℕ) : UInt64 :=
  UInt64.ofNat (decode (file.read (entryPtr dim lsn + vidOff) 8))

def storedDim (dim : UInt32) (file : ByteFile) (lsn : ℕ) : ℕ :=
  decode (file.read (entryPtr dim lsn + dimOff) 4)

def storedCrc (dim : UInt32) (file : ByteFile) (lsn : ℕ) : ℕ :=
  decode (file.read (entryPtr dim lsn + crcOff) 4)

def storedPayload (dim : UInt32) (file : ByteFile) (lsn : ℕ) : List UInt8 :=
  file.read (entryPtr dim lsn + dataOff) (dim.toNat * 4)

/-- The constructor's scan: the first slot from `lsn` on that is not a valid
entry.  `fuel` bounds the slots that fit the mapping. -/
def scanFrom (dim : UInt32) (file : ByteFile) (mapSize : ℕ) : ℕ → ℕ → ℕ
  | 0, lsn => lsn
  | fuel + 1, lsn =>
      if mapSize < entryPtr dim lsn + entrySize dim then lsn
      else if storedLsn dim file lsn ≠ lsn then lsn
      else if storedDim dim file lsn ≠ dim.toNat then lsn
      else if (crc32 (storedPayload dim file lsn)).toNat ≠
          storedCrc dim file lsn then lsn
      else scanFrom dim file mapSize fuel (lsn + 1)

def scanFuel (dim : UInt32) (mapSize : ℕ) : ℕ := mapSize / entrySize dim + 1

/-- `replay` from slot `lsn` on: the entries handed to the callback, in
order, and their count. -/
def replayFrom (dim : UInt32) (file : ByteFile) (mapSize : ℕ) :
    ℕ → ℕ → List (WALEntry dim) × ℕ
  | 0, _ => ([], 0)
  | fuel + 1, lsn =>
      if mapSize < entryPtr dim lsn + entrySize dim then ([], 0)
      else if storedLsn dim file lsn ≠ lsn then ([], 0)
      else if storedDim dim file lsn ≠ dim.toNat then ([], 0)
      else if storedCrc dim file lsn ≠
          (crc32 (storedPayload dim file lsn)).toNat then ([], 0)
      else
        let entry : WALEntry dim := {
          lsn := lsn
          vectorId := storedVectorId dim file lsn
          dimField := storedDim dim file lsn
          vec := Vec.ofBytes dim (storedPayload dim file lsn) }
        let (entries, count) := replayFrom dim file mapSize fuel (lsn + 1)
        (entry :: entries, count + 1)

def replay (w : WAL dim) : List (WALEntry dim) × ℕ :=
  replayFrom dim w.file w.mapSize (scanFuel dim w.mapSize) 0

/-! ## Opening -/

/-- The file the constructor maps: at least `INITIAL_SIZE` bytes of it. -/
def opened (file : ByteFile) : ByteFile :=
  if file.size < max file.size initialSize then
    file.resize (max file.size initialSize)
  else file

def openOrCreate (os : OS) (dim : UInt32) (checkpointEvery : ℕ)
    (path : Option ByteFile) : Except Failure (WAL dim) :=
  match path with
  | none =>
      if os.ftruncate initialSize = false then
        .error (.runtimeError "WAL: ftruncate failed on new file")
      else if os.mmap initialSize = false then
        .error (.runtimeError "WAL: mmap failed on new file")
      else
        let w : WAL dim := {
          checkpointEvery := checkpointEvery
          file := ByteFile.empty.resize initialSize
          mapped := true
          mapSize := initialSize
          nextLsn := 0
          checkpointLsn := 0
          appendsSinceCkpt := 0 }
        match writeHeader.run w with
        | .ok _ w => .ok w
        | .error e _ => .error e
  | some file =>
      if file.size < headerSize then
        .error (.runtimeError "WAL: file too small to contain a valid header")
      else
        let mapSize := max file.size initialSize
        if file.size < mapSize ∧ os.ftruncate mapSize = false then
          .error (.runtimeError "WAL: ftruncate failed on existing file")
        else
          let file := opened file
          if os.mmap mapSize = false then
            .error (.runtimeError "WAL: mmap failed on existing file")
          else
            match readHeader dim file with
            | .error e => .error e
            | .ok ckptLsn => .ok {
                checkpointEvery := checkpointEvery
                file := file
                mapped := true
                mapSize := mapSize
                nextLsn := scanFrom dim file mapSize (scanFuel dim mapSize) 0
                checkpointLsn := ckptLsn
                appendsSinceCkpt := 0 }

/-- The constructor. -/
def new (os : OS) (dim : UInt32) (checkpointEvery : ℕ)
    (path : Option ByteFile) : Except Failure (WAL dim) :=
  if dim = 0 then .error (.invalidArgument "WAL: dim must be > 0")
  else openOrCreate os dim checkpointEvery path

/-! ## Appending -/

def grow (os : OS) (newSize : ℕ) : EStateM Failure (WAL dim) Unit := do
  modify fun w => { w with mapped := false }
  if os.ftruncate newSize = false then
    throw (.runtimeError "WAL: ftruncate failed")
  modify fun w => { w with file := w.file.resize newSize }
  if os.mmap newSize = false then
    throw (.runtimeError "WAL: mmap failed after grow")
  modify fun w => { w with mapped := true, mapSize := newSize }

def checkpoint : EStateM Failure (WAL dim) Unit := do
  modify fun w => { w with checkpointLsn := w.nextLsn, appendsSinceCkpt := 0 }
  store 8 (encode 8 (← get).checkpointLsn)
  store 20 (encode 4 (headerCrc (← get).file).toNat)

/-- The five stores of `append` for entry `lsn`. -/
def entryStores (lsn : ℕ) (vectorId : UInt64) (vec : Vec dim) : List Store :=
  let ep := entryPtr dim lsn
  [(ep + lsnOff, encode 8 lsn),
    (ep + vidOff, encode 8 vectorId.toNat),
    (ep + dimOff, encode 4 dim.toNat),
    (ep + crcOff, encode 4 (crc32 vec.bytes).toNat),
    (ep + dataOff, vec.bytes)]

/-- The first part of `append`: room for one more entry. -/
def reserve (os : OS) : EStateM Failure (WAL dim) Unit := do
  let w ← get
  let needed := headerSize + (w.nextLsn + 1) * entrySize dim
  if w.mapSize < needed then grow os (w.mapSize + growSize)

/-- The last part of `append`: the checkpoint when the threshold is met. -/
def autoCheckpoint : EStateM Failure (WAL dim) Unit := do
  let w ← get
  if 0 < w.checkpointEvery ∧ w.checkpointEvery ≤ w.appendsSinceCkpt then
    checkpoint

def countAppend (w : WAL dim) : WAL dim := { w with
  nextLsn := w.nextLsn + 1
  appendsSinceCkpt := (w.appendsSinceCkpt + 1) % 2 ^ 32 }

/-- `append` up to the point where its entry is stored and counted. -/
def writeEntry (os : OS) (vectorId : UInt64) (vec : Vec dim) :
    EStateM Failure (WAL dim) ℕ := do
  reserve os
  let lsn := (← get).nextLsn
  storeAll (entryStores lsn vectorId vec)
  modify countAppend
  return lsn

def append (os : OS) (vectorId : UInt64) (vec : Vec dim) :
    EStateM Failure (WAL dim) ℕ := do
  let lsn ← writeEntry os vectorId vec
  autoCheckpoint
  return lsn

/-! ## Truncation -/

/-- The rewrite of the LSN field of every kept entry. -/
def renumberStores (dim : UInt32) (count : ℕ) : List Store :=
  (List.range count).map fun i => (entryPtr dim i + lsnOff, encode 8 i)

def truncate (os : OS) (keepFromLsn : ℕ) : EStateM Failure (WAL dim) Unit := do
  let w ← get
  if keepFromLsn ≤ w.checkpointLsn then return
  let keepFromLsn := if w.nextLsn ≤ keepFromLsn then w.nextLsn else keepFromLsn
  let entriesToKeep := w.nextLsn - keepFromLsn
  let dataToKeep := entriesToKeep * entrySize dim
  let srcOffset := headerSize + keepFromLsn * entrySize dim
  let newFileSize := headerSize + dataToKeep
  if 0 < dataToKeep ∧ srcOffset < w.mapSize then
    store headerSize (w.file.read srcOffset dataToKeep)
  storeAll (renumberStores dim entriesToKeep)
  modify fun w => { w with
    nextLsn := entriesToKeep
    checkpointLsn := 0
    appendsSinceCkpt := 0
    mapped := false }
  if os.ftruncate newFileSize = false then
    throw (.runtimeError "WAL: ftruncate failed during truncate")
  modify fun w => { w with file := w.file.resize newFileSize }
  let remapSize := max newFileSize initialSize
  if newFileSize < remapSize then
    if os.ftruncate remapSize = false then
      throw (.runtimeError "WAL: ftruncate failed during remap")
    modify fun w => { w with file := w.file.resize remapSize }
  if os.mmap remapSize = false then
    throw (.runtimeError "WAL: mmap failed after truncate")
  modify fun w => { w with mapped := true, mapSize := remapSize }
  writeHeader

/-- What the destructor, or a process that is killed, leaves on disk. -/
def close (w : WAL dim) : ByteFile := w.file

end WAL

end VecDB
