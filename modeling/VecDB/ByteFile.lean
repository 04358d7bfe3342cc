import Mathlib.Data.List.GetD
import Mathlib.Tactic

/-!
# Files as sized byte maps

A file is a size together with a byte for every offset, zero from the size
onwards.  The zero tail is a field of the structure, so extending a file
exposes zero bytes by construction and no operation can leave garbage behind
the end.

`Effect` is one indivisible change of a file: a store through a shared
mapping or a change of size.  A run of effects is a fold, and the image left
by a process that stops is the fold over a prefix.
-/

@[ext] structure ByteFile where
  size : ℕ
  byte : ℕ → UInt8
  zero_beyond : ∀ i, size ≤ i → byte i = 0

namespace ByteFile

def empty : ByteFile where
  size := 0
  byte := fun _ => 0
  zero_beyond := fun _ _ => rfl

instance : Inhabited ByteFile := ⟨empty⟩

/-- The `count` bytes from `offset` on; beyond the end they read as zero. -/
def read (file : ByteFile) (offset count : ℕ) : List UInt8 :=
  (List.range count).map fun i => file.byte (offset + i)

/-- A store of `bytes` at `offset`, cut off at the end of the file. -/
def write (file : ByteFile) (offset : ℕ) (bytes : List UInt8) : ByteFile where
  size := file.size
  byte := fun i =>
    if offset ≤ i ∧ i < offset + bytes.length ∧ i < file.size then
      bytes.getD (i - offset) 0
    else file.byte i
  zero_beyond := by
    intro i hi
    rw [if_neg (by omega)]
    exact file.zero_beyond i hi

/-- `ftruncate`: cuts the file off or extends it with zero bytes. -/
def resize (file : ByteFile) (size : ℕ) : ByteFile where
  size := size
  byte := fun i => if i < size then file.byte i else 0
  zero_beyond := by
    intro i hi
    rw [if_neg (by omega)]

@[simp] theorem write_size (file : ByteFile) (offset : ℕ)
    (bytes : List UInt8) : (file.write offset bytes).size = file.size := rfl

@[simp] theorem resize_size (file : ByteFile) (size : ℕ) :
    (file.resize size).size = size := rfl

@[simp] theorem length_read (file : ByteFile) (offset count : ℕ) :
    (file.read offset count).length = count := by
  simp [read]

@[simp] theorem getElem_read (file : ByteFile) (offset count i : ℕ)
    (hi : i < (file.read offset count).length) :
    (file.read offset count)[i] = file.byte (offset + i) := by
  simp [read]

theorem write_byte_of_mem {file : ByteFile} {offset i : ℕ}
    {bytes : List UInt8} (hlo : offset ≤ i)
    (hhi : i < offset + bytes.length) (hsize : i < file.size) :
    (file.write offset bytes).byte i = bytes.getD (i - offset) 0 := by
  simp only [write]
  rw [if_pos ⟨hlo, hhi, hsize⟩]

theorem write_byte_of_not_mem {file : ByteFile} {offset i : ℕ}
    {bytes : List UInt8} (hout : i < offset ∨ offset + bytes.length ≤ i) :
    (file.write offset bytes).byte i = file.byte i := by
  simp only [write]
  rw [if_neg (by omega)]

theorem resize_byte_of_lt {file : ByteFile} {size i : ℕ} (hi : i < size) :
    (file.resize size).byte i = file.byte i := by
  simp [resize, hi]

theorem resize_byte_of_le {file : ByteFile} {size : ℕ}
    (hle : file.size ≤ size) : (file.resize size).byte = file.byte := by
  funext i
  by_cases hi : i < size
  · simp [resize, hi]
  · have hzero : file.byte i = 0 := file.zero_beyond i (by omega)
    simp [resize, hi, hzero]

theorem resize_resize_self (file : ByteFile) (size : ℕ) :
    (file.resize size).resize size = file.resize size := by
  apply ByteFile.ext
  · rfl
  · exact resize_byte_of_le le_rfl

theorem read_shift {file other : ByteFile} {offset source count : ℕ}
    (hbyte : ∀ i < count, file.byte (offset + i) = other.byte (source + i)) :
    file.read offset count = other.read source count := by
  apply List.map_congr_left
  intro i hi
  exact hbyte i (List.mem_range.mp hi)

theorem read_congr {file other : ByteFile} {offset count : ℕ}
    (hbyte : ∀ i, offset ≤ i → i < offset + count → file.byte i = other.byte i) :
    file.read offset count = other.read offset count :=
  read_shift fun i hi => hbyte (offset + i) (by omega) (by omega)

theorem read_eq_of_byte {file other : ByteFile} (hbyte : file.byte = other.byte)
    (offset count : ℕ) : file.read offset count = other.read offset count :=
  read_congr fun i _ _ => congrFun hbyte i

theorem read_write_self (file : ByteFile) (offset : ℕ) (bytes : List UInt8)
    (hfits : offset + bytes.length ≤ file.size) :
    (file.write offset bytes).read offset bytes.length = bytes := by
  apply List.ext_getElem (by simp)
  intro i hi hi'
  rw [getElem_read, write_byte_of_mem (by omega) (by omega) (by omega)]
  simp [hi']

theorem read_write_of_disjoint {file : ByteFile} {offset other count : ℕ}
    {bytes : List UInt8}
    (hout : other + count ≤ offset ∨ offset + bytes.length ≤ other) :
    (file.write offset bytes).read other count = file.read other count :=
  read_congr fun i hlo hhi => write_byte_of_not_mem (by omega)

theorem read_write_take (file : ByteFile) (offset : ℕ) (bytes : List UInt8)
    (count : ℕ) (hfits : offset + bytes.length ≤ file.size) :
    (file.write offset (bytes.take count)).read offset bytes.length =
      bytes.take count ++ (file.read offset bytes.length).drop count := by
  apply List.ext_getElem
  · simp only [length_read, List.length_append, List.length_take,
      List.length_drop]
    omega
  intro i hi hi'
  have hlt : i < bytes.length := by simpa using hi
  rw [getElem_read]
  by_cases hcount : i < count
  · have hin : i < (bytes.take count).length := by
      rw [List.length_take]
      omega
    rw [write_byte_of_mem (by omega) (by omega) (by omega),
      List.getElem_append_left hin, List.getD_eq_getElem _ _ (by omega)]
    congr 1
    omega
  · have hout : (bytes.take count).length ≤ i := by
      rw [List.length_take]
      omega
    rw [write_byte_of_not_mem (by omega), List.getElem_append_right hout,
      List.getElem_drop, getElem_read]
    congr 1
    rw [List.length_take] at hout ⊢
    omega

theorem read_append (file : ByteFile) (offset first second : ℕ) :
    file.read offset (first + second) =
      file.read offset first ++ file.read (offset + first) second := by
  simp [read, List.range_add, Nat.add_assoc, Function.comp_def]

theorem read_eq_replicate_zero {file : ByteFile} {offset count : ℕ}
    (hzero : ∀ i, offset ≤ i → i < offset + count → file.byte i = 0) :
    file.read offset count = List.replicate count 0 := by
  apply List.ext_getElem (by simp)
  intro i hi hi'
  have hlt : i < count := by simpa using hi
  rw [getElem_read, List.getElem_replicate]
  exact hzero (offset + i) (by omega) (by omega)

theorem write_write_append (file : ByteFile) (offset : ℕ)
    (first second : List UInt8) :
    (file.write offset first).write (offset + first.length) second =
      file.write offset (first ++ second) := by
  apply ByteFile.ext
  · rfl
  funext i
  rcases Nat.lt_or_ge i file.size with hsize | hsize
  · by_cases hsecond : offset + first.length ≤ i ∧
        i < offset + first.length + second.length
    · have hsize' : i < (file.write offset first).size := hsize
      rw [write_byte_of_mem hsecond.1 hsecond.2 hsize',
        write_byte_of_mem (by omega) (by simp; omega) hsize,
        List.getD_append_right _ _ _ _ (by omega)]
      congr 1
      omega
    · rw [write_byte_of_not_mem (by omega)]
      by_cases hfirst : offset ≤ i ∧ i < offset + first.length
      · rw [write_byte_of_mem hfirst.1 hfirst.2 hsize,
          write_byte_of_mem (by omega) (by simp; omega) hsize,
          List.getD_append _ _ _ _ (by omega)]
      · rw [write_byte_of_not_mem (by omega),
          write_byte_of_not_mem (by simp; omega)]
  · rw [((file.write offset first).write _ second).zero_beyond i hsize,
      (file.write offset (first ++ second)).zero_beyond i hsize]

@[simp] theorem write_nil (file : ByteFile) (offset : ℕ) :
    file.write offset [] = file := by
  apply ByteFile.ext
  · rfl
  funext i
  exact write_byte_of_not_mem (by simp; omega)

theorem write_write_of_length (file : ByteFile) (offset : ℕ)
    {first second : List UInt8} (hlength : first.length = second.length) :
    (file.write offset first).write offset second = file.write offset second := by
  apply ByteFile.ext
  · rfl
  funext i
  rcases Nat.lt_or_ge i file.size with hsize | hsize
  · by_cases hin : offset ≤ i ∧ i < offset + second.length
    · have hsize' : i < (file.write offset first).size := hsize
      rw [write_byte_of_mem hin.1 hin.2 hsize',
        write_byte_of_mem hin.1 hin.2 hsize]
    · rw [write_byte_of_not_mem (by omega), write_byte_of_not_mem (by omega),
        write_byte_of_not_mem (by omega)]
  · rw [((file.write offset first).write offset second).zero_beyond i hsize,
      (file.write offset second).zero_beyond i hsize]

theorem write_zero_byte (file : ByteFile) (offset count i : ℕ) :
    (file.write offset (List.replicate count 0)).byte i =
      if offset ≤ i ∧ i < offset + count then 0 else file.byte i := by
  by_cases hin : offset ≤ i ∧ i < offset + count
  · rw [if_pos hin]
    rcases Nat.lt_or_ge i file.size with hsize | hsize
    · rw [write_byte_of_mem hin.1 (by simpa using hin.2) hsize,
        List.getD_replicate _ (by omega)]
    · exact (file.write offset _).zero_beyond i hsize
  · rw [if_neg hin, write_byte_of_not_mem]
    rw [List.length_replicate]
    omega

/-- Extending a file exposes zero bytes. -/
theorem write_zero_resize {file : ByteFile} (offset count : ℕ) {size : ℕ}
    (hle : file.size ≤ size) :
    (file.resize size).write offset (List.replicate count 0) =
      (file.write offset (List.replicate count 0)).resize size := by
  apply ByteFile.ext
  · rfl
  funext i
  have hle' : (file.write offset (List.replicate count 0)).size ≤ size := hle
  rw [resize_byte_of_le hle', write_zero_byte, write_zero_byte,
    resize_byte_of_le hle]

/-! ## Effects and the images they leave -/

inductive Effect where
  | store (offset : ℕ) (bytes : List UInt8)
  | resize (size : ℕ)
  deriving DecidableEq, Repr

def Effect.apply (file : ByteFile) : Effect → ByteFile
  | .store offset bytes => file.write offset bytes
  | .resize size => file.resize size

/-- The file after a list of effects, in order. -/
def applyAll (file : ByteFile) (effects : List Effect) : ByteFile :=
  effects.foldl Effect.apply file

@[simp] theorem applyAll_nil (file : ByteFile) : file.applyAll [] = file := rfl

@[simp] theorem applyAll_cons (file : ByteFile) (effect : Effect)
    (effects : List Effect) :
    file.applyAll (effect :: effects) =
      (effect.apply file).applyAll effects := rfl

theorem applyAll_append (file : ByteFile) (first second : List Effect) :
    file.applyAll (first ++ second) =
      (file.applyAll first).applyAll second :=
  List.foldl_append

/-- The single-byte stores that make up a store. -/
def bytewise (offset : ℕ) (bytes : List UInt8) : List Effect :=
  bytes.mapIdx fun i byte => .store (offset + i) [byte]

theorem bytewise_append (offset : ℕ) (first second : List UInt8) :
    bytewise offset (first ++ second) =
      bytewise offset first ++ bytewise (offset + first.length) second := by
  unfold bytewise
  rw [List.mapIdx_append]
  congr 1
  apply congrArg (fun f => List.mapIdx f second)
  funext i byte
  rw [show offset + (i + first.length) = offset + first.length + i by omega]

theorem applyAll_take_bytewise (file : ByteFile) (offset : ℕ)
    (bytes : List UInt8) (count : ℕ) :
    file.applyAll ((bytewise offset bytes).take count) =
      file.write offset (bytes.take count) := by
  induction bytes generalizing file offset count with
  | nil => simp [bytewise]
  | cons byte bytes ih =>
      cases count with
      | zero => simp
      | succ count =>
          have hcons : bytewise offset (byte :: bytes) =
              .store offset [byte] :: bytewise (offset + 1) bytes := by
            have hsplit := bytewise_append offset [byte] bytes
            simpa [bytewise] using hsplit
          rw [hcons, List.take_succ_cons, List.take_succ_cons, applyAll_cons,
            ih]
          exact write_write_append file offset [byte] (bytes.take count)

/-- An effect that only stores below `bound`. -/
def Effect.StoresBelow (bound : ℕ) : Effect → Prop
  | .store offset bytes => offset + bytes.length ≤ bound
  | .resize _ => False

theorem applyAll_of_storesBelow {bound : ℕ} {effects : List Effect}
    (hbelow : ∀ effect ∈ effects, effect.StoresBelow bound)
    (file : ByteFile) :
    (file.applyAll effects).size = file.size ∧
      ∀ i, bound ≤ i → (file.applyAll effects).byte i = file.byte i := by
  induction effects generalizing file with
  | nil => exact ⟨rfl, fun _ _ => rfl⟩
  | cons effect effects ih =>
      have hhead := hbelow effect (by simp)
      have htail := ih (fun other hother => hbelow other (by simp [hother]))
      cases effect with
      | store offset bytes =>
          obtain ⟨hsize, hbyte⟩ := htail (file.write offset bytes)
          refine ⟨hsize, fun i hi => (hbyte i hi).trans ?_⟩
          simp only [Effect.StoresBelow] at hhead
          exact write_byte_of_not_mem (by omega)
      | resize size => exact hhead.elim

/-! ## Stops between two bytes -/

@[simp] theorem length_bytewise (offset : ℕ) (bytes : List UInt8) :
    (bytewise offset bytes).length = bytes.length := by
  simp [bytewise]

/-- An effect, a byte at a time. -/
def Effect.pieces : Effect → List Effect
  | .store offset bytes => bytewise offset bytes
  | .resize size => [.resize size]

theorem applyAll_pieces (file : ByteFile) (effect : Effect) :
    file.applyAll effect.pieces = effect.apply file := by
  cases effect with
  | store offset bytes =>
      have hall := applyAll_take_bytewise file offset bytes bytes.length
      rw [← length_bytewise offset bytes, List.take_length,
        length_bytewise, List.take_length] at hall
      exact hall
  | resize size => rfl

theorem applyAll_flatMap_pieces (file : ByteFile) (effects : List Effect) :
    file.applyAll (effects.flatMap Effect.pieces) = file.applyAll effects := by
  induction effects generalizing file with
  | nil => rfl
  | cons effect effects ih =>
      rw [List.flatMap_cons, applyAll_append, applyAll_pieces, ih,
        applyAll_cons]

/-- `P` holds of every file that a process leaves which stops inside the
effects. -/
def AtEveryStop (P : ByteFile → Prop) (file : ByteFile)
    (effects : List Effect) : Prop :=
  ∀ count, P (file.applyAll ((effects.flatMap Effect.pieces).take count))

section AtEveryStop

variable {P : ByteFile → Prop} {file : ByteFile} {rest : List Effect}

theorem atEveryStop_nil (hfile : P file) : AtEveryStop P file [] := by
  intro count
  simpa using hfile

theorem AtEveryStop.append {effects : List Effect}
    (h : AtEveryStop P file effects)
    (hrest : AtEveryStop P (file.applyAll effects) rest) :
    AtEveryStop P file (effects ++ rest) := by
  intro count
  rw [List.flatMap_append, List.take_append, applyAll_append]
  rcases Nat.lt_or_ge count (effects.flatMap Effect.pieces).length with
    hlt | hge
  · rw [Nat.sub_eq_zero_of_le hlt.le, List.take_zero, applyAll_nil]
    exact h count
  · rw [List.take_of_length_le hge, applyAll_flatMap_pieces]
    exact hrest _

theorem AtEveryStop.store {offset : ℕ} {bytes : List UInt8}
    (hpart : ∀ count, P (file.write offset (bytes.take count)))
    (hrest : AtEveryStop P (file.write offset bytes) rest) :
    AtEveryStop P file (.store offset bytes :: rest) := by
  have hone : AtEveryStop P file [.store offset bytes] := by
    intro count
    rw [List.flatMap_singleton, Effect.pieces, applyAll_take_bytewise]
    exact hpart count
  exact hone.append hrest

theorem AtEveryStop.resize {size : ℕ} (hfile : P file)
    (hrest : AtEveryStop P (file.resize size) rest) :
    AtEveryStop P file (.resize size :: rest) := by
  have hone : AtEveryStop P file [.resize size] := by
    intro count
    cases count with
    | zero => simpa using hfile
    | succ count =>
        have hafter := hrest 0
        rw [List.take_zero, applyAll_nil] at hafter
        simpa [Effect.pieces, Effect.apply] using hafter
  exact hone.append hrest

end AtEveryStop

theorem Effect.StoresBelow.pieces {bound : ℕ} {effect : Effect}
    (h : effect.StoresBelow bound) :
    ∀ piece ∈ effect.pieces, piece.StoresBelow bound := by
  cases effect with
  | store offset bytes =>
      intro piece hpiece
      obtain ⟨i, hi, rfl⟩ := List.mem_mapIdx.mp hpiece
      simp only [Effect.StoresBelow, List.length_singleton] at h ⊢
      omega
  | resize size => exact h.elim

end ByteFile
