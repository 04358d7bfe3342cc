import Mathlib.Tactic

/-!
# The table-driven checksum

`crc32` as the log and the segment store both compute it, one table lookup a
byte.
-/

namespace VecDB

/-- One round of `build_crc32_table`. -/
def crc32Round (c : UInt32) : UInt32 :=
  if c &&& 1 = 1 then (0xEDB88320 : UInt32) ^^^ (c >>> 1) else c >>> 1

/-- Entry `i` of `crc32_table`: eight rounds from `i`. -/
def crc32Table (i : UInt32) : UInt32 :=
  crc32Round^[8] i

def crc32Step (crc : UInt32) (p : UInt8) : UInt32 :=
  crc32Table ((crc ^^^ p.toUInt32) &&& 0xFF) ^^^ (crc >>> 8)

def crc32 (data : List UInt8) : UInt32 :=
  data.foldl crc32Step 0xFFFFFFFF ^^^ 0xFFFFFFFF

example : crc32 [0x31, 0x32, 0x33, 0x34, 0x35, 0x36, 0x37, 0x38, 0x39] =
    0xCBF43926 := by decide +kernel

/-- `crc32_buf` of the segment, with a table of its own that is filled the same
way. -/
def crc32Buf (data : List UInt8) : UInt32 := crc32 data

end VecDB
