import VecDB.SegmentInvariant
import Mathlib.Tactic

/-!
# The segments that `open` accepts

The header of a segment file states a 64-bit count, and `open` takes its low 32
bits without a look at the length of the file.
-/

namespace VecDB
namespace MmapStore

open LittleEndian

/-- The `vec_count` field. -/
def storedCount (file : ByteFile) : ℕ := decode (file.read 8 8)

/-- The `dim` field. -/
def storedDim (file : ByteFile) : ℕ := decode (file.read 16 4)

/-- An open segment gives out what its file states and nothing behind it. -/
structure Served (file : ByteFile) (s : MmapStore) : Prop where
  count : s.vecCount = storedCount file
  rows : ∀ i < s.vecCount, ∃ ptr, s.get i = .ok ptr ∧
    ptr + s.dim.toNat * 4 ≤ file.size
  fits : 64 + s.vecCount * s.dim.toNat * 4 ≤ file.size

theorem storedDim_lt (file : ByteFile) : storedDim file < 2 ^ 32 := by
  have hlt := decode_lt (file.read 16 4)
  rw [ByteFile.length_read] at hlt
  exact hlt

/-- What `open` takes over from a file it accepts. -/
theorem openFile_fields {os : OS} {path : String} {file : ByteFile}
    {s : MmapStore} (hopen : openFile os path (some file) = .ok s) :
    headerSize ≤ file.size ∧ s.dim.toNat = storedDim file ∧
      s.vecCount = storedCount file % 2 ^ 32 := by
  unfold openFile at hopen
  dsimp only at hopen
  split_ifs at hopen with hsmall hmmap
  cases hread : readAndValidateHeader file with
  | error e => simp [hread] at hopen
  | ok header =>
      obtain ⟨dim, vecCount⟩ := header
      rw [hread] at hopen
      cases hopen
      obtain ⟨_, _, _, hdim, hcount⟩ := readAndValidateHeader_eq_ok.mp hread
      refine ⟨Nat.le_of_not_lt hsmall, ?_, hcount.symm⟩
      dsimp only
      rw [← hdim]
      exact UInt32.toNat_ofNat_of_lt' (storedDim_lt file)

theorem get_of_lt {s : MmapStore} {i : ℕ} (hi : i < s.vecCount) :
    s.get i = .ok (vecPtr s.dim i) :=
  if_neg (Nat.not_le_of_lt hi)

/-- An accepted file is served as it states exactly when its count fits the
32-bit field and its rows fit the file. -/
theorem openFile_served_iff {os : OS} {path : String} {file : ByteFile}
    {s : MmapStore} (hopen : openFile os path (some file) = .ok s) :
    Served file s ↔ storedCount file < 2 ^ 32 ∧
      64 + storedCount file * storedDim file * 4 ≤ file.size := by
  obtain ⟨_, hdim, hcount⟩ := openFile_fields hopen
  constructor
  · intro h
    have hstated := h.count
    have hfits := h.fits
    rw [hstated, hdim] at hfits
    refine ⟨?_, hfits⟩
    rw [← hstated, hcount]
    exact Nat.mod_lt _ (by norm_num)
  · rintro ⟨hlt, hfits⟩
    rw [Nat.mod_eq_of_lt hlt] at hcount
    rw [← hcount, ← hdim] at hfits
    refine ⟨hcount, fun i hi => ⟨vecPtr s.dim i, get_of_lt hi, ?_⟩, hfits⟩
    rw [← vecPtr_succ]
    have hend : vecPtr s.dim s.vecCount ≤ file.size := by
      rw [← requiredSize_eq]
      exact hfits
    exact (vecPtr_mono s.dim hi).trans hend

/-- A segment of two vectors. -/
def twoRows : MmapStore :=
  appended (appended (created 1 0) (Vec.ofBytes 1 [1, 2, 3, 4]).bytes)
    (Vec.ofBytes 1 [5, 6, 7, 8]).bytes

theorem twoRows_holds : Holds twoRows
    [Vec.ofBytes 1 [1, 2, 3, 4], Vec.ofBytes 1 [5, 6, 7, 8]] :=
  ((created_holds 1 0).appended (by decide) (by decide +kernel)
    (Vec.ofBytes 1 [1, 2, 3, 4]) (by decide +kernel)).appended (by decide)
      (by decide +kernel) (Vec.ofBytes 1 [5, 6, 7, 8]) (by decide +kernel)

theorem openFile_served_iff_twoRows :
    openFile OS.reliable "v.seg" (some twoRows.close) = .ok twoRows ∧
      twoRows.vecCount = 2 ∧ Served twoRows.close twoRows := by
  have hopen : openFile OS.reliable "v.seg" (some twoRows.close) =
      .ok twoRows := twoRows_holds.openFile_eq "v.seg" (by decide +kernel)
  exact ⟨hopen, rfl, (openFile_served_iff hopen).mpr
    ⟨by decide +kernel, by decide +kernel⟩⟩

/-- A header of one vector and nothing behind it. -/
def cutShort : ByteFile :=
  headerImage (ByteFile.empty.resize headerSize) 1 1 0

/-- It opens, and the one row lies behind its end. -/
theorem openFile_cutShort :
    ∃ s, openFile OS.reliable "v.seg" (some cutShort) = .ok s ∧
      ¬ Served cutShort s := by
  have hheaded : Headed cutShort 1 1 :=
    headerImage_headed (ByteFile.resize_size _ _).ge 0
  have hsize : cutShort.size = headerSize := rfl
  refine ⟨{ file := cutShort, mapped := true, mapSize := cutShort.size
            dim := 1, vecCount := 1 }, ?_, ?_⟩
  · unfold openFile
    dsimp only
    rw [hsize, if_neg (lt_irrefl _), if_neg (by simp [OS.reliable, headerSize]),
      hheaded.readAndValidateHeader (by norm_num)]
  · intro h
    have hfits := h.fits
    rw [hsize] at hfits
    simp [headerSize] at hfits

end MmapStore
end VecDB
