import VecDB.WalInvariant
import Mathlib.Tactic

/-!
# Appending behind a torn tail

A scan stops at the first slot that is not valid, and the next append reuses
that slot.  Nothing clears the slots behind it, so what an old run left there
counts again once the log reaches it.  The log replays exactly what the scan
accepted and what was appended precisely when the slot behind the last append
is not a valid entry in the file as it was opened.
-/

namespace VecDB
namespace WAL

variable {dim : UInt32}

def appendAll (os : OS) :
    List (UInt64 × Vec dim) → EStateM Failure (WAL dim) Unit
  | [] => pure ()
  | (vectorId, vec) :: rest => do
      let _ ← append os vectorId vec
      appendAll os rest

/-- The size of the mapping once `count` entries had to fit into one of
`size` bytes that grows a step at a time. -/
def mappedFor (dim : UInt32) (size count : ℕ) : ℕ :=
  size + growSize * ((entryPtr dim count - size + (growSize - 1)) / growSize)

theorem mappedFor_of_le {size count : ℕ} (hle : entryPtr dim count ≤ size) :
    mappedFor dim size count = size := by
  unfold mappedFor growSize
  omega

theorem reserved_mapSize {w : WAL dim} (hentry : entrySize dim ≤ growSize)
    (hfits : entryPtr dim w.nextLsn ≤ w.mapSize) :
    (reserved w).mapSize = mappedFor dim w.mapSize (w.nextLsn + 1) := by
  have hsucc := entryPtr_succ dim w.nextLsn
  have hneeded : headerSize + (w.nextLsn + 1) * entrySize dim =
      entryPtr dim (w.nextLsn + 1) := rfl
  unfold reserved mappedFor
  rw [hneeded]
  unfold growSize at hentry ⊢
  split_ifs with hroom
  · dsimp only
    omega
  · omega

theorem mappedFor_mappedFor {size first second : ℕ} (hle : first ≤ second) :
    mappedFor dim (mappedFor dim size first) second =
      mappedFor dim size second := by
  have hmono := entryPtr_mono dim hle
  unfold mappedFor growSize
  omega

/-- What a run of appends does to the log, and which bytes it leaves alone. -/
theorem Holds.appendAll_eq_ok {os : OS} {w w' : WAL dim}
    {entries more : List (UInt64 × Vec dim)} (h : Holds w entries)
    (hentry : entrySize dim ≤ growSize)
    (hok : (appendAll os more).run w = .ok () w') :
    Holds w' (entries ++ more) ∧
      w'.mapSize = mappedFor dim w.mapSize (entries.length + more.length) ∧
        ∀ i, entryPtr dim (entries.length + more.length) ≤ i →
          w'.file.byte i = w.file.byte i := by
  induction more generalizing w entries with
  | nil =>
      cases hok
      rw [List.append_nil]
      exact ⟨h, (mappedFor_of_le h.fits).symm, fun _ _ => rfl⟩
  | cons entry more ih =>
      obtain ⟨vectorId, vec⟩ := entry
      unfold appendAll at hok
      obtain ⟨lsn, w₁, hfirst, hrest⟩ := bind_eq_ok.mp hok
      obtain ⟨_, rfl, hlt, hfits⟩ := h.append_eq_ok hfirst
      have hnext := h.next
      have hstep := h.appended hlt hfits vectorId vec
      obtain ⟨hholds, hsize, hbyte⟩ := ih hstep hrest
      have hlength : (entries ++ [(vectorId, vec)]).length + more.length =
          entries.length + ((vectorId, vec) :: more).length := by
        simp only [List.length_append, List.length_cons, List.length_nil]
        omega
      rw [hlength] at hsize hbyte
      refine ⟨by simpa using hholds, ?_, ?_⟩
      · rw [hsize, appended_mapSize,
          reserved_mapSize hentry (hnext ▸ h.fits), hnext]
        apply mappedFor_mappedFor
        simp
      · intro i hi
        have hmono : entryPtr dim (entries.length + 1) ≤
            entryPtr dim (entries.length + ((vectorId, vec) :: more).length) :=
          entryPtr_mono dim (by simp)
        have hhead := headerSize_le_entryPtr dim (entries.length + 1)
        rw [hbyte i hi, appended_byte h.mapSize_eq vectorId vec (by omega)
          (Or.inr (by rw [hnext]; omega))]

theorem replay_snd_eq_iff {w : WAL dim} {count : ℕ}
    (hvalid : ∀ i < count, SlotValid dim w.file w.mapSize i) :
    w.replay.2 = count ↔ ¬ SlotValid dim w.file w.mapSize count := by
  obtain ⟨first, hbefore, hstop⟩ := exists_firstInvalid dim w.file w.mapSize
  rw [replay_eq hbefore hstop]
  constructor
  · rintro rfl
    exact hstop
  · intro hnot
    rcases lt_trichotomy first count with hlt | heq | hgt
    · exact (hstop (hvalid first hlt)).elim
    · exact heq
    · exact (hnot (hbefore count hgt)).elim

/-- The slot behind the last append, read in the file as it was opened. -/
def TailSlotValid (dim : UInt32) (file : ByteFile) (appends : ℕ) : Prop :=
  SlotValid dim (opened file)
    (mappedFor dim (opened file).size (scanCount dim file + appends))
    (scanCount dim file + appends)

instance (file : ByteFile) (appends : ℕ) :
    Decidable (TailSlotValid dim file appends) := by
  unfold TailSlotValid
  infer_instance

theorem appendAll_reopened {os : OS} {checkpointEvery : ℕ} {file : ByteFile}
    {more : List (UInt64 × Vec dim)} {w w' : WAL dim}
    (hentry : entrySize dim ≤ growSize)
    (hnew : new os dim checkpointEvery (some file) = .ok w)
    (hrun : (appendAll os more).run w = .ok () w') :
    Holds w' (scanned dim file ++ more) ∧
      (SlotValid dim w'.file w'.mapSize (scanned dim file ++ more).length ↔
        TailSlotValid dim file more.length) := by
  obtain ⟨_, hlt, ckptLsn, hheader, rfl⟩ := new_some_eq_ok hnew
  obtain ⟨hopen, _⟩ := reopened_holds checkpointEvery hlt hheader
  obtain ⟨hholds, hsize, hbyte⟩ := hopen.appendAll_eq_ok hentry hrun
  refine ⟨hholds, ?_⟩
  rw [length_scanned] at hsize hbyte
  have hfits : (reopened dim checkpointEvery file ckptLsn).mapSize =
      (opened file).size := (opened_size file).symm
  rw [List.length_append, length_scanned, hsize, hfits]
  unfold TailSlotValid
  exact slotValid_congr (fun i hlo _ => hbyte i hlo) Iff.rfl

/-- After any number of appends to a reopened log, `replay` gives what the
scan accepted and then the appends if and only if the slot behind them was
not a valid entry of the file. -/
theorem replay_after_torn_tail_iff {os : OS} {checkpointEvery : ℕ}
    {file : ByteFile} {more : List (UInt64 × Vec dim)} {w w' : WAL dim}
    (hentry : entrySize dim ≤ growSize)
    (hnew : new os dim checkpointEvery (some file) = .ok w)
    (hrun : (appendAll os more).run w = .ok () w') :
    (w'.replay = (numbered (scanned dim file ++ more),
        scanCount dim file + more.length) ∧
      w'.nextLsn = scanCount dim file + more.length) ↔
      ¬ TailSlotValid dim file more.length := by
  obtain ⟨hholds, htail⟩ := appendAll_reopened hentry hnew hrun
  have hlength : (scanned dim file ++ more).length =
      scanCount dim file + more.length := by simp
  constructor
  · rintro ⟨hreplay, _⟩
    rw [← htail]
    apply (replay_snd_eq_iff hholds.valid).mp
    rw [hreplay, hlength]
  · intro hstop
    rw [← htail] at hstop
    rw [hholds.replay hstop, hholds.next, hlength]
    exact ⟨rfl, rfl⟩

/-! ## A torn entry with valid entries behind it -/

/-- Three entries, one payload byte of the second changed. -/
def tornFile : ByteFile :=
  ((((created 1 0).file.write (entryPtr 1 0)
    (entryBytes 0 10 (Vec.ofBytes 1 [1, 1, 1, 1]))).write (entryPtr 1 1)
      (entryBytes 1 11 (Vec.ofBytes 1 [2, 2, 2, 2]))).write (entryPtr 1 2)
        (entryBytes 2 12 (Vec.ofBytes 1 [3, 3, 3, 3]))).write
          (entryPtr 1 1 + dataOff) [0xFF]

theorem readHeader_tornFile : readHeader 1 (opened tornFile) = .ok 0 := by
  decide +kernel

/-- A log of the initial size takes one entry more. -/
theorem appendAll_one {file : ByteFile} (hsize : file.size = initialSize)
    (hheader : readHeader 1 (opened file) = .ok 0)
    (hfits : entryPtr 1 ((reopened 1 0 file 0).nextLsn + 1) ≤
      (reserved (reopened 1 0 file 0)).mapSize)
    (vectorId : UInt64) (vec : Vec 1) :
    (appendAll OS.reliable [(vectorId, vec)]).run (reopened 1 0 file 0) =
      .ok () (appended (reopened 1 0 file 0) vectorId vec) := by
  have hmap : (reopened 1 0 file 0).mapSize = initialSize := by
    change max file.size initialSize = initialSize
    rw [hsize, max_self]
  have hopen := (reopened_holds 0 (by rw [hsize]; decide) hheader).1
  have hreserve : (reserve OS.reliable).run (reopened 1 0 file 0) =
      .ok () (reserved (reopened 1 0 file 0)) :=
    reserve_run rfl (by rw [hmap]; decide) (by rw [hmap]; decide)
  have hfirst := hopen.append_run hreserve hfits vectorId vec
  unfold appendAll
  rw [bind_of_ok hfirst]
  rfl

/-- The scan accepts one entry, one is appended, and `replay` hands over
three. -/
theorem torn_tail_revives :
    ∃ w w', new OS.reliable 1 0 (some tornFile) = .ok w ∧
      (appendAll OS.reliable [(13, Vec.ofBytes 1 [4, 4, 4, 4])]).run w =
        .ok () w' ∧
      w'.replay.2 = 3 ∧
      ¬ (w'.replay = (numbered (scanned 1 tornFile ++
            [(13, Vec.ofBytes 1 [4, 4, 4, 4])]), scanCount 1 tornFile + 1) ∧
          w'.nextLsn = scanCount 1 tornFile + 1) := by
  have hnew : new OS.reliable 1 0 (some tornFile) =
      .ok (reopened 1 0 tornFile 0) :=
    new_some (by decide) (by decide +kernel) (by decide +kernel)
      (by decide +kernel) readHeader_tornFile
  have hcount : scanCount 1 tornFile = 1 := by decide +kernel
  have hreplay : (appended (reopened 1 0 tornFile 0) 13
      (Vec.ofBytes 1 [4, 4, 4, 4])).replay.2 = 3 := by decide +kernel
  refine ⟨_, _, hnew, appendAll_one (by decide +kernel) readHeader_tornFile
    (by decide +kernel) _ _, hreplay, fun hall => ?_⟩
  have hsnd := congrArg Prod.snd hall.1
  rw [hreplay, hcount] at hsnd
  exact absurd hsnd (by decide)

/-- Two entries, one payload byte of the second changed. -/
def tornLast : ByteFile :=
  (((created 1 0).file.write (entryPtr 1 0)
    (entryBytes 0 10 (Vec.ofBytes 1 [1, 1, 1, 1]))).write (entryPtr 1 1)
      (entryBytes 1 11 (Vec.ofBytes 1 [2, 2, 2, 2]))).write
        (entryPtr 1 1 + dataOff) [0xFF]

/-- The scan accepts the first entry, and the appended one takes the place of
the second. -/
theorem replay_after_torn_tail_tornLast :
    ∃ w w', new OS.reliable 1 0 (some tornLast) = .ok w ∧
      (appendAll OS.reliable [(13, Vec.ofBytes 1 [4, 4, 4, 4])]).run w =
        .ok () w' ∧
      scanned 1 tornLast = [(10, Vec.ofBytes 1 [1, 1, 1, 1])] ∧
      (w'.replay = (numbered (scanned 1 tornLast ++
            [(13, Vec.ofBytes 1 [4, 4, 4, 4])]), scanCount 1 tornLast + 1) ∧
        w'.nextLsn = scanCount 1 tornLast + 1) := by
  have hheader : readHeader 1 (opened tornLast) = .ok 0 := by decide +kernel
  have hnew : new OS.reliable 1 0 (some tornLast) =
      .ok (reopened 1 0 tornLast 0) :=
    new_some (by decide) (by decide +kernel) (by decide +kernel)
      (by decide +kernel) hheader
  have hrun := appendAll_one (by decide +kernel) hheader
    (by decide +kernel) 13 (Vec.ofBytes 1 [4, 4, 4, 4])
  have hreplay := (replay_after_torn_tail_iff (by decide) hnew hrun).mpr
    (by decide +kernel)
  rw [List.length_singleton] at hreplay
  exact ⟨_, _, hnew, hrun, by decide +kernel, hreplay⟩

end WAL
end VecDB
