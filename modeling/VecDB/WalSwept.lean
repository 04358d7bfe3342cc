import VecDB.ShardRefinement
import VecDB.WalCrashRuns
import Mathlib.Tactic

/-!
# What torn entries leave does not matter

A crash inside an append may leave some bytes in the slot behind the log.  No
operation reads them: the log with that slot swept answers the same, and is
what the log becomes once the slot is written or cut off.
-/

namespace VecDB

namespace WAL

variable {dim : UInt32} {w w' : WAL dim} {entries : List (UInt64 × Vec dim)}

/-! ## Sweeping -/

/-- The log with zero bytes in the slot behind it. -/
def swept (w : WAL dim) : WAL dim := { w with
  file := w.file.write (entryPtr dim w.nextLsn)
    (List.replicate (entrySize dim) 0) }

theorem swept_byte_of_lt {i : ℕ} (hi : i < entryPtr dim w.nextLsn) :
    w.swept.file.byte i = w.file.byte i :=
  ByteFile.write_byte_of_not_mem (Or.inl hi)

theorem swept_eq_self
    (hzero : ∀ i, entryPtr dim w.nextLsn ≤ i → w.file.byte i = 0) :
    w.swept = w := by
  have hfile : w.file.write (entryPtr dim w.nextLsn)
      (List.replicate (entrySize dim) 0) = w.file := by
    apply ByteFile.ext
    · rfl
    funext i
    rw [ByteFile.write_zero_byte]
    split_ifs with hin
    · exact (hzero i hin.1).symm
    · rfl
  unfold swept
  rw [hfile]

theorem reserved_swept (hsize : w.mapSize = w.file.size) :
    reserved w.swept = (reserved w).swept := by
  rcases Nat.lt_or_ge w.mapSize (entryPtr dim (w.nextLsn + 1)) with
    hroom | hfits
  · have hswept := reserved_of_full (w := w.swept) hroom
    have hgrown : (reserved w).swept = { w with
        file := (w.file.resize (w.mapSize + growSize)).write
          (entryPtr dim w.nextLsn) (List.replicate (entrySize dim) 0)
        mapSize := w.mapSize + growSize } := by
      rw [reserved_of_full hroom]
      rfl
    rw [hswept, hgrown, ByteFile.write_zero_resize _ _ (by omega)]
    rfl
  · rw [reserved_of_fits hfits]
    exact reserved_of_fits (w := w.swept) hfits

/-- The room for the next entry is found by the sizes. -/
theorem reserve_swept {os : OS} (hmapped : w.mapped = true)
    (hok : (reserve os).run w = .ok () w') :
    (reserve os).run w.swept = .ok () (reserved w.swept) := by
  rcases Nat.lt_or_ge w.mapSize (entryPtr dim (w.nextLsn + 1)) with
    hroom | hfits
  · rw [reserve_of_full hroom, grow_run] at hok
    split_ifs at hok with hftruncate hmmap
    apply reserve_run (w := w.swept) hmapped
    · simpa [swept] using hftruncate
    · simpa [swept] using hmmap
  · rw [reserved_of_fits (w := w.swept) hfits]
    exact reserve_of_fits (w := w.swept) hfits

/-- Every byte of the slot is written. -/
theorem appended_swept (hsize : w.mapSize = w.file.size) (vectorId : UInt64)
    (vec : Vec dim) : appended w.swept vectorId vec = appended w vectorId vec := by
  have hstored : stored w.swept vectorId vec = stored w vectorId vec := by
    have hwrite : ((reserved w).swept.file.write (entryPtr dim w.nextLsn)
        (entryBytes w.nextLsn vectorId vec)) =
        (reserved w).file.write (entryPtr dim w.nextLsn)
          (entryBytes w.nextLsn vectorId vec) := by
      unfold swept
      dsimp only
      rw [reserved_nextLsn]
      apply ByteFile.write_write_of_length
      rw [List.length_replicate, length_entryBytes]
    have hnext : w.swept.nextLsn = w.nextLsn := rfl
    unfold stored
    rw [reserved_swept hsize, hnext, hwrite]
    rfl
  unfold appended
  rw [hstored]

/-- The whole slot is cut off. -/
theorem truncated_swept (w : WAL dim) : truncated w.swept = truncated w := by
  have hresize : w.swept.file.resize headerSize = w.file.resize headerSize := by
    have hhead := headerSize_le_entryPtr dim w.nextLsn
    apply ByteFile.ext
    · rfl
    funext i
    rcases Nat.lt_or_ge i headerSize with hlt | hge
    · rw [ByteFile.resize_byte_of_lt hlt, ByteFile.resize_byte_of_lt hlt]
      exact swept_byte_of_lt (by omega)
    · rw [(w.swept.file.resize headerSize).zero_beyond i hge,
        (w.file.resize headerSize).zero_beyond i hge]
  unfold truncated
  rw [hresize]
  rfl

/-- What the system grants depends on the size of the file. -/
theorem new_of_size_eq {os : OS} {checkpointEvery ckptLsn : ℕ}
    {file other : ByteFile}
    (hnew : new os dim checkpointEvery (some file) = .ok w)
    (hsize : other.size = file.size)
    (hheader : readHeader dim (opened other) = .ok ckptLsn) :
    new os dim checkpointEvery (some other) =
      .ok (reopened dim checkpointEvery other ckptLsn) := by
  have hdim := new_dim_ne_zero hnew
  unfold new openOrCreate at hnew ⊢
  rw [if_neg hdim] at hnew ⊢
  dsimp only at hnew ⊢
  rw [hsize]
  split_ifs at hnew ⊢
  rw [hheader]
  unfold reopened scanCount
  rw [hsize]

/-! ## Logs that survived crashes -/

/-- A log that was created here and may have been left by a crash. -/
structure Crashed (entries : List (UInt64 × Vec dim)) (w : WAL dim) : Prop
    extends Dusty entries w where
  header : w.file.read 0 20 = headerBytes dim w.checkpointLsn
  ckpt_le : w.checkpointLsn ≤ w.nextLsn

theorem Clean.crashed (h : Clean entries w) : Crashed entries w :=
  ⟨h.dusty, h.header, h.ckpt_le⟩

theorem Clean.swept (h : Clean entries w) : w.swept = w :=
  swept_eq_self fun i hi => h.tail i (by rwa [← h.holds.next])

namespace Crashed

theorem swept (h : Crashed entries w) : Clean entries w.swept where
  dim_ne_zero := h.dim_ne_zero
  holds := by
    have hhead := headerSize_le_entryPtr dim w.nextLsn
    apply h.holds.of_frame
    · exact h.holds.mapped
    · exact h.holds.mapSize_eq
    · exact le_rfl
    · exact h.holds.mapSize_lt
    · rfl
    · refine Eq.trans ?_ h.holds.header
      apply readHeader_congr
      intro i hi
      exact swept_byte_of_lt (by omega)
    · intro i _ hi
      exact swept_byte_of_lt (by rwa [h.holds.next])
  tail := by
    intro i hi
    unfold WAL.swept
    dsimp only
    rw [ByteFile.write_zero_byte, h.holds.next, ← entryPtr_succ]
    split_ifs with hin
    · rfl
    · exact h.tail i (by omega)
  header := by
    have hhead := headerSize_le_entryPtr dim w.nextLsn
    unfold headerSize at hhead
    refine Eq.trans ?_ h.header
    exact ByteFile.read_write_of_disjoint (Or.inl (by omega))
  ckpt_le := h.ckpt_le

theorem replay_swept (h : Crashed entries w) : w.swept.replay = w.replay := by
  rw [h.swept.replay, h.toDusty.replay]

theorem append_swept (h : Crashed entries w) {os : OS} {vectorId : UInt64}
    {vec : Vec dim} {lsn : ℕ}
    (hok : (append os vectorId vec).run w = .ok lsn w') :
    (append os vectorId vec).run w.swept = .ok lsn w' ∧
      Clean (entries ++ [(vectorId, vec)]) w' := by
  have hreserved := reserved_swept h.holds.mapSize_eq
  have hsplit := hok
  unfold append writeEntry at hsplit
  obtain ⟨_, _, hwrite, _⟩ := bind_eq_ok.mp hsplit
  obtain ⟨_, _, hreserve, _⟩ := bind_eq_ok.mp hwrite
  obtain ⟨rfl, rfl, hlt, hfits⟩ := h.holds.append_eq_ok hok
  have hsize : (reserved w.swept).mapSize = (reserved w).mapSize := by
    rw [hreserved]
    rfl
  have happended := appended_swept h.holds.mapSize_eq vectorId vec
  rw [← hsize] at hlt hfits
  constructor
  · rw [h.swept.holds.append_run
      (reserve_swept h.holds.mapped hreserve) hfits,
      happended]
  · rw [← happended]
    exact h.swept.appended hlt hfits vectorId vec

theorem truncate_swept (h : Crashed entries w) {os : OS}
    (hok : (truncate os w.nextLsn).run w = .ok () w') :
    (truncate os w.nextLsn).run w.swept = .ok () w'.swept ∧
      ∃ entries', Crashed entries' w' := by
  rcases Nat.lt_or_ge w.checkpointLsn w.nextLsn with hlt | hle
  · obtain rfl := truncate_eq_ok hlt hok
    have hclean := truncated_clean w h.dim_ne_zero
    rw [truncate_of_next_le hlt le_rfl] at hok
    split_ifs at hok with hcut hextend hmmap
    refine ⟨?_, [], hclean.crashed⟩
    have hswept : w.swept.checkpointLsn < w.swept.nextLsn := hlt
    have hrun : (truncate os w.swept.nextLsn).run w.swept = _ :=
      truncate_of_next_le hswept le_rfl
    rw [if_neg hcut, if_neg hextend, if_neg hmmap, truncated_swept] at hrun
    rw [hclean.swept]
    exact hrun
  · rw [truncate_of_le hle] at hok
    cases hok
    exact ⟨truncate_of_le hle, entries, h⟩

theorem new_swept (h : Crashed entries w) {os : OS} {checkpointEvery : ℕ}
    (hnew : new os dim checkpointEvery (some w.close) = .ok w') :
    new os dim checkpointEvery (some w.swept.close) = .ok w'.swept ∧
      Crashed entries w' := by
  obtain ⟨_, _, ckptLsn, hheader, hw'⟩ := new_some_eq_ok hnew
  rw [show opened w.close = w.file from h.holds.opened_file,
    h.holds.header] at hheader
  cases hheader
  rw [show reopened dim checkpointEvery w.close w.checkpointLsn = _ from
    h.holds.reopened_close checkpointEvery
      (h.slot.not_slotValid w.mapSize)] at hw'
  have hheader' : readHeader dim (opened w.swept.close) =
      .ok w.checkpointLsn := by
    rw [show opened w.swept.close = _ from h.swept.holds.opened_file]
    exact h.swept.holds.header
  have hsize : w.swept.close.size = w.close.size := rfl
  constructor
  · rw [new_of_size_eq hnew hsize hheader', show reopened dim checkpointEvery
      w.swept.close w.checkpointLsn = _ from h.swept.holds.reopened_close
        checkpointEvery (h.swept.not_slotValid _), hw']
    rfl
  · subst hw'
    exact ⟨h.toDusty.new_eq_ok hnew, h.header, h.ckpt_le⟩

theorem reserved (h : Crashed entries w)
    (hlt : (WAL.reserved w).mapSize < 2 ^ 63) :
    Crashed entries (WAL.reserved w) where
  toDusty := h.toDusty.reserved hlt
  header := by
    rw [reserved_checkpointLsn, ← h.header]
    exact ByteFile.read_eq_of_byte (reserved_byte h.holds.mapSize_eq) 0 20
  ckpt_le := by
    rw [reserved_checkpointLsn, reserved_nextLsn]
    exact h.ckpt_le

end Crashed

/-! ## A kill inside an append -/

/-- The log of a process that is killed when `count` bytes of the entry are
stored. -/
def killed (w : WAL dim) (vectorId : UInt64) (vec : Vec dim) (count : ℕ) :
    WAL dim := { w with file := crashImage w vectorId vec count }

theorem killed_eq_torn (w : WAL dim) (vectorId : UInt64) (vec : Vec dim)
    (count : ℕ) : killed w vectorId vec count = torn w vectorId vec count := by
  unfold killed
  rw [crashImage_eq]
  rfl

theorem reserved_counters (w : WAL dim) :
    (reserved w).checkpointEvery = w.checkpointEvery ∧
      (reserved w).appendsSinceCkpt = w.appendsSinceCkpt := by
  unfold reserved
  split_ifs
  · exact ⟨rfl, rfl⟩
  · exact ⟨rfl, rfl⟩

/-- The entry is there whole or not at all. -/
theorem Crashed.killed (h : Crashed entries w)
    (hentry : entrySize dim ≤ growSize) {os : OS}
    (hreserve : (reserve os).run w = .ok () w') {vectorId : UInt64}
    {vec : Vec dim} {count : ℕ}
    (hcrc : NoCollision dim (crashImage w' vectorId vec count) w'.nextLsn vec) :
    w'.checkpointLsn = w.checkpointLsn ∧
      w'.checkpointEvery = w.checkpointEvery ∧
      w'.appendsSinceCkpt = w.appendsSinceCkpt ∧
      ∃ more, more.Sublist [(vectorId, vec)] ∧
        Crashed (entries ++ more) { WAL.killed w' vectorId vec count with
          nextLsn := (entries ++ more).length } := by
  have hfits := entryPtr_le_reserved hentry (h.holds.next ▸ h.holds.fits)
  obtain ⟨rfl, hlt⟩ := reserve_eq_ok h.holds.mapped h.holds.mapSize_lt hreserve
  obtain ⟨hevery, hsince⟩ := reserved_counters w
  refine ⟨reserved_checkpointLsn w, hevery, hsince, ?_⟩
  have hr := h.reserved hlt
  have hnext := hr.holds.next
  have hhead := headerSize_le_entryPtr dim (WAL.reserved w).nextLsn
  unfold headerSize at hhead
  have hheader : (torn (WAL.reserved w) vectorId vec count).file.read 0 20 =
      headerBytes dim (WAL.reserved w).checkpointLsn := by
    refine Eq.trans ?_ hr.header
    exact ByteFile.read_write_of_disjoint (Or.inl (by omega))
  rw [← reserved_nextLsn] at hfits
  rw [crashImage_eq] at hcrc
  rw [killed_eq_torn]
  rcases hr.toDusty.torn hfits vectorId vec count hcrc with hlost | hsaved
  · refine ⟨[], List.nil_sublist _, ?_⟩
    rw [List.append_nil, ← hnext]
    exact ⟨hlost, hheader, hr.ckpt_le⟩
  · refine ⟨[(vectorId, vec)], List.Sublist.refl _, ?_⟩
    rw [List.length_append, List.length_singleton]
    refine ⟨hsaved, hheader, ?_⟩
    have hle := hr.ckpt_le
    dsimp only
    rw [hnext] at hle
    exact hle.trans (Nat.le_add_right _ 1)

end WAL
end VecDB
