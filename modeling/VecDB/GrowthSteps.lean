import VecDB.SegmentRuns
import VecDB.WalRefinement
import Mathlib.Data.UInt
import Mathlib.Tactic

/-!
# One growth step

Log and segment make room for an entry by one step of a fixed size.  The step
is enough, over every run, exactly for entries that are no larger than it: each
larger entry uses up a part of the initial slack.
-/

namespace VecDB

/-- Entries larger than the step that is taken for each of them use up any
slack. -/
theorem slack_used_up {header initial step entry size : ℕ}
    (hheader : 0 < header) (hentry : step < entry)
    (hfits : header + initial * entry ≤ size)
    (hsize : size ≤ initial + initial * step) : False := by
  have hmore : initial * (step + 1) ≤ initial * entry :=
    Nat.mul_le_mul_left initial hentry
  rw [Nat.mul_add, Nat.mul_one] at hmore
  omega

/-! ## The log -/

namespace WAL

variable {dim : UInt32}

/-- In every run from a new file, the grow step of a next append makes room
for its entry. -/
def AppendsStayInside (dim : UInt32) : Prop :=
  ∀ (os : OS) (checkpointEvery : ℕ) (ops : List (Op dim)) (w : WAL dim)
    (outs : List (Option ℕ)),
    runLog os checkpointEvery ops = .ok (w, outs) →
    w.nextLsn < 2 ^ 32 - 1 →
    ∀ w', (reserve os).run w = .ok () w' →
      headerSize + (w.nextLsn + 1) * entrySize dim ≤ w'.mapSize

theorem appendsStayInside_of_le (hentry : entrySize dim ≤ growSize) :
    AppendsStayInside dim := by
  intro os checkpointEvery ops w outs hrun _ w' hreserve
  have hholds := (runLog_eq_ok hrun).holds
  obtain ⟨rfl, _⟩ := reserve_eq_ok hholds.mapped hholds.mapSize_lt hreserve
  exact entryPtr_le_reserved hentry (hholds.next ▸ hholds.fits)

theorem reserved_mapSize_le (w : WAL dim) :
    (reserved w).mapSize ≤ w.mapSize + growSize := by
  unfold reserved
  split_ifs
  · exact le_rfl
  · exact Nat.le_add_right _ _

/-- A run has appended `n` vectors, and taken at most a step for each. -/
def Grown (dim : UInt32) (n : ℕ) : Prop :=
  ∃ (ops : List (Op dim)) (outs : List (Option ℕ))
    (entries : List (UInt64 × Vec dim)) (w : WAL dim),
    runLog OS.reliable 0 ops = .ok (w, outs) ∧ Clean entries w ∧
      entries.length = n ∧ w.mapSize ≤ initialSize + n * growSize

theorem grown_zero (hdim : dim ≠ 0) : Grown dim 0 := by
  refine ⟨[], [], [], created dim 0, ?_, Clean.created hdim 0, rfl, le_rfl⟩
  unfold runLog
  rw [new_none hdim (by simp [OS.reliable, initialSize])
    (by simp [OS.reliable, initialSize])]
  rfl

/-- As long as the step is enough, one more append goes through. -/
theorem AppendsStayInside.grown_succ (h : AppendsStayInside dim)
    (vec : Vec dim) {n : ℕ} (hn : n < initialSize) (hgrown : Grown dim n) :
    Grown dim (n + 1) := by
  obtain ⟨ops, outs, entries, w, hrun, hclean, hlength, hsize⟩ := hgrown
  have hroom : w.mapSize + growSize < 2 ^ 63 := by
    have hmul : n * growSize ≤ initialSize * growSize :=
      Nat.mul_le_mul_right _ hn.le
    unfold growSize initialSize at *
    omega
  have hreserve := reserve_run hclean.holds.mapped
    (show OS.reliable.ftruncate (w.mapSize + growSize) = true by
      simpa [OS.reliable] using hroom)
    (show OS.reliable.mmap (w.mapSize + growSize) = true by
      simpa [OS.reliable] using hroom)
  have hnext := hclean.holds.next
  have hfits := h OS.reliable 0 ops w outs hrun (by
    unfold initialSize at hn
    omega) _ hreserve
  have hlt := (reserve_eq_ok hclean.holds.mapped hclean.holds.mapSize_lt
    hreserve).2
  have happend := hclean.holds.append_run hreserve hfits 0 vec
  have hstep : Op.step OS.reliable (.append 0 vec) w =
      .ok (appended w 0 vec, some entries.length) := by
    simp only [Op.step, happend]
  refine ⟨ops ++ [.append 0 vec], outs ++ [some entries.length],
    entries ++ [(0, vec)], appended w 0 vec, runLog_concat hrun hstep,
    hclean.appended hlt hfits 0 vec, by simp [hlength], ?_⟩
  have hle := reserved_mapSize_le w
  rw [appended_mapSize, Nat.succ_mul]
  omega

theorem AppendsStayInside.grown (h : AppendsStayInside dim) (hdim : dim ≠ 0)
    {n : ℕ} (hn : n ≤ initialSize) : Grown dim n := by
  induction n with
  | zero => exact grown_zero hdim
  | succ n ih => exact h.grown_succ (Vec.ofBytes dim []) hn (ih (by omega))

theorem appendsStayInside_iff (hdim : dim ≠ 0) :
    AppendsStayInside dim ↔ entrySize dim ≤ growSize := by
  refine ⟨fun h => ?_, appendsStayInside_of_le⟩
  by_contra hentry
  obtain ⟨_, _, entries, w, _, hclean, hlength, hsize⟩ :=
    h.grown hdim (le_refl initialSize)
  have hfits := hclean.holds.fits
  rw [hlength] at hfits
  exact slack_used_up (show 0 < headerSize by decide) (not_le.mp hentry)
    hfits hsize

end WAL

/-! ## The segment -/

namespace MmapStore

variable {dim : UInt32}

theorem runSegment_eq_ok {os : OS} {path : String} {ns : ℕ}
    {ops : List (StoreOp dim)} {s : MmapStore} {outs : List (Option ℕ)}
    (hrun : runSegment os path ns ops = .ok (s, outs))
    (hcount : (appendedVecs ops).length < 2 ^ 32) :
    Holds s (appendedVecs ops) := by
  unfold runSegment at hrun
  cases hcreate : create os path none dim ns with
  | error e => simp [hcreate] at hrun
  | ok s₀ =>
      obtain ⟨_, rfl⟩ := create_eq_ok hcreate
      rw [hcreate] at hrun
      exact (created_holds dim ns).run_eq_ok (by simpa using hcount) hrun

theorem runSegment_concat {os : OS} {path : String} {ns : ℕ}
    {ops : List (StoreOp dim)} {op : StoreOp dim} {s s' : MmapStore}
    {outs : List (Option ℕ)} {out : Option ℕ}
    (hrun : runSegment os path ns ops = .ok (s, outs))
    (hstep : op.step os path s = .ok (s', out)) :
    runSegment os path ns (ops ++ [op]) = .ok (s', outs ++ [out]) := by
  unfold runSegment at hrun ⊢
  cases hcreate : create os path none dim ns with
  | error e => simp [hcreate] at hrun
  | ok s₀ =>
      simp only [hcreate] at hrun ⊢
      exact Simulation.run_concat hrun hstep

/-- In every run on a new segment, the grow step of a next append makes room
for its vector. -/
def AppendsStayInside (dim : UInt32) : Prop :=
  ∀ (os : OS) (path : String) (ns : ℕ) (ops : List (StoreOp dim))
    (s : MmapStore) (outs : List (Option ℕ)),
    runSegment os path ns ops = .ok (s, outs) →
    (appendedVecs ops).length < 2 ^ 32 - 1 →
    ∀ s', (reserve os).run s = .ok () s' →
      64 + (s.vecCount + 1) * (dim.toNat * 4) ≤ s'.mapSize

theorem appendsStayInside_of_le (hdim : dim.toNat * 4 ≤ growBytes) :
    AppendsStayInside dim := by
  intro os path ns ops s outs hrun hcount s' hreserve
  have hholds := runSegment_eq_ok hrun (by omega)
  have hcount' : s.vecCount + 1 < 2 ^ 32 := by
    rw [hholds.vecCount]
    omega
  obtain ⟨rfl, _⟩ := reserve_eq_ok hholds.mapped hholds.mapSize_lt hcount'
    hreserve
  have hroom := hholds.room hdim
  rwa [← hholds.vecCount] at hroom

theorem roomy_mapSize_le (s : MmapStore) :
    (roomy s).mapSize ≤ s.mapSize + growBytes := by
  unfold roomy
  split_ifs
  · exact le_rfl
  · exact Nat.le_add_right _ _

/-- A run has appended `n` vectors, and taken at most a step for each. -/
def Grown (dim : UInt32) (n : ℕ) : Prop :=
  ∃ (ops : List (StoreOp dim)) (outs : List (Option ℕ)) (s : MmapStore),
    runSegment OS.reliable "" 0 ops = .ok (s, outs) ∧
      Holds s (appendedVecs ops) ∧ (appendedVecs ops).length = n ∧
        s.mapSize ≤ headerSize + initialData + n * growBytes

theorem grown_zero (hdim : dim ≠ 0) : Grown dim 0 := by
  refine ⟨[], [], created dim 0, ?_, created_holds dim 0, rfl, le_rfl⟩
  unfold runSegment
  rw [create_reliable hdim]
  rfl

/-- As long as the step is enough, one more append goes through. -/
theorem AppendsStayInside.grown_succ (h : AppendsStayInside dim)
    (vec : Vec dim) {n : ℕ} (hn : n < headerSize + initialData)
    (hgrown : Grown dim n) : Grown dim (n + 1) := by
  obtain ⟨ops, outs, s, hrun, hholds, hlength, hsize⟩ := hgrown
  have hsmall : n < 2 ^ 32 - 1 := by
    unfold headerSize initialData at hn
    omega
  have hcount : s.vecCount + 1 < 2 ^ 32 := by
    rw [hholds.vecCount]
    omega
  have hroom : s.mapSize + growBytes < 2 ^ 63 := by
    have hmul : n * growBytes ≤ (headerSize + initialData) * growBytes :=
      Nat.mul_le_mul_right _ hn.le
    unfold growBytes headerSize initialData at *
    omega
  have hreserve := reserve_run hholds.mapped hcount
    (show OS.reliable.ftruncate (s.mapSize + growBytes) = true by
      simpa [OS.reliable] using hroom)
    (show OS.reliable.mmap (s.mapSize + growBytes) = true by
      simpa [OS.reliable] using hroom)
  have hfits := h OS.reliable "" 0 ops s outs hrun (by omega) _ hreserve
  rw [hholds.vecCount] at hcount hfits
  have hlt := (reserve_eq_ok hholds.mapped hholds.mapSize_lt
    (by rwa [hholds.vecCount]) hreserve).2
  have happend := hholds.append_run hcount hreserve vec hfits
  have hstep : StoreOp.step OS.reliable "" (.append vec) s =
      .ok (appended s vec.bytes, some (appendedVecs ops).length) := by
    simp only [StoreOp.step, happend]
  have hvecs : appendedVecs (ops ++ [.append vec]) =
      appendedVecs ops ++ [vec] := by
    simp [appendedVecs]
  refine ⟨ops ++ [.append vec], outs ++ [some (appendedVecs ops).length],
    appended s vec.bytes, runSegment_concat hrun hstep, ?_,
    by simp [hvecs, hlength], ?_⟩
  · rw [hvecs]
    exact hholds.appended hcount hlt vec hfits
  · have hle := roomy_mapSize_le s
    have hsame : (appended s vec.bytes).mapSize = (roomy s).mapSize := rfl
    rw [hsame, Nat.succ_mul]
    omega

theorem AppendsStayInside.grown (h : AppendsStayInside dim) (hdim : dim ≠ 0)
    {n : ℕ} (hn : n ≤ headerSize + initialData) : Grown dim n := by
  induction n with
  | zero => exact grown_zero hdim
  | succ n ih => exact h.grown_succ (Vec.ofBytes dim []) hn (ih (by omega))

theorem appendsStayInside_iff (hdim : dim ≠ 0) :
    AppendsStayInside dim ↔ dim.toNat * 4 ≤ growBytes := by
  refine ⟨fun h => ?_, appendsStayInside_of_le⟩
  by_contra hvec
  obtain ⟨ops, _, s, _, hholds, hlength, hsize⟩ :=
    h.grown hdim (le_refl (headerSize + initialData))
  have hfits := hholds.fits
  rw [hlength] at hfits
  exact slack_used_up (show 0 < 64 by decide) (not_le.mp hvec) hfits hsize

end MmapStore

/-- One step is enough for the log and for the segment exactly when an entry,
respectively a vector, is no larger than the step. -/
theorem appends_stay_inside_iff {dim : UInt32} (hdim : dim ≠ 0) :
    (WAL.AppendsStayInside dim ↔ WAL.entrySize dim ≤ WAL.growSize) ∧
      (MmapStore.AppendsStayInside dim ↔
        dim.toNat * 4 ≤ MmapStore.growBytes) :=
  ⟨WAL.appendsStayInside_iff hdim, MmapStore.appendsStayInside_iff hdim⟩

theorem appends_stay_inside_iff_1536 :
    (WAL.AppendsStayInside 1536 ↔ WAL.entrySize 1536 ≤ WAL.growSize) ∧
      (MmapStore.AppendsStayInside 1536 ↔
        (1536 : UInt32).toNat * 4 ≤ MmapStore.growBytes) :=
  appends_stay_inside_iff (by decide)

/-- The first append of a vector of 64 MiB, respectively 128 MiB, ends behind
the mapping that its grow step has made. -/
theorem first_append_leaves_mapping :
    (∃ w w' : WAL (2 ^ 24), WAL.runLog OS.reliable 0 [] = .ok (w, []) ∧
      w.nextLsn = 0 ∧ (WAL.reserve OS.reliable).run w = .ok () w' ∧
        w'.mapSize < WAL.headerSize + (0 + 1) * WAL.entrySize (2 ^ 24)) ∧
    ∃ s s', MmapStore.runSegment OS.reliable "v.seg" 0
        ([] : List (MmapStore.StoreOp (2 ^ 25))) = .ok (s, []) ∧
      s.vecCount = 0 ∧ (MmapStore.reserve OS.reliable).run s = .ok () s' ∧
        s'.mapSize < 64 + (0 + 1) * ((2 ^ 25 : UInt32).toNat * 4) := by
  constructor
  · have hnew : WAL.runLog OS.reliable 0 [] =
        .ok (WAL.created (2 ^ 24) 0, []) := by
      unfold WAL.runLog
      rw [WAL.new_none (by decide) (by decide) (by decide)]
      rfl
    refine ⟨WAL.created (2 ^ 24) 0, WAL.reserved (WAL.created (2 ^ 24) 0),
      hnew, rfl, WAL.reserve_run rfl (by decide) (by decide), ?_⟩
    exact (WAL.reserved_mapSize_le _).trans_lt (by decide)
  · have hcreate : MmapStore.runSegment OS.reliable "v.seg" 0
        ([] : List (MmapStore.StoreOp (2 ^ 25))) =
          .ok (MmapStore.created (2 ^ 25) 0, []) := by
      unfold MmapStore.runSegment
      rw [MmapStore.create_reliable (by decide)]
      rfl
    refine ⟨MmapStore.created (2 ^ 25) 0,
      MmapStore.roomy (MmapStore.created (2 ^ 25) 0), hcreate, rfl,
      MmapStore.reserve_run rfl (by decide) (by decide) (by decide), ?_⟩
    exact (MmapStore.roomy_mapSize_le _).trans_lt (by decide)

end VecDB
