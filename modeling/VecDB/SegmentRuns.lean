import VecDB.SegmentInvariant
import VecDB.Simulation
import Mathlib.Tactic

/-!
# A segment is an append-only list of vectors

Appends, flushes and reopens on a segment against the list of its vectors.  A
step that returns keeps the list; with a reliable system every step returns as
long as a vector is no larger than `GROW_BYTES`.
-/

namespace VecDB
namespace MmapStore

variable {dim : UInt32}

/-- `msync` changes no byte. -/
def sync : EStateM Failure MmapStore Unit := pure ()

inductive StoreOp (dim : UInt32) where
  | append (vec : Vec dim)
  | sync
  | reopen

/-- One operation on an open segment; the output is the id of an append. -/
def StoreOp.step (os : OS) (path : String) :
    StoreOp dim → MmapStore → Except Failure (MmapStore × Option ℕ)
  | .append vec, s =>
      match (MmapStore.append os vec.bytes).run s with
      | .ok id s => .ok (s, some id)
      | .error e _ => .error e
  | .sync, s =>
      match MmapStore.sync.run s with
      | .ok _ s => .ok (s, none)
      | .error e _ => .error e
  | .reopen, s =>
      match openFile os path (some s.close) with
      | .ok s => .ok (s, none)
      | .error e => .error e

def StoreOp.spec : StoreOp dim → List (Vec dim) → List (Vec dim) × Option ℕ
  | .append vec, vecs => (vecs ++ [vec], some vecs.length)
  | .sync, vecs => (vecs, none)
  | .reopen, vecs => (vecs, none)

/-- A run on a segment that is created for it. -/
def runSegment (os : OS) (path : String) (ns : ℕ) (ops : List (StoreOp dim)) :
    Except Failure (MmapStore × List (Option ℕ)) :=
  match create os path none dim ns with
  | .ok s => Simulation.run (StoreOp.step os path) ops s
  | .error e => .error e

/-- The vectors that a run appends, in order. -/
def appendedVecs (ops : List (StoreOp dim)) : List (Vec dim) :=
  ops.filterMap fun
    | .append vec => some vec
    | .sync => none
    | .reopen => none

theorem runSpec_eq (ops : List (StoreOp dim)) (vecs : List (Vec dim)) :
    (Simulation.runSpec StoreOp.spec ops vecs).1 =
        vecs ++ appendedVecs ops ∧
      (Simulation.runSpec StoreOp.spec ops vecs).2.filterMap id =
        List.range' vecs.length (appendedVecs ops).length := by
  induction ops generalizing vecs with
  | nil => simp [Simulation.runSpec, appendedVecs]
  | cons op ops ih =>
      obtain ⟨hvecs, hids⟩ := ih (StoreOp.spec op vecs).1
      simp only [Simulation.runSpec, hvecs, List.filterMap_cons, hids]
      cases op with
      | append vec =>
          simp [StoreOp.spec, appendedVecs, List.range'_succ]
      | sync => simp [StoreOp.spec, appendedVecs]
      | reopen => simp [StoreOp.spec, appendedVecs]

theorem appendedVecs_cons (op : StoreOp dim) (ops : List (StoreOp dim))
    (vecs : List (Vec dim)) :
    (op.spec vecs).1 ++ appendedVecs ops =
      vecs ++ appendedVecs (op :: ops) := by
  cases op with
  | append vec => simp [StoreOp.spec, appendedVecs]
  | sync => rfl
  | reopen => rfl

theorem openFile_mmap {os : OS} {path : String} {file : ByteFile}
    {s : MmapStore} (hopen : openFile os path (some file) = .ok s) :
    os.mmap file.size = true := by
  unfold openFile at hopen
  dsimp only at hopen
  split_ifs at hopen with hsmall hmmap
  simpa using hmmap

namespace Holds

variable {s : MmapStore} {vecs : List (Vec dim)}

/-- A step that returns keeps the list, whatever the system grants. -/
theorem step_eq_ok {os : OS} {path : String} {op : StoreOp dim}
    {s' : MmapStore} {out : Option ℕ} (h : Holds s vecs)
    (hcount : (op.spec vecs).1.length < 2 ^ 32)
    (hstep : op.step os path s = .ok (s', out)) :
    Holds s' (op.spec vecs).1 ∧ out = (op.spec vecs).2 := by
  cases op with
  | append vec =>
      have hcount' : vecs.length + 1 < 2 ^ 32 := by
        simpa [StoreOp.spec] using hcount
      simp only [StoreOp.step] at hstep
      cases happend : (MmapStore.append os vec.bytes).run s with
      | error e s₁ => simp [happend] at hstep
      | ok id s₁ =>
          obtain ⟨_, rfl, hholds⟩ := h.append_eq_ok hcount' happend
          rw [happend] at hstep
          cases hstep
          exact ⟨hholds, rfl⟩
  | sync =>
      cases hstep
      exact ⟨h, rfl⟩
  | reopen =>
      simp only [StoreOp.step] at hstep
      cases hopen : openFile os path (some s.close) with
      | error e => simp [hopen] at hstep
      | ok s₁ =>
          have hmmap := openFile_mmap hopen
          rw [show s.close.size = s.mapSize from h.mapSize_eq.symm] at hmmap
          rw [h.openFile_eq path hmmap] at hstep
          cases hstep
          exact ⟨h, rfl⟩

theorem run_eq_ok {os : OS} {path : String} {ops : List (StoreOp dim)}
    {s' : MmapStore} {outs : List (Option ℕ)} (h : Holds s vecs)
    (hcount : (vecs ++ appendedVecs ops).length < 2 ^ 32)
    (hrun : Simulation.run (StoreOp.step os path) ops s = .ok (s', outs)) :
    Holds s' (vecs ++ appendedVecs ops) := by
  induction ops generalizing s vecs outs with
  | nil =>
      cases hrun
      simpa [appendedVecs] using h
  | cons op ops ih =>
      simp only [Simulation.run] at hrun
      cases hstep : op.step os path s with
      | error e => simp [hstep] at hrun
      | ok next =>
          obtain ⟨s₁, out⟩ := next
          simp only [hstep] at hrun
          rw [← appendedVecs_cons] at hcount ⊢
          have hfirst : (op.spec vecs).1.length < 2 ^ 32 := by
            rw [List.length_append] at hcount
            omega
          cases hrest : Simulation.run (StoreOp.step os path) ops s₁ with
          | error e => simp [hrest] at hrun
          | ok last =>
              rw [hrest] at hrun
              cases hrun
              exact ih (h.step_eq_ok hfirst hstep).1 hcount hrest

/-- The growth step is enough for a vector that is no larger. -/
theorem reserve_reliable (h : Holds s vecs)
    (hcount : vecs.length + 1 < 2 ^ 32) (hdim : dim.toNat * 4 ≤ growBytes) :
    (reserve OS.reliable).run s = .ok () (roomy s) ∧
      (roomy s).mapSize < 2 ^ 63 := by
  have hlt := h.mapSize_lt
  have hcount' : s.vecCount + 1 < 2 ^ 32 := by rwa [h.vecCount]
  by_cases hroom : s.mapSize < vecPtr s.dim (s.vecCount + 1)
  · have hend : vecPtr s.dim (s.vecCount + 1) ≤ 64 + 2 ^ 32 * growBytes := by
      unfold vecPtr
      rw [h.dim_eq]
      exact Nat.add_le_add_left (Nat.mul_le_mul hcount'.le hdim) 64
    have hgrown : s.mapSize + growBytes < 2 ^ 63 := by
      unfold growBytes at hend ⊢
      omega
    have hreserve := reserve_run h.mapped hcount'
      (show OS.reliable.ftruncate (s.mapSize + growBytes) = true by
        simpa [OS.reliable] using hgrown)
      (show OS.reliable.mmap (s.mapSize + growBytes) = true by
        simpa [OS.reliable] using hgrown)
    exact ⟨hreserve, (reserve_eq_ok h.mapped hlt hcount' hreserve).2⟩
  · have hsame : roomy s = s := if_neg hroom
    rw [hsame]
    refine ⟨?_, hlt⟩
    unfold reserve
    rw [run_get_bind]
    dsimp only
    rw [Nat.mod_eq_of_lt hcount', requiredSize_eq, if_neg hroom]
    rfl

theorem step_reliable (h : Holds s vecs) (hdim : dim.toNat * 4 ≤ growBytes)
    (path : String) (op : StoreOp dim)
    (hcount : (op.spec vecs).1.length < 2 ^ 32) :
    ∃ s', op.step OS.reliable path s = .ok (s', (op.spec vecs).2) ∧
      Holds s' (op.spec vecs).1 := by
  cases op with
  | append vec =>
      have hcount' : vecs.length + 1 < 2 ^ 32 := by
        simpa [StoreOp.spec] using hcount
      obtain ⟨hreserve, hlt⟩ := h.reserve_reliable hcount' hdim
      refine ⟨MmapStore.appended s vec.bytes, ?_,
        h.appended hcount' hlt vec (h.room hdim)⟩
      simp only [StoreOp.step, StoreOp.spec,
        h.append_run hcount' hreserve vec (h.room hdim)]
  | sync => exact ⟨s, rfl, h⟩
  | reopen =>
      have hmmap : OS.reliable.mmap s.mapSize = true := by
        simpa [OS.reliable] using h.mapSize_lt
      refine ⟨s, ?_, h⟩
      simp only [StoreOp.step, h.openFile_eq path hmmap, StoreOp.spec]

theorem run_reliable (h : Holds s vecs) (hdim : dim.toNat * 4 ≤ growBytes)
    (path : String) (ops : List (StoreOp dim))
    (hcount : (vecs ++ appendedVecs ops).length < 2 ^ 32) :
    ∃ s', Simulation.run (StoreOp.step OS.reliable path) ops s =
        .ok (s', (Simulation.runSpec StoreOp.spec ops vecs).2) ∧
      Holds s' (vecs ++ appendedVecs ops) := by
  induction ops generalizing s vecs with
  | nil => exact ⟨s, rfl, by simpa [appendedVecs] using h⟩
  | cons op ops ih =>
      rw [← appendedVecs_cons] at hcount
      have hfirst : (op.spec vecs).1.length < 2 ^ 32 := by
        rw [List.length_append] at hcount
        omega
      obtain ⟨s₁, hstep, hnext⟩ := h.step_reliable hdim path op hfirst
      obtain ⟨s', hrun, hlast⟩ := ih hnext hcount
      refine ⟨s', ?_, by rwa [← appendedVecs_cons]⟩
      simp only [Simulation.run, hstep, hrun, Simulation.runSpec]

end Holds

theorem create_reliable (hdim : dim ≠ 0) (path : String) (ns : ℕ) :
    create OS.reliable path none dim ns = .ok (created dim ns) :=
  create_eq hdim (by simp [OS.reliable, headerSize, initialData])
    (by simp [OS.reliable, headerSize, initialData]) ns

/-- Whatever is appended is numbered in order and read back bit for bit,
across growth, flushes and reopens, and nothing else is. -/
theorem segment_round_trip (hdim : dim ≠ 0)
    (hvec : dim.toNat * 4 ≤ growBytes) (path : String) (ns : ℕ)
    (ops : List (StoreOp dim))
    (hcount : (appendedVecs ops).length < 2 ^ 32) :
    ∃ s outs, runSegment OS.reliable path ns ops = .ok (s, outs) ∧
      outs.filterMap id = List.range (appendedVecs ops).length ∧
      s.vecCount = (appendedVecs ops).length ∧ s.dim = dim ∧
      (∀ i vec, (appendedVecs ops)[i]? = some vec →
        ∃ ptr, s.get i = .ok ptr ∧
          s.readAt ptr (dim.toNat * 4) = .ok vec.bytes) ∧
      ∀ i, (appendedVecs ops).length ≤ i → s.get i =
        .error (.outOfRange "MmapStore::get: node_id out of range") := by
  obtain ⟨s, hrun, hholds⟩ := (created_holds dim ns).run_reliable hvec path ops
    (by simpa using hcount)
  rw [List.nil_append] at hholds
  refine ⟨s, (Simulation.runSpec StoreOp.spec ops []).2, ?_, ?_,
    hholds.vecCount, hholds.dim_eq, ?_, ?_⟩
  · unfold runSegment
    rw [create_reliable hdim]
    exact hrun
  · rw [(runSpec_eq ops []).2, List.length_nil, ← List.range_eq_range']
  · intro i vec hi
    exact ⟨vecPtr dim i, hholds.readAt_get hi⟩
  · intro i hi
    unfold get
    rw [hholds.vecCount, if_pos hi]

theorem segment_round_trip_reopened :
    ∃ s outs, runSegment OS.reliable "v.seg" 0
        [.append (Vec.ofBytes 1 [1, 2, 3, 4]), .reopen, .sync,
          .append (Vec.ofBytes 1 [5, 6, 7, 8])] = .ok (s, outs) ∧
      outs.filterMap id = [0, 1] ∧ s.vecCount = 2 := by
  obtain ⟨s, outs, hrun, hids, hcount, _⟩ := segment_round_trip
    (show (1 : UInt32) ≠ 0 by decide) (by decide) "v.seg" 0
    [.append (Vec.ofBytes 1 [1, 2, 3, 4]), .reopen, .sync,
      .append (Vec.ofBytes 1 [5, 6, 7, 8])] (by decide)
  exact ⟨s, outs, hrun, hids, hcount⟩

end MmapStore
end VecDB
