import VecDB.Binary32
import VecDB.HnswModel
import Mathlib.Data.List.Zip
import Mathlib.Tactic

/-!
# The distance kernels

The three kernels behind `l2_sq`.  They add the same squares in different
orders.  Every product is fused with its sum: the wide loops say so, and the
build contracts `acc += d * d` where it has `-mfma`.  Between vectors of
finite components no coordinate difference is a NaN, and neither is the
result; it may be infinite.
-/

namespace VecDB

open Binary32

/-- Every component is finite. -/
def Vec.IsFinite {dim : UInt32} (v : Vec dim) : Prop :=
  ∀ w ∈ v.words, Binary32.IsFinite w

instance {dim : UInt32} (v : Vec dim) : Decidable v.IsFinite :=
  List.decidableBAll Binary32.IsFinite v.words

namespace Simd

inductive ISALevel where
  | scalar
  | avx2
  | avx512
  deriving DecidableEq, Repr

/-- The coordinates a kernel loads, and their order. -/
abbrev Pairs := List (Binary32 × Binary32)

def diff (p : Binary32 × Binary32) : Binary32 := sub p.1 p.2

/-! ## The kernels -/

/-- The scalar loop, from an accumulator on.  What the source writes as a
product and a sum is rounded once. -/
def scalarLoop (acc : Binary32) (ps : Pairs) : Binary32 :=
  ps.foldl (fun acc p => fma (diff p) (diff p) acc) acc

def l2SqScalar (ps : Pairs) : Binary32 := scalarLoop (finite 0) ps

/-- `_mm256_fmadd_ps` and `_mm512_fmadd_ps` of one block. -/
def fmaddBlock (acc : List Binary32) (block : Pairs) : List Binary32 :=
  List.zipWith (fun a p => fma (diff p) (diff p) a) acc block

/-- The loop over the blocks of `lanes` coordinates. -/
def blockLoop (lanes : ℕ) (ps : Pairs) : List Binary32 :=
  (List.range (ps.length / lanes)).foldl
    (fun acc i => fmaddBlock acc ((ps.drop (i * lanes)).take lanes))
    (List.replicate lanes (finite 0))

/-- The coordinates behind the last whole block. -/
def tail (lanes : ℕ) (ps : Pairs) : Pairs :=
  ps.drop (ps.length / lanes * lanes)

/-- The lower half of a register and its upper half. -/
def addHalves (v : List Binary32) : List Binary32 :=
  List.zipWith add (v.take (v.length / 2)) (v.drop (v.length / 2))

def addPairs : List Binary32 → List Binary32
  | a :: b :: v => add a b :: addPairs v
  | _ => []

/-- `_mm_hadd_ps` of a register with itself. -/
def hadd (v : List Binary32) : List Binary32 := addPairs v ++ addPairs v

def lane0 (v : List Binary32) : Binary32 := v.headD (finite 0)

def l2SqAvx2 (ps : Pairs) : Binary32 :=
  scalarLoop (lane0 (hadd (hadd (addHalves (blockLoop 8 ps))))) (tail 8 ps)

/-- `_mm512_reduce_add_ps` halves the register until one lane is left. -/
def l2SqAvx512 (ps : Pairs) : Binary32 :=
  scalarLoop (lane0 (addHalves (addHalves (addHalves (addHalves
    (blockLoop 16 ps)))))) (tail 16 ps)

/-- The kernel that `init` selects. -/
def l2Sq : ISALevel → Pairs → Binary32
  | .scalar => l2SqScalar
  | .avx2 => l2SqAvx2
  | .avx512 => l2SqAvx512

def pairs {dim : UInt32} (a b : Vec dim) : Pairs :=
  (a.words.map decode).zip (b.words.map decode)

/-! ## Sums of squares -/

def Differ (ps : Pairs) : Prop := ∀ p ∈ ps, diff p ≠ nan

def AllNonneg (v : List Binary32) : Prop := ∀ x ∈ v, Nonneg x

theorem nonneg_zero : Nonneg (finite 0) := le_refl (0 : ℚ)

theorem differ_pairs {dim : UInt32} {a b : Vec dim} (ha : a.IsFinite)
    (hb : b.IsFinite) : Differ (pairs a b) := by
  intro p hp
  obtain ⟨hp₁, hp₂⟩ := List.of_mem_zip (a := p.1) (b := p.2) hp
  obtain ⟨v, hv, hv'⟩ := List.mem_map.mp hp₁
  obtain ⟨w, hw, hw'⟩ := List.mem_map.mp hp₂
  unfold diff
  rw [← hv', ← hw']
  exact sub_ne_nan (ha v hv) (hb w hw)

theorem nonneg_scalarLoop {acc : Binary32} {ps : Pairs} (hacc : Nonneg acc)
    (hps : Differ ps) : Nonneg (scalarLoop acc ps) := by
  unfold scalarLoop
  induction ps generalizing acc with
  | nil => exact hacc
  | cons p ps ih =>
      obtain ⟨hp, hps⟩ := List.forall_mem_cons.mp hps
      exact ih (hacc.fma_self hp) hps

theorem allNonneg_zipWith {β : Type} {f : Binary32 → β → Binary32}
    {v : List Binary32} {l : List β}
    (hf : ∀ x ∈ v, ∀ y ∈ l, Nonneg (f x y)) :
    AllNonneg (List.zipWith f v l) := by
  intro z hz
  rw [← List.map_uncurry_zip_eq_zipWith] at hz
  obtain ⟨⟨x, y⟩, hxy, rfl⟩ := List.mem_map.mp hz
  obtain ⟨hx, hy⟩ := List.of_mem_zip hxy
  exact hf x hx y hy

theorem allNonneg_fmaddBlock {acc : List Binary32} {block : Pairs}
    (hacc : AllNonneg acc) (hblock : Differ block) :
    AllNonneg (fmaddBlock acc block) :=
  allNonneg_zipWith fun a ha p hp => (hacc a ha).fma_self (hblock p hp)

theorem allNonneg_blockLoop (lanes : ℕ) {ps : Pairs} (hps : Differ ps) :
    AllNonneg (blockLoop lanes ps) := by
  unfold blockLoop
  apply List.foldlRecOn
  · intro x hx
    rw [List.eq_of_mem_replicate hx]
    exact nonneg_zero
  · intro acc hacc i _
    exact allNonneg_fmaddBlock hacc fun p hp =>
      hps p (List.mem_of_mem_drop (List.mem_of_mem_take hp))

theorem AllNonneg.addHalves {v : List Binary32} (hv : AllNonneg v) :
    AllNonneg (addHalves v) :=
  allNonneg_zipWith fun x hx y hy =>
    (hv x (List.mem_of_mem_take hx)).add (hv y (List.mem_of_mem_drop hy))

theorem AllNonneg.addPairs {v : List Binary32} (hv : AllNonneg v) :
    AllNonneg (addPairs v) := by
  fun_induction Simd.addPairs v with
  | case1 a b v ih =>
      obtain ⟨ha, hrest⟩ := List.forall_mem_cons.mp hv
      obtain ⟨hb, hrest⟩ := List.forall_mem_cons.mp hrest
      exact List.forall_mem_cons.mpr ⟨ha.add hb, ih hrest⟩
  | case2 => exact List.forall_mem_nil _

theorem AllNonneg.hadd {v : List Binary32} (hv : AllNonneg v) :
    AllNonneg (hadd v) :=
  List.forall_mem_append.mpr ⟨hv.addPairs, hv.addPairs⟩

theorem AllNonneg.lane0 {v : List Binary32} (hv : AllNonneg v) :
    Nonneg (lane0 v) := by
  cases v with
  | nil => exact nonneg_zero
  | cons x v => exact hv x List.mem_cons_self

theorem nonneg_l2Sq (isa : ISALevel) {ps : Pairs} (hps : Differ ps) :
    Nonneg (l2Sq isa ps) := by
  have htail : ∀ lanes, Differ (tail lanes ps) := fun lanes p hp =>
    hps p (List.mem_of_mem_drop hp)
  cases isa with
  | scalar => exact nonneg_scalarLoop nonneg_zero hps
  | avx2 =>
      exact nonneg_scalarLoop
        (allNonneg_blockLoop 8 hps).addHalves.hadd.hadd.lane0 (htail 8)
  | avx512 =>
      have hreduced := (allNonneg_blockLoop 16 hps).addHalves.addHalves
      exact nonneg_scalarLoop hreduced.addHalves.addHalves.lane0 (htail 16)

end Simd

/-- The index with the kernel in its place. -/
def Runtime.withKernel {dim : UInt32} (rt : Runtime (Vec dim) Binary32)
    (isa : Simd.ISALevel) : Runtime (Vec dim) Binary32 :=
  { rt with l2sq := fun a b => Simd.l2Sq isa (Simd.pairs a b) }

end VecDB
