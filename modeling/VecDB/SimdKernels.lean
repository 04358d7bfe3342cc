import VecDB.SimdDistance
import Mathlib.Algebra.BigOperators.Group.Finset.Basic
import Mathlib.Tactic

/-!
# The kernels as loops

The distance kernels once more, index by index, over components of any kind:
which elements they load, and what they add up.  The loop over blocks, the
horizontal sum and the scalar tail take every index once, so in exact
arithmetic all kernels accumulate the same sums.
-/

namespace VecDB
namespace Kernels

/-! ## Loops over an `int` -/

section Loops

variable {S : Type}

/-- A sum of two `int`s; an overflow is undefined. -/
def addInt (i n : ℤ) : Option ℤ :=
  if i + n < 2 ^ 31 then some (i + n) else none

/-- `for (; i + lanes <= dim; i += lanes)` -/
def forBlocks (lanes : ℕ) (dim : ℤ) (body : ℤ → S → S) :
    ℕ → ℤ → S → Option (ℤ × S)
  | 0, _, _ => none
  | fuel + 1, i, s => do
      let next ← addInt i lanes
      if next ≤ dim then forBlocks lanes dim body fuel next (body i s)
      else some (i, s)

/-- `for (; i < dim; ++i)` -/
def forRest (dim : ℤ) (body : ℤ → S → S) : ℕ → ℤ → S → Option S
  | 0, _, _ => none
  | fuel + 1, i, s =>
      if i < dim then forRest dim body fuel (i + 1) (body i s) else some s

variable {body : ℤ → S → S} (Inv : ℕ → S → Prop) {lanes dim n fuel : ℕ} {s : S}

theorem forBlocks_holds (hlanes : 0 < lanes) (hmax : dim + lanes < 2 ^ 31)
    (hstep : ∀ n s, Inv n s → n + lanes ≤ dim → Inv (n + lanes) (body n s))
    (hn : n ≤ dim) (hfuel : dim - n < fuel) (h : Inv n s) :
    ∃ (m : ℕ) (s' : S), forBlocks lanes dim body fuel n s =
        some ((m : ℤ), s') ∧ m ≤ dim ∧ dim < m + lanes ∧ Inv m s' := by
  induction fuel generalizing n s with
  | zero => omega
  | succ fuel ih =>
      have hnext : addInt n lanes = some ((n + lanes : ℕ) : ℤ) := by
        unfold addInt
        rw [if_pos (by omega), Nat.cast_add]
      unfold forBlocks
      rw [hnext, Option.bind_eq_bind, Option.bind_some]
      split_ifs with hblock
      · have hle : n + lanes ≤ dim := by exact_mod_cast hblock
        exact ih hle (by omega) (hstep n s h hle)
      · have hlast : ¬ n + lanes ≤ dim := fun hle =>
          hblock (by exact_mod_cast hle)
        exact ⟨n, s, rfl, hn, by omega, h⟩

theorem forRest_holds
    (hstep : ∀ n s, Inv n s → n < dim → Inv (n + 1) (body n s))
    (hn : n ≤ dim) (hfuel : dim - n < fuel) (h : Inv n s) :
    ∃ s', forRest dim body fuel n s = some s' ∧ Inv dim s' := by
  induction fuel generalizing n s with
  | zero => omega
  | succ fuel ih =>
      unfold forRest
      split_ifs with hlt
      · have hlt' : n < dim := by exact_mod_cast hlt
        exact_mod_cast ih hlt' (by omega) (hstep n s h hlt')
      · have hdone : n = dim := by omega
        exact ⟨s, rfl, hdone ▸ h⟩

end Loops

/-! ## The kernels -/

/-- What a kernel does with components.  The build contracts `acc += x * y` to
the same operation that the intrinsics name. -/
structure Arith (R : Type) where
  zero : R
  add : R → R → R
  sub : R → R → R
  fma : R → R → R → R

section Kernel

variable {R : Type} (A : Arith R)

/-- A component of a vector in memory.  Reading it notes its index. -/
def readAt (p : ℤ → R) (i : ℤ) : StateM (List ℤ) R := do
  modify fun reads => reads ++ [i]
  return p i

/-- `_mm256_loadu_ps` and `_mm512_loadu_ps`. -/
def load (lanes : ℕ) (p : ℤ → R) (i : ℤ) : StateM (List ℤ) (List R) :=
  (List.range lanes).mapM fun k : ℕ => readAt p (i + (k : ℤ))

def setzero (lanes : ℕ) : List R := List.replicate lanes A.zero

def subLanes (x y : List R) : List R := List.zipWith A.sub x y

def fmadd (x y acc : List R) : List R :=
  List.zipWith (fun p a => A.fma p.1 p.2 a) (x.zip y) acc

/-- The lower half of a register and its upper half. -/
def addHalves (v : List R) : List R :=
  List.zipWith A.add (v.take (v.length / 2)) (v.drop (v.length / 2))

def addPairs : List R → List R
  | x :: y :: v => A.add x y :: addPairs v
  | _ => []

/-- `_mm_hadd_ps` of a register with itself. -/
def hadd (v : List R) : List R := addPairs A v ++ addPairs A v

def lane0 (v : List R) : R := v.headD A.zero

/-- The horizontal reduction of the AVX2 kernels. -/
def hsum (v : List R) : R := lane0 A (hadd A (hadd A (addHalves A v)))

/-- `_mm512_reduce_add_ps` -/
def reduceAdd (v : List R) : R :=
  lane0 A (addHalves A (addHalves A (addHalves A (addHalves A v))))

/-- The indices that were read of the two vectors, in order. -/
structure Reads where
  first : List ℤ
  second : List ℤ

def Reads.none : Reads := ⟨[], []⟩

variable (a b : ℤ → R) (dim : ℤ)

def l2SqBody (i : ℤ) : R × Reads → R × Reads
  | (acc, reads) =>
      let (x, first) := (readAt a i).run reads.first
      let (y, second) := (readAt b i).run reads.second
      let d := A.sub x y
      (A.fma d d acc, ⟨first, second⟩)

def l2SqBlock (lanes : ℕ) (i : ℤ) : List R × Reads → List R × Reads
  | (acc, reads) =>
      let (va, first) := (load lanes a i).run reads.first
      let (vb, second) := (load lanes b i).run reads.second
      let diff := subLanes A va vb
      (fmadd A diff diff acc, ⟨first, second⟩)

def l2SqScalar : Option (R × Reads) :=
  forRest dim (l2SqBody A a b) (dim.toNat + 1) 0 (A.zero, Reads.none)

/-- The block loop, the reduction and the scalar tail. -/
def l2SqWide (lanes : ℕ) (reduce : List R → R) : Option (R × Reads) := do
  let (i, acc, reads) ← forBlocks lanes dim (l2SqBlock A a b lanes)
    (dim.toNat + 1) 0 (setzero A lanes, Reads.none)
  forRest dim (l2SqBody A a b) (dim.toNat + 1) i (reduce acc, reads)

def l2SqAvx2 : Option (R × Reads) := l2SqWide A a b dim 8 (hsum A)

/-- `CPUFeatures` -/
structure CPUFeatures where
  avx2 : Bool
  avx512 : Bool
  fma : Bool

def CPUFeatures.supportsAvx2 (feat : CPUFeatures) : Bool :=
  feat.avx2 && feat.fma

def CPUFeatures.supportsAvx512 (feat : CPUFeatures) : Bool :=
  feat.avx512 && feat.fma

def l2SqAvx512 (feat : CPUFeatures) : Option (R × Reads) :=
  if feat.supportsAvx512 = false then
    if feat.supportsAvx2 = true then l2SqAvx2 A a b dim
    else l2SqScalar A a b dim
  else l2SqWide A a b dim 16 (reduceAdd A)

/-- What the cosine kernels accumulate. -/
structure CosineSums (T : Type) where
  dot : T
  na : T
  nb : T

/-- An iteration loads its two components once, however often it names
them. -/
def cosineBody (i : ℤ) : CosineSums R × Reads → CosineSums R × Reads
  | (acc, reads) =>
      let (x, first) := (readAt a i).run reads.first
      let (y, second) := (readAt b i).run reads.second
      ({ dot := A.fma x y acc.dot
         na := A.fma x x acc.na
         nb := A.fma y y acc.nb }, ⟨first, second⟩)

def cosineBlock (lanes : ℕ) (i : ℤ) :
    CosineSums (List R) × Reads → CosineSums (List R) × Reads
  | (acc, reads) =>
      let (va, first) := (load lanes a i).run reads.first
      let (vb, second) := (load lanes b i).run reads.second
      ({ dot := fmadd A va vb acc.dot
         na := fmadd A va va acc.na
         nb := fmadd A vb vb acc.nb }, ⟨first, second⟩)

/-- The sums of `cosine_scalar`; the value that is computed of them is the same
in all three kernels. -/
def cosineScalar : Option (CosineSums R × Reads) :=
  forRest dim (cosineBody A a b) (dim.toNat + 1) 0
    (⟨A.zero, A.zero, A.zero⟩, Reads.none)

def cosineWide (lanes : ℕ) (reduce : List R → R) :
    Option (CosineSums R × Reads) := do
  let (i, acc, reads) ← forBlocks lanes dim (cosineBlock A a b lanes)
    (dim.toNat + 1) 0
    (⟨setzero A lanes, setzero A lanes, setzero A lanes⟩, Reads.none)
  forRest dim (cosineBody A a b) (dim.toNat + 1) i
    (⟨reduce acc.dot, reduce acc.na, reduce acc.nb⟩, reads)

def cosineAvx2 : Option (CosineSums R × Reads) :=
  cosineWide A a b dim 8 (hsum A)

def cosineAvx512 (feat : CPUFeatures) : Option (CosineSums R × Reads) :=
  if feat.supportsAvx512 = false then
    if feat.supportsAvx2 = true then cosineAvx2 A a b dim
    else cosineScalar A a b dim
  else cosineWide A a b dim 16 (reduceAdd A)

end Kernel

/-! ## Exact arithmetic -/

def Arith.exact (R : Type) [CommRing R] : Arith R where
  zero := 0
  add := (· + ·)
  sub := (· - ·)
  fma := fun x y z => x * y + z

/-- The indices of a block. -/
def block (lanes : ℕ) (i : ℤ) : List ℤ :=
  (List.range lanes).map fun k : ℕ => i + (k : ℤ)

/-- The components of a block. -/
def lanesAt {R : Type} (lanes : ℕ) (p : ℤ → R) (i : ℤ) : List R :=
  (block lanes i).map p

theorem length_lanesAt {R : Type} {lanes : ℕ} (p : ℤ → R) (i : ℤ) :
    (lanesAt lanes p i).length = lanes := by
  simp [lanesAt, block]

/-- A load reads the indices of its block, each once. -/
theorem load_run {R : Type} (lanes : ℕ) (p : ℤ → R) (i : ℤ)
    (reads : List ℤ) : (load lanes p i).run reads =
      (lanesAt lanes p i, reads ++ block lanes i) := by
  unfold load lanesAt block
  induction List.range lanes generalizing reads with
  | nil => exact congrArg _ (List.append_nil reads).symm
  | cons k ks ih =>
      rw [List.mapM_cons]
      change (do
        let xs ← ks.mapM fun k : ℕ => readAt p (i + (k : ℤ))
        return p (i + k) :: xs : StateM (List ℤ) (List R)).run
          (reads ++ [i + (k : ℤ)]) = _
      rw [StateT.run_bind, ih, List.append_assoc]
      rfl

section Exact

variable {R : Type} [CommRing R] {lanes n : ℕ}

/-- What the first `n` indices contribute. -/
def total (term : ℤ → R) (n : ℕ) : R := ∑ k ∈ Finset.range n, term k

theorem total_succ (term : ℤ → R) (n : ℕ) :
    total term (n + 1) = total term n + term n :=
  Finset.sum_range_succ _ n

theorem total_add (term : ℤ → R) (n lanes : ℕ) :
    total term (n + lanes) =
      total term n + ((block lanes n).map term).sum := by
  have hblock : ((block lanes n).map term).sum =
      ∑ k ∈ Finset.range lanes, term (n + k) := by
    unfold block
    rw [List.map_map]
    rfl
  unfold total
  rw [Finset.sum_range_add, hblock]
  simp only [Nat.cast_add]

theorem subLanes_lanesAt (p q : ℤ → R) (i : ℤ) :
    subLanes (Arith.exact R) (lanesAt lanes p i) (lanesAt lanes q i) =
      lanesAt lanes (fun j => p j - q j) i := by
  unfold subLanes lanesAt
  rw [List.zipWith_map, List.zipWith_self]
  rfl

theorem fmadd_exact {x y acc : List R} (hx : x.length = acc.length)
    (hy : y.length = acc.length) :
    (fmadd (Arith.exact R) x y acc).length = acc.length ∧
      (fmadd (Arith.exact R) x y acc).sum =
        acc.sum + (List.zipWith (· * ·) x y).sum := by
  induction acc generalizing x y with
  | nil =>
      rw [List.eq_nil_of_length_eq_zero hx]
      exact ⟨rfl, (add_zero _).symm⟩
  | cons z acc ih =>
      obtain ⟨u, x, rfl⟩ := List.exists_cons_of_length_eq_add_one hx
      obtain ⟨v, y, rfl⟩ := List.exists_cons_of_length_eq_add_one hy
      obtain ⟨hlength, hsum⟩ :=
        ih (Nat.succ.inj hx) (Nat.succ.inj hy)
      constructor
      · exact congrArg (· + 1) hlength
      · change u * v + z + (fmadd (Arith.exact R) x y acc).sum =
          (z + acc.sum) + (u * v + (List.zipWith (· * ·) x y).sum)
        rw [hsum]
        ring

/-- The lanes of a register add up to what the first `n` indices contribute. -/
def Register (lanes : ℕ) (term : ℤ → R) (n : ℕ) (acc : List R) : Prop :=
  acc.length = lanes ∧ acc.sum = total term n

theorem register_zero (lanes : ℕ) (term : ℤ → R) :
    Register lanes term 0 (setzero (Arith.exact R) lanes) := by
  constructor
  · exact List.length_replicate
  · unfold setzero total Arith.exact
    simp

theorem Register.fmadd {acc : List R} {p q : ℤ → R}
    (h : Register lanes (fun i => p i * q i) n acc) :
    Register lanes (fun i => p i * q i) (n + lanes)
      (fmadd (Arith.exact R) (lanesAt lanes p n) (lanesAt lanes q n)
        acc) := by
  obtain ⟨hlength, hsum⟩ := fmadd_exact
    ((length_lanesAt p n).trans h.1.symm)
    ((length_lanesAt q n).trans h.1.symm)
  refine ⟨hlength.trans h.1, ?_⟩
  rw [hsum, h.2, total_add]
  unfold lanesAt
  rw [List.zipWith_map, List.zipWith_self]

theorem hsum_exact {v : List R} (hv : v.length = 8) :
    hsum (Arith.exact R) v = v.sum := by
  match v, hv with
  | [a, b, c, d, e, f, g, h], _ =>
      simp [hsum, addHalves, hadd, addPairs, lane0, Arith.exact]
      ring

theorem reduceAdd_exact {v : List R} (hv : v.length = 16) :
    reduceAdd (Arith.exact R) v = v.sum := by
  match v, hv with
  | [a, b, c, d, e, f, g, h, i, j, k, l, m, n, o, p], _ =>
      simp [reduceAdd, addHalves, lane0, Arith.exact]
      ring

/-! ## Every index once -/

/-- The indices below `n`, in their order. -/
def indices (n : ℕ) : List ℤ := (List.range n).map fun k : ℕ => (k : ℤ)

theorem indices_succ (n : ℕ) : indices (n + 1) = indices n ++ [(n : ℤ)] := by
  unfold indices
  rw [List.range_succ, List.map_append]
  rfl

theorem indices_add (n lanes : ℕ) :
    indices (n + lanes) = indices n ++ block lanes n := by
  unfold indices block
  rw [List.range_add, List.map_append, List.map_map]
  simp [Function.comp_def]

/-- Of both vectors every index below `dim` is read once and no other index is
read. -/
structure Reads.Once (dim : ℤ) (reads : Reads) : Prop where
  first : ∀ i, reads.first.count i = if 0 ≤ i ∧ i < dim then 1 else 0
  second : ∀ i, reads.second.count i = if 0 ≤ i ∧ i < dim then 1 else 0

/-- What a loop has read when it comes to `n`. -/
def Reads.below (n : ℕ) : Reads := ⟨indices n, indices n⟩

theorem count_indices (n : ℕ) (i : ℤ) :
    (indices n).count i = if 0 ≤ i ∧ i < (n : ℤ) then 1 else 0 := by
  have hnodup : (indices n).Nodup :=
    List.nodup_range.map fun _ _ heq => by exact_mod_cast heq
  have hmem : i ∈ indices n ↔ 0 ≤ i ∧ i < n := by
    unfold indices
    rw [List.mem_map]
    constructor
    · rintro ⟨k, hk, rfl⟩
      rw [List.mem_range] at hk
      omega
    · rintro ⟨hpos, hlt⟩
      exact ⟨i.toNat, List.mem_range.mpr (by omega),
        Int.toNat_of_nonneg hpos⟩
  rw [hnodup.count]
  simp only [hmem]

theorem Reads.once_below (n : ℕ) : (Reads.below n).Once n :=
  ⟨count_indices n, count_indices n⟩

/-! ## The squared distance -/

section Steps

variable {S : Type} (A : Arith S) (a b : ℤ → S)

theorem l2SqBody_below (n : ℕ) (acc : S) :
    l2SqBody A a b n (acc, Reads.below n) =
      (A.fma (A.sub (a n) (b n)) (A.sub (a n) (b n)) acc,
        Reads.below (n + 1)) := by
  unfold Reads.below
  rw [indices_succ]
  rfl

theorem l2SqBlock_below (lanes n : ℕ) (acc : List S) :
    l2SqBlock A a b lanes n (acc, Reads.below n) =
      (fmadd A (subLanes A (lanesAt lanes a n) (lanesAt lanes b n))
        (subLanes A (lanesAt lanes a n) (lanesAt lanes b n)) acc,
        Reads.below (n + lanes)) := by
  unfold l2SqBlock Reads.below
  dsimp only
  rw [load_run, load_run, indices_add]

theorem cosineBody_below (n : ℕ) (acc : CosineSums S) :
    cosineBody A a b n (acc, Reads.below n) =
      ({ dot := A.fma (a n) (b n) acc.dot
         na := A.fma (a n) (a n) acc.na
         nb := A.fma (b n) (b n) acc.nb }, Reads.below (n + 1)) := by
  unfold Reads.below
  rw [indices_succ]
  rfl

theorem cosineBlock_below (lanes n : ℕ) (acc : CosineSums (List S)) :
    cosineBlock A a b lanes n (acc, Reads.below n) =
      ({ dot := fmadd A (lanesAt lanes a n) (lanesAt lanes b n) acc.dot
         na := fmadd A (lanesAt lanes a n) (lanesAt lanes a n) acc.na
         nb := fmadd A (lanesAt lanes b n) (lanesAt lanes b n) acc.nb },
        Reads.below (n + lanes)) := by
  unfold cosineBlock Reads.below
  dsimp only
  rw [load_run, load_run, indices_add]

end Steps

section L2

variable (a b : ℤ → R) {dim : ℕ}

/-- The square of a coordinate difference. -/
def square (i : ℤ) : R := (a i - b i) * (a i - b i)

theorem l2SqRest_exact (hn : n ≤ dim) :
    forRest dim (l2SqBody (Arith.exact R) a b) ((dim : ℤ).toNat + 1) n
      (total (square a b) n, Reads.below n) =
        some (total (square a b) dim, Reads.below dim) := by
  have hstep : ∀ n s, s = (total (square a b) n, Reads.below n) → n < dim →
      l2SqBody (Arith.exact R) a b n s =
        (total (square a b) (n + 1), Reads.below (n + 1)) := by
    rintro n s rfl _
    rw [l2SqBody_below, total_succ, add_comm (total _ n)]
    rfl
  obtain ⟨s, hrun, rfl⟩ := forRest_holds
    (fun n s => s = (total (square a b) n, Reads.below n)) hstep hn
    (show dim - n < (dim : ℤ).toNat + 1 by omega) rfl
  exact hrun

theorem l2SqScalar_exact : l2SqScalar (Arith.exact R) a b dim =
    some (total (square a b) dim, Reads.below dim) := by
  have hrest := l2SqRest_exact a b (Nat.zero_le dim)
  unfold l2SqScalar
  exact hrest

theorem l2SqWide_exact {reduce : List R → R} (hlanes : 0 < lanes)
    (hreduce : ∀ v : List R, v.length = lanes → reduce v = v.sum)
    (hmax : dim + lanes < 2 ^ 31) :
    l2SqWide (Arith.exact R) a b dim lanes reduce =
      some (total (square a b) dim, Reads.below dim) := by
  have hstep : ∀ n s,
      Register lanes (square a b) n s.1 ∧ s.2 = Reads.below n →
      n + lanes ≤ dim →
      Register lanes (square a b) (n + lanes)
          (l2SqBlock (Arith.exact R) a b lanes n s).1 ∧
        (l2SqBlock (Arith.exact R) a b lanes n s).2 =
          Reads.below (n + lanes) := by
    rintro n ⟨acc, reads⟩ ⟨hacc, rfl⟩ _
    rw [l2SqBlock_below, subLanes_lanesAt]
    exact ⟨Register.fmadd (p := fun i => a i - b i)
      (q := fun i => a i - b i) hacc, rfl⟩
  obtain ⟨m, ⟨acc, reads⟩, hrun, hle, _, hacc, rfl⟩ := forBlocks_holds
    (fun n s => Register lanes (square a b) n s.1 ∧ s.2 = Reads.below n)
    hlanes hmax hstep (Nat.zero_le dim)
    (show dim - 0 < (dim : ℤ).toNat + 1 by omega)
    (s := (setzero (Arith.exact R) lanes, Reads.none))
    ⟨register_zero lanes (square a b), rfl⟩
  unfold l2SqWide
  rw [← Nat.cast_zero, hrun]
  change forRest dim _ _ m (reduce acc, _) = _
  rw [hreduce acc hacc.1, hacc.2]
  exact l2SqRest_exact a b hle

end L2

/-! ## The sums of the cosine distance -/

section Cosine

variable (a b : ℤ → R) {dim : ℕ}

def cosineTotal (n : ℕ) : CosineSums R where
  dot := total (fun i => a i * b i) n
  na := total (fun i => a i * a i) n
  nb := total (fun i => b i * b i) n

/-- The three registers. -/
structure CosineRegisters (lanes n : ℕ) (acc : CosineSums (List R)) :
    Prop where
  dot : Register lanes (fun i => a i * b i) n acc.dot
  na : Register lanes (fun i => a i * a i) n acc.na
  nb : Register lanes (fun i => b i * b i) n acc.nb

theorem cosineRest_exact (hn : n ≤ dim) :
    forRest dim (cosineBody (Arith.exact R) a b) ((dim : ℤ).toNat + 1) n
      (cosineTotal a b n, Reads.below n) =
        some (cosineTotal a b dim, Reads.below dim) := by
  have hstep : ∀ n s, s = (cosineTotal a b n, Reads.below n) → n < dim →
      cosineBody (Arith.exact R) a b n s =
        (cosineTotal a b (n + 1), Reads.below (n + 1)) := by
    rintro n s rfl _
    rw [cosineBody_below]
    unfold cosineTotal
    rw [total_succ, total_succ, total_succ, add_comm (total _ n),
      add_comm (total _ n), add_comm (total _ n)]
    rfl
  obtain ⟨s, hrun, rfl⟩ := forRest_holds
    (fun n s => s = (cosineTotal a b n, Reads.below n)) hstep hn
    (show dim - n < (dim : ℤ).toNat + 1 by omega) rfl
  exact hrun

theorem cosineScalar_exact : cosineScalar (Arith.exact R) a b dim =
    some (cosineTotal a b dim, Reads.below dim) := by
  have hrest := cosineRest_exact a b (Nat.zero_le dim)
  unfold cosineScalar
  exact hrest

theorem cosineWide_exact {reduce : List R → R} (hlanes : 0 < lanes)
    (hreduce : ∀ v : List R, v.length = lanes → reduce v = v.sum)
    (hmax : dim + lanes < 2 ^ 31) :
    cosineWide (Arith.exact R) a b dim lanes reduce =
      some (cosineTotal a b dim, Reads.below dim) := by
  have hstep : ∀ n s,
      CosineRegisters a b lanes n s.1 ∧ s.2 = Reads.below n →
      n + lanes ≤ dim →
      CosineRegisters a b lanes (n + lanes)
          (cosineBlock (Arith.exact R) a b lanes n s).1 ∧
        (cosineBlock (Arith.exact R) a b lanes n s).2 =
          Reads.below (n + lanes) := by
    rintro n ⟨acc, reads⟩ ⟨hacc, rfl⟩ _
    rw [cosineBlock_below]
    refine ⟨?_, rfl⟩
    exact {
      dot := hacc.dot.fmadd
      na := hacc.na.fmadd
      nb := hacc.nb.fmadd }
  let zeros : CosineSums (List R) :=
    ⟨setzero (Arith.exact R) lanes, setzero (Arith.exact R) lanes,
      setzero (Arith.exact R) lanes⟩
  obtain ⟨m, ⟨acc, reads⟩, hrun, hle, _, hacc, rfl⟩ := forBlocks_holds
    (fun n s => CosineRegisters a b lanes n s.1 ∧ s.2 = Reads.below n)
    hlanes hmax hstep (Nat.zero_le dim)
    (show dim - 0 < (dim : ℤ).toNat + 1 by omega)
    (s := (zeros, Reads.none))
    ⟨⟨register_zero _ _, register_zero _ _, register_zero _ _⟩, rfl⟩
  unfold cosineWide
  rw [← Nat.cast_zero, hrun]
  change forRest dim _ _ m ((⟨reduce acc.dot, reduce acc.na, reduce acc.nb⟩ :
    CosineSums R), _) = _
  rw [hreduce _ hacc.dot.1, hreduce _ hacc.na.1, hreduce _ hacc.nb.1,
    hacc.dot.2, hacc.na.2, hacc.nb.2]
  exact cosineRest_exact a b hle

end Cosine

/-- In exact arithmetic the wide kernels accumulate what the scalar ones do, on
every processor, and all of them read every index once. -/
theorem kernels_agree (feat : CPUFeatures) (a b : ℤ → R) {dim : ℤ}
    (hdim : 0 ≤ dim) (hmax : dim + 16 < 2 ^ 31) :
    ∃ value sums reads, Reads.Once dim reads ∧
      l2SqScalar (Arith.exact R) a b dim = some (value, reads) ∧
      l2SqAvx2 (Arith.exact R) a b dim = some (value, reads) ∧
      l2SqAvx512 (Arith.exact R) a b dim feat = some (value, reads) ∧
      cosineScalar (Arith.exact R) a b dim = some (sums, reads) ∧
      cosineAvx2 (Arith.exact R) a b dim = some (sums, reads) ∧
      cosineAvx512 (Arith.exact R) a b dim feat = some (sums, reads) := by
  obtain ⟨n, rfl⟩ := Int.eq_ofNat_of_zero_le hdim
  have hl2 : l2SqScalar (Arith.exact R) a b n = _ := l2SqScalar_exact a b
  have hl2Avx2 : l2SqAvx2 (Arith.exact R) a b n = _ :=
    l2SqWide_exact a b (by norm_num) (fun _ => hsum_exact) (by omega)
  have hcosine : cosineScalar (Arith.exact R) a b n = _ :=
    cosineScalar_exact a b
  have hcosineAvx2 : cosineAvx2 (Arith.exact R) a b n = _ :=
    cosineWide_exact a b (by norm_num) (fun _ => hsum_exact) (by omega)
  refine ⟨_, _, _, Reads.once_below n, hl2, hl2Avx2, ?_, hcosine,
    hcosineAvx2, ?_⟩
  · unfold l2SqAvx512
    split_ifs
    · exact hl2Avx2
    · exact hl2
    · exact l2SqWide_exact a b (by norm_num) (fun _ => reduceAdd_exact)
        (by omega)
  · unfold cosineAvx512
    split_ifs
    · exact hcosineAvx2
    · exact hcosine
    · exact cosineWide_exact a b (by norm_num) (fun _ => reduceAdd_exact)
        (by omega)

end Exact

/-- Two blocks of eight lanes, or one of sixteen, and a tail. -/
theorem kernels_agree_nineteen :
    ∃ value sums reads, Reads.Once 19 reads ∧
      l2SqScalar (Arith.exact ℤ) id (fun _ => 1) 19 = some (value, reads) ∧
      l2SqAvx2 (Arith.exact ℤ) id (fun _ => 1) 19 = some (value, reads) ∧
      l2SqAvx512 (Arith.exact ℤ) id (fun _ => 1) 19 ⟨true, true, true⟩ =
        some (value, reads) ∧
      cosineScalar (Arith.exact ℤ) id (fun _ => 1) 19 = some (sums, reads) ∧
      cosineAvx2 (Arith.exact ℤ) id (fun _ => 1) 19 = some (sums, reads) ∧
      cosineAvx512 (Arith.exact ℤ) id (fun _ => 1) 19 ⟨true, true, true⟩ =
        some (sums, reads) :=
  kernels_agree ⟨true, true, true⟩ id (fun _ => 1) (by norm_num) (by norm_num)

/-! ## The kernels over floats

On components of floats the loops are the kernels of the distances.
-/

section Floats

open Binary32

def Arith.binary32 : Arith Binary32 where
  zero := finite 0
  add := Binary32.add
  sub := Binary32.sub
  fma := Binary32.fma

/-- The memory of two vectors. -/
def memory (ps : Simd.Pairs) (i : ℤ) : Binary32 × Binary32 :=
  ps.getD i.toNat (finite 0, finite 0)

variable {ps : Simd.Pairs} {lanes n : ℕ}

theorem memory_of_lt (hn : n < ps.length) : memory ps n = ps[n] := by
  unfold memory
  rw [Int.toNat_natCast, List.getD_eq_getElem?_getD,
    List.getElem?_eq_getElem hn, Option.getD_some]

theorem block_eq_lanesAt (hn : n + lanes ≤ ps.length) :
    (ps.drop n).take lanes = lanesAt lanes (memory ps) n := by
  apply List.ext_getElem
  · rw [length_lanesAt, List.length_take, List.length_drop]
    omega
  · intro k hk hk'
    rw [length_lanesAt] at hk'
    have hlt : n + k < ps.length := by omega
    have hread := memory_of_lt hlt
    rw [Nat.cast_add] at hread
    simp only [lanesAt, block, List.getElem_take, List.getElem_drop,
      List.getElem_map, List.getElem_range]
    exact hread.symm

theorem fmaddBlock_eq (acc : List Binary32) (i : ℤ) :
    Simd.fmaddBlock acc (lanesAt lanes (memory ps) i) =
      fmadd Arith.binary32
        (subLanes Arith.binary32 (lanesAt lanes (fun j => (memory ps j).1) i)
          (lanesAt lanes (fun j => (memory ps j).2) i))
        (subLanes Arith.binary32 (lanesAt lanes (fun j => (memory ps j).1) i)
          (lanesAt lanes (fun j => (memory ps j).2) i)) acc := by
  unfold Simd.fmaddBlock fmadd subLanes lanesAt
  rw [List.zipWith_map, List.zipWith_self, List.zip_map', List.zipWith_map_right,
    List.zipWith_map_left, List.zipWith_comm]
  rfl

/-- The two vectors. -/
def first (ps : Simd.Pairs) (i : ℤ) : Binary32 := (memory ps i).1
def second (ps : Simd.Pairs) (i : ℤ) : Binary32 := (memory ps i).2

theorem l2SqRest_eq (acc : Binary32) {m : ℕ} (hm : m ≤ ps.length) :
    forRest ps.length (l2SqBody Arith.binary32 (first ps) (second ps))
        ((ps.length : ℤ).toNat + 1) m (acc, Reads.below m) =
      some (Simd.scalarLoop acc (ps.drop m), Reads.below ps.length) := by
  have hstep : ∀ n s, m ≤ n ∧
        s = (Simd.scalarLoop acc ((ps.take n).drop m), Reads.below n) →
      n < ps.length → m ≤ n + 1 ∧
        l2SqBody Arith.binary32 (first ps) (second ps) n s =
          (Simd.scalarLoop acc ((ps.take (n + 1)).drop m),
            Reads.below (n + 1)) := by
    rintro n s ⟨hle, rfl⟩ hlt
    refine ⟨by omega, ?_⟩
    rw [List.take_succ_eq_append_getElem hlt, List.drop_append_of_le_length
      (by rw [List.length_take]; omega), l2SqBody_below]
    unfold Simd.scalarLoop first second
    rw [List.foldl_append, memory_of_lt hlt]
    rfl
  have hnone : (ps.take m).drop m = [] :=
    List.drop_eq_nil_of_le (List.length_take_le m ps)
  obtain ⟨s, hrun, _, rfl⟩ := forRest_holds
    (fun n s => m ≤ n ∧
      s = (Simd.scalarLoop acc ((ps.take n).drop m), Reads.below n)) hstep hm
    (show ps.length - m < (ps.length : ℤ).toNat + 1 by omega)
    (s := (acc, Reads.below m)) ⟨le_rfl, by rw [hnone]; rfl⟩
  rw [List.take_length] at hrun
  exact hrun

theorem l2SqWide_eq (reduce : List Binary32 → Binary32) (hlanes : 0 < lanes)
    (hmax : ps.length + lanes < 2 ^ 31) :
    l2SqWide Arith.binary32 (first ps) (second ps) ps.length lanes reduce =
      some (Simd.scalarLoop (reduce (Simd.blockLoop lanes ps))
        (Simd.tail lanes ps), Reads.below ps.length) := by
  let blocks (k : ℕ) : List Binary32 := (List.range k).foldl
    (fun acc i => Simd.fmaddBlock acc ((ps.drop (i * lanes)).take lanes))
    (List.replicate lanes (finite 0))
  have hstep : ∀ n s, (∃ k, n = k * lanes ∧ s = (blocks k, Reads.below n)) →
      n + lanes ≤ ps.length →
      ∃ k, n + lanes = k * lanes ∧
        l2SqBlock Arith.binary32 (first ps) (second ps) lanes n s =
          (blocks k, Reads.below (n + lanes)) := by
    rintro n s ⟨k, rfl, rfl⟩ hle
    refine ⟨k + 1, (Nat.succ_mul k lanes).symm, ?_⟩
    have hblocks : blocks (k + 1) =
        Simd.fmaddBlock (blocks k) ((ps.drop (k * lanes)).take lanes) := by
      simp only [blocks, List.range_succ, List.foldl_append, List.foldl_cons,
        List.foldl_nil]
    rw [hblocks, block_eq_lanesAt hle, fmaddBlock_eq, l2SqBlock_below]
    rfl
  obtain ⟨m, s, hrun, hle, hlast, k, rfl, rfl⟩ := forBlocks_holds
    (fun n s => ∃ k, n = k * lanes ∧ s = (blocks k, Reads.below n)) hlanes hmax
    hstep (Nat.zero_le _)
    (show ps.length - 0 < (ps.length : ℤ).toNat + 1 by omega)
    (s := (setzero Arith.binary32 lanes, Reads.none))
    ⟨0, (Nat.zero_mul lanes).symm, rfl⟩
  have hk : ps.length / lanes = k :=
    Nat.div_eq_of_lt_le hle (by rwa [Nat.succ_mul])
  unfold l2SqWide
  rw [← Nat.cast_zero, hrun]
  change forRest _ _ _ (k * lanes : ℕ) (reduce (blocks k), _) = _
  rw [l2SqRest_eq _ hle]
  unfold Simd.blockLoop Simd.tail
  rw [hk]

theorem addPairs_eq (v : List Binary32) :
    addPairs Arith.binary32 v = Simd.addPairs v := by
  induction v using List.twoStepInduction with
  | nil => rfl
  | singleton a => rfl
  | cons_cons a b v ih _ => exact congrArg (add a b :: ·) ih

theorem hsum_eq (v : List Binary32) :
    hsum Arith.binary32 v =
      Simd.lane0 (Simd.hadd (Simd.hadd (Simd.addHalves v))) := by
  unfold hsum hadd Simd.hadd
  rw [addPairs_eq, addPairs_eq]
  rfl

/-- The kernels of the distances are these loops over floats. -/
theorem l2Sq_eq (hmax : ps.length + 16 < 2 ^ 31) :
    l2SqScalar Arith.binary32 (first ps) (second ps) ps.length =
        some (Simd.l2Sq .scalar ps, Reads.below ps.length) ∧
      l2SqAvx2 Arith.binary32 (first ps) (second ps) ps.length =
        some (Simd.l2Sq .avx2 ps, Reads.below ps.length) ∧
      l2SqAvx512 Arith.binary32 (first ps) (second ps) ps.length
          ⟨true, true, true⟩ =
        some (Simd.l2Sq .avx512 ps, Reads.below ps.length) := by
  have hmax8 : ps.length + 8 < 2 ^ 31 := by omega
  refine ⟨?_, ?_, ?_⟩
  · exact l2SqRest_eq (finite 0) (Nat.zero_le _)
  · refine (l2SqWide_eq (hsum Arith.binary32) (by norm_num) hmax8).trans ?_
    rw [hsum_eq]
    rfl
  · exact l2SqWide_eq (reduceAdd Arith.binary32) (by norm_num) hmax

end Floats

end Kernels
end VecDB
