import VecDB.LeastPrefix
import VecDB.ShardSearch
import Mathlib.Tactic

/-!
# The merge gives the global top k

`merge_results` counts the candidates in an `int`.  As long as the count is
not cut below `top_k`, the merge of parts that keep the best of their shards
gives the best of all shards.
-/

namespace VecDB

open LeastPrefix

variable {D : Type}

section Merge

variable [LT D] [DecidableLT D]
  {ps : PartialSorter (HNSWSearchResult D)}
  {partials : List (List (HNSWSearchResult D))} {topK : Int32}

/-- A count that is cut is the length of the answer, if there is one. -/
theorem length_of_not_countsEnough (hcounts : ¬ CountsEnough partials topK)
    {out : List (HNSWSearchResult D)}
    (hok : mergeResults ps partials topK = .ok out) (hpos : 1 ≤ topK.toInt) :
    (out.length : ℤ) < topK.toInt ∧ 2 ^ 31 ≤ partials.flatten.length := by
  unfold CountsEnough at hcounts
  push Not at hcounts
  obtain ⟨hlarge, hcut⟩ := hcounts
  obtain ⟨_, _, hlength, _⟩ := mergeResults_eq_ok hok
  rw [min_eq_left hcut.le] at hlength
  refine ⟨?_, hlarge⟩
  omega

end Merge

/-! ## The answer -/

section TopK

variable [LinearOrder D]

/-- `out` is what a search over all shards at once would give. -/
structure IsTopK (k : ℕ) (shards partials : List (List (HNSWSearchResult D)))
    (out : List (HNSWSearchResult D)) : Prop where
  length_eq : out.length = min k partials.flatten.length
  sorted : out.Pairwise fun a b => a.dist ≤ b.dist
  subperm : out.Subperm partials.flatten
  dists : out.map HNSWSearchResult.dist =
    ((shards.flatten.map HNSWSearchResult.dist).insertionSort (· ≤ ·)).take k

variable {ps : PartialSorter (HNSWSearchResult D)}
  {shards partials : List (List (HNSWSearchResult D))} {topK : Int32}

theorem mergeResults_leastOf {out : List (HNSWSearchResult D)}
    (hcounts : CountsEnough partials topK)
    (hok : mergeResults ps partials topK = .ok out) :
    LeastOf HNSWSearchResult.dist topK.toInt.toNat partials.flatten out := by
  obtain ⟨rest, hperm, hlength, hbest⟩ := mergeResults_eq_ok hok
  obtain ⟨hsorted, hrest⟩ := hbest (StrictWeak.ofKey HNSWSearchResult.dist)
  simp only [closerResult, decide_eq_false_iff_not, not_lt] at hsorted hrest
  rw [hcounts.toNat_min, min_comm] at hlength
  exact ⟨hsorted, hlength, rest, hperm, hrest⟩

theorem mergeResults_isTopK
    (hparts : List.Forall₂
      (KeepsLeast HNSWSearchResult.dist topK.toInt.toNat) shards partials)
    (hcounts : CountsEnough partials topK) {out : List (HNSWSearchResult D)}
    (hok : mergeResults ps partials topK = .ok out) :
    IsTopK topK.toInt.toNat shards partials out := by
  have hleast := mergeResults_leastOf hcounts hok
  obtain ⟨dropped, hall, hcovers⟩ := covers_flatten hparts
  obtain ⟨rest, hperm, _⟩ := hleast.rest
  exact {
    length_eq := hleast.length_eq
    sorted := hleast.sorted
    subperm := (List.sublist_append_left out rest).subperm.trans hperm.subperm
    dists := (hleast.of_covers hall hcovers).map_eq }

/-- Scatter and merge give the global top k exactly when the `int` that counts
the candidates is not cut below `topK`. -/
theorem mergeResults_isTopK_iff (ps : PartialSorter (HNSWSearchResult D))
    (hpos : 1 ≤ topK.toInt)
    (hparts : List.Forall₂
      (KeepsLeast HNSWSearchResult.dist topK.toInt.toNat) shards partials) :
    (∃ out, mergeResults ps partials topK = .ok out ∧
      IsTopK topK.toInt.toNat shards partials out) ↔
      CountsEnough partials topK := by
  constructor
  · rintro ⟨out, hok, hout⟩
    by_contra hcounts
    obtain ⟨hshort, hlarge⟩ := length_of_not_countsEnough hcounts hok hpos
    have hlength := hout.length_eq
    have hlt := topK.toInt_lt
    omega
  · intro hcounts
    obtain ⟨out, hok⟩ := mergeResults_ok ps (by omega) hcounts
    exact ⟨out, hok, mergeResults_isTopK hparts hcounts hok⟩

end TopK

/-- A shard that hands over its farther candidate less. -/
theorem mergeResults_isTopK_iff_two :
    (∃ out, mergeResults (Sorter.insertion _).front
        ([[⟨1, 1⟩], [⟨2, 0⟩]] : List (List (HNSWSearchResult ℕ))) 1 = .ok out ∧
      IsTopK (1 : Int32).toInt.toNat [[⟨3, 0⟩, ⟨1, 1⟩], [⟨2, 0⟩]]
        [[⟨1, 1⟩], [⟨2, 0⟩]] out) ↔
      CountsEnough ([[⟨1, 1⟩], [⟨2, 0⟩]] : List (List (HNSWSearchResult ℕ)))
        1 := by
  apply mergeResults_isTopK_iff _ (by decide)
  have hone : (1 : Int32).toInt.toNat = 1 := by decide
  rw [hone]
  refine List.Forall₂.cons ?_ (List.Forall₂.cons ?_ List.Forall₂.nil)
  · refine ⟨(List.sublist_cons_self _ _).subperm, [⟨1, 1⟩], [⟨3, 0⟩],
      List.Perm.swap _ _ _, rfl, by simp, List.Subperm.refl _⟩
  · exact keepsLeast_of_length_le le_rfl

/-- 2048 shards that hand over as many candidates as they are asked for. -/
def fullPartials : List (List (HNSWSearchResult ℕ)) :=
  List.replicate 2048 (List.replicate 1048576 ⟨0, 0⟩)

/-- Their count is negative as an `int`. -/
theorem mergeResults_fullPartials :
    (1 ≤ (1048576 : Int32).toInt ∧ List.Forall₂
      (KeepsLeast HNSWSearchResult.dist (1048576 : Int32).toInt.toNat)
        fullPartials fullPartials) ∧
    ¬ ∃ out, mergeResults (Sorter.insertion _).front fullPartials
        1048576 = .ok out ∧
      IsTopK (1048576 : Int32).toInt.toNat fullPartials fullPartials out := by
  have hasked : (1048576 : Int32).toInt = 1048576 := by decide
  have hlength : fullPartials.flatten.length = 2 ^ 31 := by
    unfold fullPartials
    rw [List.length_flatten, List.map_replicate, List.length_replicate,
      List.sum_replicate]
    norm_num
  have hparts : List.Forall₂
      (KeepsLeast HNSWSearchResult.dist (1048576 : Int32).toInt.toNat)
        fullPartials fullPartials := by
    rw [List.forall₂_same]
    intro part hpart
    obtain ⟨_, rfl⟩ := List.mem_replicate.mp hpart
    apply keepsLeast_of_length_le
    rw [List.length_replicate, hasked]
    norm_num
  refine ⟨⟨by rw [hasked]; norm_num, hparts⟩, ?_⟩
  rintro ⟨out, hok, hout⟩
  have hcounts : ¬ CountsEnough fullPartials 1048576 := by
    unfold CountsEnough
    rw [hlength, hasked, intCast]
    decide
  obtain ⟨hshort, _⟩ := length_of_not_countsEnough hcounts hok
    (by rw [hasked]; norm_num)
  have hfull := hout.length_eq
  rw [hlength, hasked] at hfull
  rw [hasked] at hshort
  have htoNat : (1048576 : ℤ).toNat = 1048576 := rfl
  rw [htoNat] at hfull
  omega

end VecDB
