import VecDB.HnswSearch
import VecDB.ShardSearch
import Mathlib.Tactic

/-!
# The distances a search holds

The heaps of a beam search hold distances of stored vectors from the query and
nothing else, and so do the answers that are sorted and merged.  None of this
asks that distances can be compared.
-/

namespace VecDB

/-- The distance of a result has the property. -/
def HNSWSearchResult.Holds {D : Type} (P : D → Prop) (r : HNSWSearchResult D) :
    Prop :=
  P r.dist

namespace PriorityQueue

variable {α : Type} {less : α → α → Bool} {pq : PriorityQueue α less}
  {P : α → Prop} {q : pq.Queue}

theorem forall_empty : ∀ b ∈ pq.toList pq.empty, P b := by
  rw [pq.toList_empty]
  exact List.forall_mem_nil _

theorem forall_push {a : α} (hq : ∀ b ∈ pq.toList q, P b) (ha : P a) :
    ∀ b ∈ pq.toList (pq.push a q), P b := by
  intro b hb
  rcases List.mem_cons.mp ((pq.toList_push a q).mem_iff.mp hb) with rfl | hold
  · exact ha
  · exact hq b hold

theorem forall_pop {a : α} (hq : ∀ b ∈ pq.toList q, P b)
    (htop : pq.top q = some a) : ∀ b ∈ pq.toList (pq.pop q), P b :=
  fun b hb => hq b ((pq.toList_pop q a htop).mem_iff.mpr
    (List.mem_cons_of_mem a hb))

end PriorityQueue

namespace HNSWIndex

variable {V D : Type} [LT D] [DecidableLT D] {rt : Runtime V D}
  {index : HNSWIndex V} {query : V} {P : D → Prop}

/-- Every distance between the query and a stored vector has the property. -/
def Distances (rt : Runtime V D) (index : HNSWIndex V) (query : V)
    (P : D → Prop) : Prop :=
  ∀ vec ∈ index.vectors, P (rt.l2sq vec query)

structure Beam.Holds (P : D → Prop) (beam : Beam rt) : Prop where
  candidates : ∀ r ∈ rt.minHeap.toList beam.candidates, r.Holds P
  results : ∀ r ∈ rt.maxHeap.toList beam.results, r.Holds P

theorem Distances.getVector (h : Distances rt index query P) {i : ℕ} {vec : V}
    (hget : index.getVector i = .ok vec) : P (rt.l2sq vec query) := by
  unfold HNSWIndex.getVector at hget
  cases hvec : index.vectors[i]? with
  | none =>
      rw [hvec] at hget
      cases hget
  | some other =>
      rw [hvec] at hget
      cases hget
      exact h vec (List.mem_of_getElem? hvec)

/-- A result joins both heaps or neither. -/
theorem Beam.Holds.offer {beam beam' : Beam rt} (h : beam.Holds P) {ef : ℕ}
    {r : HNSWSearchResult D} (hr : r.Holds P)
    (hok : HNSWIndex.offer rt ef r beam = .ok beam') : beam'.Holds P := by
  have hcandidates := PriorityQueue.forall_push h.candidates hr
  have hresults := PriorityQueue.forall_push h.results hr
  by_cases hroom : rt.maxHeap.size beam.results < ef
  · rw [offer_of_room hroom] at hok
    cases hok
    exact ⟨hcandidates, hresults⟩
  · cases htop : rt.maxHeap.top beam.results with
    | none =>
        rw [offer_of_empty hroom htop] at hok
        cases hok
    | some farthest =>
        rw [offer_of_full hroom htop] at hok
        split_ifs at hok with hcloser
        · cases hok
          obtain ⟨last, hlast⟩ := PriorityQueue.exists_top
            (q := rt.maxHeap.push r beam.results)
            (by rw [PriorityQueue.size_push]; exact Nat.succ_pos _)
          exact ⟨hcandidates, PriorityQueue.forall_pop hresults hlast⟩
        · cases hok
          exact h

theorem Beam.Holds.expand (hdist : Distances rt index query P) {n ef : ℕ}
    {nbrs : List ℕ} {beam beam' : Beam rt} (h : beam.Holds P)
    (hok : HNSWIndex.expand rt index query n ef nbrs beam = .ok beam') :
    beam'.Holds P := by
  induction nbrs generalizing beam with
  | nil =>
      cases hok
      exact h
  | cons nbr nbrs ih =>
      rw [HNSWIndex.expand] at hok
      split_ifs at hok with hskip
      · exact ih h hok
      · rw [except_bind_eq_ok] at hok
        obtain ⟨vec, hget, hok⟩ := hok
        rw [except_bind_eq_ok] at hok
        obtain ⟨next, hoffer, hok⟩ := hok
        have hseen : Beam.Holds P
            { beam with visited := beam.visited.set nbr true } :=
          ⟨h.candidates, h.results⟩
        have hnew : HNSWSearchResult.Holds P ⟨rt.l2sq vec query, nbr⟩ :=
          hdist.getVector hget
        exact ih (hseen.offer hnew hoffer) hok

theorem Beam.Holds.searchLoop (hdist : Distances rt index query P)
    {n ef layer fuel : ℕ} {beam : Beam rt} (h : beam.Holds P)
    {results : rt.maxHeap.Queue}
    (hok : HNSWIndex.searchLoop rt index query n ef layer fuel beam =
      .ok results) : ∀ r ∈ rt.maxHeap.toList results, r.Holds P := by
  induction fuel generalizing beam with
  | zero => cases hok
  | succ fuel ih =>
      cases htop : rt.minHeap.top beam.candidates with
      | none =>
          rw [searchLoop_of_empty htop] at hok
          cases hok
          exact h.results
      | some c =>
          rw [searchLoop_of_top htop, except_bind_eq_ok] at hok
          obtain ⟨stop, _, hturn⟩ := hok
          split_ifs at hturn
          · cases hturn
            exact h.results
          · obtain ⟨next, hexpand, hrest⟩ := except_bind_eq_ok.mp hturn
            have hpopped : Beam.Holds P { beam with
                candidates := rt.minHeap.pop beam.candidates } :=
              ⟨PriorityQueue.forall_pop h.candidates htop, h.results⟩
            exact ih (hpopped.expand hdist hexpand) hrest

theorem searchLayer_holds (hdist : Distances rt index query P) {ep layer : ℕ}
    {ef : Int32} {out : List (HNSWSearchResult D)}
    (hok : searchLayer rt index ep query ef layer = .ok out) :
    ∀ r ∈ out, r.Holds P := by
  rw [searchLayer, except_bind_eq_ok] at hok
  obtain ⟨vec, hget, hok⟩ := hok
  by_cases hep : index.nextId ≤ ep
  · rw [if_pos hep] at hok
    cases hok
  · rw [if_neg hep, except_bind_eq_ok] at hok
    obtain ⟨results, hloop, hok⟩ := hok
    cases hok
    have hstart : HNSWSearchResult.Holds P ⟨rt.l2sq vec query, ep⟩ :=
      hdist.getVector hget
    have hresults := Beam.Holds.searchLoop hdist
      ⟨PriorityQueue.forall_push PriorityQueue.forall_empty hstart,
        PriorityQueue.forall_push PriorityQueue.forall_empty hstart⟩ hloop
    intro r hr
    have hmem := (rt.sorter.perm _ _).mem_iff.mp hr
    exact hresults r (PriorityQueue.drain_perm.mem_iff.mp hmem)

/-- A beam search, from its entry point to its answer, compares distances that
have the property. -/
structure SearchesWithin (rt : Runtime V D) (index : HNSWIndex V) (query : V)
    (P : D → Prop) : Prop where
  entry : ∀ ep vec, index.getVector ep = .ok vec → P (rt.l2sq vec query)
  heaps : ∀ n ef nbrs (beam beam' : Beam rt), beam.Holds P →
    expand rt index query n ef nbrs beam = .ok beam' → beam'.Holds P
  answer : ∀ ep ef layer out,
    searchLayer rt index ep query ef layer = .ok out → ∀ r ∈ out, r.Holds P

theorem Distances.searchesWithin (h : Distances rt index query P) :
    SearchesWithin rt index query P where
  entry := fun _ _ hget => h.getVector hget
  heaps := fun _ _ _ _ _ hbeam hexpand => hbeam.expand h hexpand
  answer := fun _ _ _ _ hlayer => searchLayer_holds h hlayer

theorem search_holds (hdist : Distances rt index query P) {topK ef : Int32}
    {out : List (HNSWSearchResult D)}
    (hok : search rt index query topK ef = .ok out) :
    ∀ r ∈ out, r.Holds P := by
  unfold search at hok
  by_cases hempty : index.maxLayer < 0
  · rw [if_pos hempty] at hok
    cases hok
    exact List.forall_mem_nil _
  · rw [if_neg hempty] at hok
    dsimp only at hok
    rw [except_bind_eq_ok] at hok
    obtain ⟨ep, _, hok⟩ := hok
    rw [except_bind_eq_ok] at hok
    obtain ⟨candidates, hlayer, hok⟩ := hok
    have hall := searchLayer_holds hdist hlayer
    split_ifs at hok
    · cases hok
    · cases hok
      exact fun r hr => hall r (List.mem_of_mem_take hr)
    · cases hok
      exact hall

end HNSWIndex

/-- What a shard puts into the merge. -/
theorem ShardManager.contribution_holds {dim : UInt32} {D : Type} [LT D]
    [DecidableLT D] {rt : Runtime (Vec dim) D} {m : ShardManager dim}
    {query : Vec dim} {P : D → Prop} {topK ef : Int32} {throws : ℕ → Bool}
    {ss : ShardState dim}
    (hdist : HNSWIndex.Distances rt ss.index query P) :
    ∀ r ∈ contribution (m.searchTasks rt query topK ef throws) ss,
      r.Holds P := by
  intro r hr
  unfold contribution at hr
  cases htask : m.searchTasks rt query topK ef throws ss with
  | error e =>
      rw [htask] at hr
      cases hr
  | ok answer =>
      rw [htask] at hr
      unfold searchTasks ShardState.searchTask at htask
      split_ifs at htask
      · cases htask
        cases hr
      · exact HNSWIndex.search_holds hdist htask r hr

end VecDB
