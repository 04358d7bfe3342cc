import VecDB.HnswModel
import Mathlib.Tactic

/-!
# Greedy descent and beam search on a closed set of nodes

A set of nodes is closed at a layer when its nodes have vectors and the
adjacency lists lead nowhere else.  A search that starts inside a closed set
ends, makes no access out of range and returns nodes of the set, whatever the
distances are.  A beam search whose `ef` covers all nodes returns exactly the
nodes it can reach.
-/

namespace VecDB

theorem countP_lt_countP {α : Type} {p q : α → Bool} {l : List α} {a : α}
    (himp : ∀ b ∈ l, p b = true → q b = true) (hmem : a ∈ l)
    (hq : q a = true) (hp : p a = false) : l.countP p < l.countP q := by
  induction l with
  | nil => cases hmem
  | cons b l ih =>
      have himp' : ∀ c ∈ l, p c = true → q c = true :=
        fun c hc => himp c (List.mem_cons_of_mem b hc)
      rw [List.countP_cons, List.countP_cons]
      rcases List.mem_cons.mp hmem with rfl | hmem
      · have hle := List.countP_mono_left himp'
        rw [hq, hp]
        simp only [Bool.false_eq_true, if_false, if_true]
        omega
      · have hlt := ih himp' hmem
        have hb := himp b List.mem_cons_self
        cases hpb : p b with
        | false =>
            simp only [Bool.false_eq_true, if_false]
            omega
        | true =>
            rw [hb hpb]
            simp only [if_true]
            omega

namespace HNSWIndex

section Offer

variable {V D : Type} [LT D] [DecidableLT D] {rt : Runtime V D} {ef : ℕ}
  {result : HNSWSearchResult D} {beam : Beam rt}

theorem offer_of_room (hroom : rt.maxHeap.size beam.results < ef) :
    offer rt ef result beam = .ok { beam with
      candidates := rt.minHeap.push result beam.candidates
      results := rt.maxHeap.push result beam.results } := by
  have hsize : rt.maxHeap.size (rt.maxHeap.push result beam.results) =
      rt.maxHeap.size beam.results + 1 := PriorityQueue.size_push
  have hkeep : ¬ ef < rt.maxHeap.size
      (rt.maxHeap.push result beam.results) := by omega
  unfold offer
  rw [if_pos hroom]
  change (Except.ok _ : Except Failure (Beam rt)) = _
  rw [if_neg hkeep]

/-- A full result heap takes what is closer than its worst, and drops one. -/
theorem offer_of_full (hfull : ¬ rt.maxHeap.size beam.results < ef)
    {farthest : HNSWSearchResult D}
    (htop : rt.maxHeap.top beam.results = some farthest) :
    offer rt ef result beam =
      if result.dist < farthest.dist then .ok { beam with
        candidates := rt.minHeap.push result beam.candidates
        results := rt.maxHeap.pop (rt.maxHeap.push result beam.results) }
      else .ok beam := by
  have hsize : rt.maxHeap.size (rt.maxHeap.push result beam.results) =
      rt.maxHeap.size beam.results + 1 := PriorityQueue.size_push
  have hpopped : ef < rt.maxHeap.size
      (rt.maxHeap.push result beam.results) := by omega
  unfold offer worst
  rw [if_neg hfull, htop]
  change (if decide (result.dist < farthest.dist) = true then _ else _) = _
  rw [if_pos hpopped]
  by_cases hcloser : result.dist < farthest.dist
  · rw [if_pos (decide_eq_true hcloser), if_pos hcloser]
    rfl
  · rw [if_neg (by rwa [decide_eq_true_eq]), if_neg hcloser]
    rfl

theorem offer_of_empty (hfull : ¬ rt.maxHeap.size beam.results < ef)
    (htop : rt.maxHeap.top beam.results = none) :
    offer rt ef result beam = .error .accessViolation := by
  unfold offer worst
  rw [if_neg hfull, htop]
  rfl

end Offer

section Turn

variable {V D : Type} [LT D] [DecidableLT D] {rt : Runtime V D}
  {index : HNSWIndex V} {query : V} {n ef layer fuel : ℕ} {beam : Beam rt}
  {c : HNSWSearchResult D}

/-- The test that ends the loop: the result heap is full, and its worst is
closer than the candidate. -/
def stopsAt (ef : ℕ) (beam : Beam rt) (c : HNSWSearchResult D) :
    Except Failure Bool :=
  if ef ≤ rt.maxHeap.size beam.results then do
    let dist ← worst rt beam.results
    pure (decide (dist < c.dist))
  else pure false

theorem stopsAt_of_room (hroom : ¬ ef ≤ rt.maxHeap.size beam.results) :
    stopsAt ef beam c = .ok false := by
  unfold stopsAt
  rw [if_neg hroom]
  rfl

theorem stopsAt_of_full (hfull : ef ≤ rt.maxHeap.size beam.results)
    {farthest : HNSWSearchResult D}
    (htop : rt.maxHeap.top beam.results = some farthest) :
    stopsAt ef beam c = .ok (decide (farthest.dist < c.dist)) := by
  unfold stopsAt worst
  rw [if_pos hfull, htop]
  rfl

theorem stopsAt_of_empty (hfull : ef ≤ rt.maxHeap.size beam.results)
    (htop : rt.maxHeap.top beam.results = none) :
    stopsAt ef beam c = .error .accessViolation := by
  unfold stopsAt worst
  rw [if_pos hfull, htop]
  rfl

theorem searchLoop_of_empty (htop : rt.minHeap.top beam.candidates = none) :
    searchLoop rt index query n ef layer (fuel + 1) beam =
      .ok beam.results := by
  rw [searchLoop, htop]

theorem searchLoop_of_top (htop : rt.minHeap.top beam.candidates = some c) :
    searchLoop rt index query n ef layer (fuel + 1) beam =
      stopsAt ef beam c >>= fun stop =>
        if stop = true then .ok beam.results
        else
          expand rt index query n ef
            (index.neighbours.getNeighbours c.nodeId layer)
            { beam with candidates := rt.minHeap.pop beam.candidates } >>=
          searchLoop rt index query n ef layer fuel := by
  rw [searchLoop, htop]
  unfold stopsAt
  dsimp only
  split_ifs with hfull
  · cases worst rt beam.results with
    | error e => rfl
    | ok dist => rfl
  · rfl

end Turn

variable {V D : Type} [Preorder D] [DecidableLT D] {rt : Runtime V D}

structure Closed (index : HNSWIndex V) (layer : ℕ) (S : ℕ → Prop) : Prop where
  stored : ∀ i, S i → i < index.vectors.length
  links : ∀ i, S i → ∀ j ∈ index.neighbours.getNeighbours i layer, S j

/-- `d` is the distance of node `i` from the query. -/
def DistOf (rt : Runtime V D) (index : HNSWIndex V) (query : V) (i : ℕ)
    (d : D) : Prop :=
  ∃ vec, index.vectors[i]? = some vec ∧ d = rt.l2sq vec query

theorem getVector_eq_ok {index : HNSWIndex V} {i : ℕ} {vec : V} :
    index.getVector i = .ok vec ↔ index.vectors[i]? = some vec := by
  unfold getVector
  cases index.vectors[i]? with
  | none => simp
  | some v => simp

theorem Closed.getVector {index : HNSWIndex V} {layer : ℕ} {S : ℕ → Prop}
    (hclosed : Closed index layer S) {i : ℕ} (hi : S i) :
    ∃ vec, index.getVector i = .ok vec ∧ index.vectors[i]? = some vec := by
  have hlt := hclosed.stored i hi
  exact ⟨index.vectors[i], getVector_eq_ok.mpr (List.getElem?_eq_getElem hlt),
    List.getElem?_eq_getElem hlt⟩

section Greedy

variable {index : HNSWIndex V} {query : V} {layer : ℕ} {S : ℕ → Prop}

theorem greedyPass_ok (rt : Runtime V D) (hclosed : Closed index layer S) (nbrs : List ℕ)
    (hnbrs : ∀ j ∈ nbrs, S j) (current : ℕ) (d : D) (improved : Bool)
    (hcurrent : S current) (hdist : DistOf rt index query current d) :
    ∃ current' d' improved',
      greedyPass rt index query nbrs (current, d, improved) =
          .ok (current', d', improved') ∧
        S current' ∧ DistOf rt index query current' d' ∧
        (improved' = improved ∧ d' = d ∨ improved' = true ∧ d' < d) := by
  induction nbrs generalizing current d improved with
  | nil =>
      exact ⟨current, d, improved, rfl, hcurrent, hdist, Or.inl ⟨rfl, rfl⟩⟩
  | cons nbr nbrs ih =>
      have hnbr := hnbrs nbr List.mem_cons_self
      have hrest := fun j hj => hnbrs j (List.mem_cons_of_mem nbr hj)
      obtain ⟨vec, hget, hvec⟩ := hclosed.getVector hnbr
      have hpass : greedyPass rt index query (nbr :: nbrs)
          (current, d, improved) =
          if rt.l2sq vec query < d then
            greedyPass rt index query nbrs (nbr, rt.l2sq vec query, true)
          else greedyPass rt index query nbrs (current, d, improved) := by
        rw [greedyPass, hget]
        rfl
      rw [hpass]
      split_ifs with hlt
      · obtain ⟨c, d', b, hrun, hc, hd, hor⟩ :=
          ih hrest nbr (rt.l2sq vec query) true hnbr ⟨vec, hvec, rfl⟩
        refine ⟨c, d', b, hrun, hc, hd, Or.inr ?_⟩
        rcases hor with ⟨hb, rfl⟩ | ⟨hb, hless⟩
        · exact ⟨hb, hlt⟩
        · exact ⟨hb, hless.trans hlt⟩
      · exact ih hrest current d improved hcurrent hdist

/-- The nodes closer than `d`, which every improvement makes fewer. -/
def closer (rt : Runtime V D) (index : HNSWIndex V) (query : V) (d : D) : ℕ :=
  index.vectors.countP fun vec => decide (rt.l2sq vec query < d)

theorem closer_lt {i : ℕ} {d d' : D} (hlt : d' < d)
    (hdist : DistOf rt index query i d') :
    closer rt index query d' < closer rt index query d := by
  obtain ⟨vec, hvec, rfl⟩ := hdist
  apply countP_lt_countP (a := vec)
  · intro v _ hv
    simp only [decide_eq_true_eq] at hv ⊢
    exact hv.trans hlt
  · exact List.mem_of_getElem? hvec
  · simpa using hlt
  · simp

theorem greedyLoop_ok (rt : Runtime V D) (hclosed : Closed index layer S)
    (fuel current : ℕ) (d : D) (hcurrent : S current) (hdist : DistOf rt index query current d)
    (hfuel : closer rt index query d < fuel) :
    ∃ i, greedyLoop rt index query layer fuel current d = .ok i ∧ S i := by
  induction fuel generalizing current d with
  | zero => omega
  | succ fuel ih =>
      obtain ⟨c, d', improved, hrun, hc, hd, hor⟩ :=
        greedyPass_ok rt hclosed _ (hclosed.links current hcurrent)
          current d false hcurrent hdist
      have hloop : greedyLoop rt index query layer (fuel + 1) current d =
          if improved = true then greedyLoop rt index query layer fuel c d'
          else .ok c := by
        rw [greedyLoop, hrun]
        rfl
      rw [hloop]
      split_ifs with himproved
      · rcases hor with ⟨hb, _⟩ | ⟨_, hlt⟩
        · rw [hb] at himproved
          cases himproved
        · have hcloser := closer_lt hlt hd
          exact ih c d' hc hd (by omega)
      · exact ⟨c, rfl, hc⟩

theorem greedySearchLayer_ok (rt : Runtime V D) (query : V)
    (hclosed : Closed index layer S) {ep : ℕ} (hep : S ep) :
    ∃ i, greedySearchLayer rt index ep query layer = .ok i ∧ S i := by
  obtain ⟨vec, hget, hvec⟩ := hclosed.getVector hep
  have hfuel : closer rt index query (rt.l2sq vec query) <
      index.vectors.length + 1 :=
    Nat.lt_succ_of_le List.countP_le_length
  obtain ⟨i, hrun, hi⟩ := greedyLoop_ok rt hclosed _ ep
    (rt.l2sq vec query) hep ⟨vec, hvec, rfl⟩ hfuel
  refine ⟨i, ?_, hi⟩
  rw [greedySearchLayer, hget]
  exact hrun

end Greedy

section Beam

variable {index : HNSWIndex V} {query : V} {layer n ef : ℕ} {S : ℕ → Prop}

theorem getD_set_true {visited : List Bool} {i j : ℕ}
    (hi : i < visited.length) :
    (visited.set i true).getD j false = true ↔
      j = i ∨ visited.getD j false = true := by
  rw [List.getD_eq_getElem?_getD, List.getD_eq_getElem?_getD,
    List.getElem?_set]
  by_cases hij : i = j
  · subst hij
    simp [hi]
  · have hji : j ≠ i := fun h => hij h.symm
    simp [hij, hji]

abbrev Beam.Visited (beam : Beam rt) (i : ℕ) : Prop :=
  beam.visited.getD i false = true

/-- The ids in a heap or in a list of results. -/
def ids (results : List (HNSWSearchResult D)) : List ℕ :=
  results.map HNSWSearchResult.nodeId

structure BeamInv (index : HNSWIndex V) (query : V) (n ef : ℕ)
    (S : ℕ → Prop) (beam : Beam rt) : Prop where
  visited_length : beam.visited.length = n
  candidates : ∀ i ∈ ids (rt.minHeap.toList beam.candidates), S i
  results : ∀ r ∈ rt.maxHeap.toList beam.results, S r.nodeId ∧
    beam.Visited r.nodeId ∧ DistOf rt index query r.nodeId r.dist
  nodup : (ids (rt.maxHeap.toList beam.results)).Nodup
  size_pos : 0 < rt.maxHeap.size beam.results
  size_le : rt.maxHeap.size beam.results ≤ max ef 1

/-- The candidates to expand and the nodes not yet seen: every turn of the
loop takes one away. -/
def pending (n : ℕ) (beam : Beam rt) : ℕ :=
  rt.minHeap.size beam.candidates +
    (List.range n).countP fun i => !beam.visited.getD i false

/-- What `offer` does with a result: it joins both heaps or neither, and it or
another result may leave a full result heap. -/
structure Admitted (ef : ℕ) (result : HNSWSearchResult D)
    (beam beam' : Beam rt) : Prop where
  visited : beam'.visited = beam.visited
  candidates : beam'.candidates = beam.candidates ∨
    beam'.candidates = rt.minHeap.push result beam.candidates
  results : (rt.maxHeap.toList beam'.results).Subperm
    (result :: rt.maxHeap.toList beam.results)
  size_pos : 0 < rt.maxHeap.size beam'.results
  size_le : rt.maxHeap.size beam'.results ≤ max ef 1
  room : rt.maxHeap.size beam.results < ef →
    beam'.candidates = rt.minHeap.push result beam.candidates ∧
      (rt.maxHeap.toList beam'.results).Perm
        (result :: rt.maxHeap.toList beam.results)

theorem offer_ok (ef : ℕ) (result : HNSWSearchResult D) (beam : Beam rt)
    (hpos : 0 < rt.maxHeap.size beam.results)
    (hle : rt.maxHeap.size beam.results ≤ max ef 1) :
    ∃ beam', offer rt ef result beam = .ok beam' ∧
      Admitted ef result beam beam' := by
  have hpush := rt.maxHeap.toList_push result beam.results
  have hsize : rt.maxHeap.size (rt.maxHeap.push result beam.results) =
      rt.maxHeap.size beam.results + 1 := PriorityQueue.size_push
  by_cases hroom : rt.maxHeap.size beam.results < ef
  · exact ⟨_, offer_of_room hroom, {
      visited := rfl
      candidates := Or.inr rfl
      results := hpush.subperm
      size_pos := by dsimp only; omega
      size_le := by dsimp only; omega
      room := fun _ => ⟨rfl, hpush⟩ }⟩
  · obtain ⟨farthest, htop⟩ := PriorityQueue.exists_top hpos
    rw [offer_of_full hroom htop]
    split_ifs with hcloser
    · obtain ⟨last, hlast⟩ := PriorityQueue.exists_top
        (q := rt.maxHeap.push result beam.results) (by omega)
      have hpop := rt.maxHeap.toList_pop _ last hlast
      have hpopSize := PriorityQueue.size_pop hlast
      refine ⟨_, rfl, {
        visited := rfl
        candidates := Or.inr rfl
        results := ?_
        size_pos := by dsimp only; omega
        size_le := by dsimp only; omega
        room := fun hlt => absurd hlt hroom }⟩
      exact (List.sublist_cons_self last _).subperm.trans
        (hpop.symm.trans hpush).subperm
    · exact ⟨beam, rfl, {
        visited := rfl
        candidates := Or.inl rfl
        results := (List.sublist_cons_self result _).subperm
        size_pos := hpos
        size_le := hle
        room := fun hlt => absurd hlt hroom }⟩

theorem Admitted.visited_iff {beam beam' : Beam rt}
    {result : HNSWSearchResult D} {nbr : ℕ} (hnbr : nbr < beam.visited.length)
    (h : Admitted ef result
      { beam with visited := beam.visited.set nbr true } beam') (i : ℕ) :
    beam'.Visited i ↔ i = nbr ∨ beam.Visited i := by
  unfold Beam.Visited
  rw [h.visited]
  exact getD_set_true hnbr

theorem pending_set_lt (beam beam' : Beam rt) {nbr : ℕ} (hnbr : nbr < n)
    (hlength : beam.visited.length = n)
    (hvisited : ¬ beam.Visited nbr)
    (hset : beam'.visited = beam.visited.set nbr true) :
    ((List.range n).countP fun i => !beam'.visited.getD i false) <
      (List.range n).countP fun i => !beam.visited.getD i false := by
  unfold Beam.Visited at hvisited
  apply countP_lt_countP (a := nbr)
  · intro i _ hi
    rw [hset] at hi
    simp only [Bool.not_eq_true'] at hi ⊢
    by_contra hnot
    have hseen : (beam.visited.set nbr true).getD i false = true :=
      (getD_set_true (by omega)).mpr (Or.inr (by simpa using hnot))
    rw [hseen] at hi
    cases hi
  · exact List.mem_range.mpr hnbr
  · simpa using hvisited
  · have hseen : (beam.visited.set nbr true).getD nbr false = true :=
      (getD_set_true (by omega)).mpr (Or.inl rfl)
    rw [hset, hseen]
    rfl

theorem BeamInv.admitted (hn : ∀ i, S i → i < n) {nbr : ℕ} (hnbr : S nbr)
    {d : D} (hdist : DistOf rt index query nbr d) {beam beam' : Beam rt}
    (h : BeamInv index query n ef S beam) (hnew : ¬ beam.Visited nbr)
    (hadmitted : Admitted ef ⟨d, nbr⟩
      { beam with visited := beam.visited.set nbr true } beam') :
    BeamInv index query n ef S beam' ∧ pending n beam' ≤ pending n beam := by
  have hlt := hn nbr hnbr
  have hlength := h.visited_length
  have hseen := hadmitted.visited_iff (by omega)
  have hsub := hadmitted.results.subset
  refine ⟨{
    visited_length := ?_
    candidates := ?_
    results := ?_
    nodup := ?_
    size_pos := hadmitted.size_pos
    size_le := hadmitted.size_le }, ?_⟩
  · rw [hadmitted.visited]
    simpa using hlength
  · intro i hi
    rcases hadmitted.candidates with hcand | hcand
    · rw [hcand] at hi
      exact h.candidates i hi
    · rw [hcand] at hi
      have hperm := (rt.minHeap.toList_push ⟨d, nbr⟩ beam.candidates).map
        HNSWSearchResult.nodeId
      rcases List.mem_cons.mp (hperm.mem_iff.mp hi) with rfl | hi
      · exact hnbr
      · exact h.candidates i hi
  · intro r hr
    rcases List.mem_cons.mp (hsub hr) with rfl | hr
    · exact ⟨hnbr, (hseen nbr).mpr (Or.inl rfl), hdist⟩
    · obtain ⟨hS, hvisited, hd⟩ := h.results r hr
      exact ⟨hS, (hseen _).mpr (Or.inr hvisited), hd⟩
  · have hfresh : (ids (⟨d, nbr⟩ :: rt.maxHeap.toList beam.results)).Nodup := by
      refine List.nodup_cons.mpr ⟨?_, h.nodup⟩
      intro hmem
      obtain ⟨r, hr, hid⟩ := List.mem_map.mp hmem
      have hvisited := (h.results r hr).2.1
      rw [hid] at hvisited
      exact hnew hvisited
    obtain ⟨l, hperm, hsublist⟩ := hadmitted.results
    exact ((hperm.map _).nodup_iff).mp (hfresh.sublist (hsublist.map _))
  · have hcount := pending_set_lt beam beam' hlt hlength hnew hadmitted.visited
    have hsize : rt.minHeap.size beam'.candidates ≤
        rt.minHeap.size beam.candidates + 1 := by
      rcases hadmitted.candidates with hcand | hcand
      · rw [hcand]
        exact Nat.le_succ _
      · rw [hcand, PriorityQueue.size_push]
    unfold pending
    omega

/-- A beam that may hold every node has room for one it has not seen. -/
theorem BeamInv.size_lt (hn : ∀ i, S i → i < n) {nbr : ℕ} (hnbr : S nbr)
    {beam : Beam rt} (h : BeamInv index query n ef S beam)
    (hnew : ¬ beam.Visited nbr) (hfull : n ≤ ef) :
    rt.maxHeap.size beam.results < ef := by
  have hfresh : (nbr :: ids (rt.maxHeap.toList beam.results)).Nodup := by
    refine List.nodup_cons.mpr ⟨?_, h.nodup⟩
    intro hmem
    obtain ⟨r, hr, rfl⟩ := List.mem_map.mp hmem
    exact hnew (h.results r hr).2.1
  have hsub : nbr :: ids (rt.maxHeap.toList beam.results) ⊆ List.range n := by
    intro i hi
    rw [List.mem_range]
    rcases List.mem_cons.mp hi with rfl | hi
    · exact hn i hnbr
    · obtain ⟨r, hr, rfl⟩ := List.mem_map.mp hi
      exact hn _ (h.results r hr).1
  have hlength := (List.subperm_of_subset hfresh hsub).length_le
  simp only [List.length_cons, ids, List.length_map, List.length_range]
    at hlength
  unfold PriorityQueue.size
  omega

/-- What expanding a node does to the beam. -/
structure Expanded (n ef : ℕ) (nbrs : List ℕ) (beam beam' : Beam rt) :
    Prop where
  visited_mono : ∀ i, beam.Visited i → beam'.Visited i
  visited_nbrs : ∀ j ∈ nbrs, beam'.Visited j
  candidates_mono : ∀ i ∈ ids (rt.minHeap.toList beam.candidates),
    i ∈ ids (rt.minHeap.toList beam'.candidates)
  fresh : n ≤ ef → ∀ i, beam'.Visited i →
    beam.Visited i ∨ i ∈ ids (rt.minHeap.toList beam'.candidates)
  kept : n ≤ ef →
    (∀ i, beam.Visited i → i ∈ ids (rt.maxHeap.toList beam.results)) →
    ∀ i, beam'.Visited i → i ∈ ids (rt.maxHeap.toList beam'.results)

theorem Expanded.nil (beam : Beam rt) : Expanded n ef [] beam beam where
  visited_mono := fun _ hi => hi
  visited_nbrs := by simp
  candidates_mono := fun _ hi => hi
  fresh := fun _ _ hi => Or.inl hi
  kept := fun _ hall => hall

theorem Expanded.seen {nbr : ℕ} {nbrs : List ℕ} {beam beam' : Beam rt}
    (h : Expanded n ef nbrs beam beam') (hseen : beam.Visited nbr) :
    Expanded n ef (nbr :: nbrs) beam beam' :=
  { h with
    visited_nbrs := by
      intro j hj
      rcases List.mem_cons.mp hj with rfl | hj
      · exact h.visited_mono j hseen
      · exact h.visited_nbrs j hj }

theorem Admitted.candidates_mono {beam beam' : Beam rt}
    {result : HNSWSearchResult D} (h : Admitted ef result beam beam') {i : ℕ}
    (hi : i ∈ ids (rt.minHeap.toList beam.candidates)) :
    i ∈ ids (rt.minHeap.toList beam'.candidates) := by
  rcases h.candidates with hcand | hcand
  · rw [hcand]
    exact hi
  · rw [hcand]
    exact (((rt.minHeap.toList_push _ _).map _).mem_iff).mpr
      (List.mem_cons_of_mem _ hi)

theorem Expanded.unseen {nbr : ℕ} {nbrs : List ℕ} {d : D}
    {beam mid beam' : Beam rt} (h : Expanded n ef nbrs mid beam')
    (hnbr : nbr < beam.visited.length)
    (hroom : n ≤ ef → rt.maxHeap.size beam.results < ef)
    (hadmitted : Admitted ef ⟨d, nbr⟩
      { beam with visited := beam.visited.set nbr true } mid) :
    Expanded n ef (nbr :: nbrs) beam beam' where
  visited_mono := fun i hi =>
    h.visited_mono i ((hadmitted.visited_iff hnbr i).mpr (Or.inr hi))
  visited_nbrs := by
    intro j hj
    rcases List.mem_cons.mp hj with rfl | hj
    · exact h.visited_mono j
        ((hadmitted.visited_iff hnbr j).mpr (Or.inl rfl))
    · exact h.visited_nbrs j hj
  candidates_mono := fun i hi =>
    h.candidates_mono i (hadmitted.candidates_mono hi)
  fresh := by
    intro hfull i hi
    rcases h.fresh hfull i hi with hmid | hcand
    · rcases (hadmitted.visited_iff hnbr i).mp hmid with rfl | hbeam
      · refine Or.inr (h.candidates_mono i ?_)
        rw [(hadmitted.room (hroom hfull)).1]
        exact (((rt.minHeap.toList_push _ _).map _).mem_iff).mpr
          List.mem_cons_self
      · exact Or.inl hbeam
    · exact Or.inr hcand
  kept := by
    intro hfull hall
    apply h.kept hfull
    intro i hi
    have hperm := ((hadmitted.room (hroom hfull)).2.map
      HNSWSearchResult.nodeId).mem_iff (a := i)
    rw [ids, hperm]
    rcases (hadmitted.visited_iff hnbr i).mp hi with rfl | hbeam
    · exact List.mem_cons_self
    · exact List.mem_cons_of_mem _ (hall i hbeam)

theorem expand_ok (hclosed : Closed index layer S) (hn : ∀ i, S i → i < n)
    (nbrs : List ℕ) (hnbrs : ∀ j ∈ nbrs, S j) {beam : Beam rt}
    (h : BeamInv index query n ef S beam) :
    ∃ beam', expand rt index query n ef nbrs beam = .ok beam' ∧
      BeamInv index query n ef S beam' ∧ pending n beam' ≤ pending n beam ∧
        Expanded n ef nbrs beam beam' := by
  induction nbrs generalizing beam with
  | nil => exact ⟨beam, rfl, h, le_rfl, Expanded.nil beam⟩
  | cons nbr nbrs ih =>
      have hnbr := hnbrs nbr List.mem_cons_self
      have hrest := fun j hj => hnbrs j (List.mem_cons_of_mem nbr hj)
      have hlt := hn nbr hnbr
      by_cases hseen : beam.Visited nbr
      · obtain ⟨beam', hrun, hinv, hpending, hexpanded⟩ := ih hrest h
        refine ⟨beam', ?_, hinv, hpending, hexpanded.seen hseen⟩
        rw [expand, if_pos (Or.inr hseen)]
        exact hrun
      · obtain ⟨vec, hget, hvec⟩ := hclosed.getVector hnbr
        obtain ⟨mid, hoffer, hadmitted⟩ := offer_ok ef
          ⟨rt.l2sq vec query, nbr⟩
          { beam with visited := beam.visited.set nbr true }
          h.size_pos h.size_le
        obtain ⟨hmid, hless⟩ :=
          h.admitted hn hnbr ⟨vec, hvec, rfl⟩ hseen hadmitted
        obtain ⟨beam', hrun, hinv, hpending, hexpanded⟩ := ih hrest hmid
        refine ⟨beam', ?_, hinv, hpending.trans hless,
          hexpanded.unseen (by rwa [h.visited_length])
            (h.size_lt hn hnbr hseen) hadmitted⟩
        rw [expand, if_neg (not_or.mpr ⟨by omega, hseen⟩), hget]
        change (offer rt ef _ _ >>= _) = _
        rw [hoffer]
        exact hrun

/-- An edge of the graph at a layer. -/
def Link (index : HNSWIndex V) (layer i j : ℕ) : Prop :=
  j ∈ index.neighbours.getNeighbours i layer

theorem Closed.reachable (hclosed : Closed index layer S) {i j : ℕ}
    (hi : S i) (hreach : Relation.ReflTransGen (Link index layer) i j) :
    S j := by
  induction hreach with
  | refl => exact hi
  | tail _ hlink ih => exact hclosed.links _ ih _ hlink

/-- What a closed set reaches from one of its nodes is closed itself. -/
theorem Closed.component (hclosed : Closed index layer S) {ep : ℕ}
    (hep : S ep) :
    Closed index layer (Relation.ReflTransGen (Link index layer) ep) where
  stored := fun _ hi => hclosed.stored _ (hclosed.reachable hep hi)
  links := fun _ hi _ hj => hi.tail hj

/-- Seen nodes that are not candidates have been expanded, and every seen node
is a result. -/
structure Complete (index : HNSWIndex V) (layer : ℕ) (beam : Beam rt) :
    Prop where
  frontier : ∀ i, beam.Visited i →
    i ∈ ids (rt.minHeap.toList beam.candidates) ∨
      ∀ j, Link index layer i j → beam.Visited j
  kept : ∀ i, beam.Visited i → i ∈ ids (rt.maxHeap.toList beam.results)

theorem BeamInv.pop {beam : Beam rt} {c : HNSWSearchResult D}
    (h : BeamInv index query n ef S beam)
    (htop : rt.minHeap.top beam.candidates = some c) :
    BeamInv index query n ef S
        { beam with candidates := rt.minHeap.pop beam.candidates } ∧
      S c.nodeId ∧
      pending n { beam with candidates := rt.minHeap.pop beam.candidates } <
        pending n beam := by
  have hperm := (rt.minHeap.toList_pop _ c htop).map HNSWSearchResult.nodeId
  refine ⟨{ h with candidates := ?_ }, ?_, ?_⟩
  · intro i hi
    exact h.candidates i (hperm.mem_iff.mpr (List.mem_cons_of_mem _ hi))
  · exact h.candidates _ (hperm.mem_iff.mpr List.mem_cons_self)
  · have hsize := PriorityQueue.size_pop htop
    unfold pending
    dsimp only
    omega

theorem BeamInv.mem_of_full (hn : ∀ i, S i → i < n) {beam : Beam rt}
    (h : BeamInv index query n ef S beam)
    (hfull : n ≤ rt.maxHeap.size beam.results) {i : ℕ} (hi : i < n) :
    i ∈ ids (rt.maxHeap.toList beam.results) := by
  have hsub : ids (rt.maxHeap.toList beam.results) ⊆ List.range n := by
    intro j hj
    obtain ⟨r, hr, rfl⟩ := List.mem_map.mp hj
    exact List.mem_range.mpr (hn _ (h.results r hr).1)
  have hperm := (List.subperm_of_subset h.nodup hsub).perm_of_length_le
    (by simpa [ids, PriorityQueue.size] using hfull)
  exact hperm.mem_iff.mpr (List.mem_range.mpr hi)

theorem Complete.expanded {beam beam' : Beam rt} {c : HNSWSearchResult D}
    (h : Complete index layer beam) (hfull : n ≤ ef)
    (htop : rt.minHeap.top beam.candidates = some c)
    (hexpanded : Expanded n ef (index.neighbours.getNeighbours c.nodeId layer)
      { beam with candidates := rt.minHeap.pop beam.candidates } beam') :
    Complete index layer beam' where
  frontier := by
    intro i hi
    rcases hexpanded.fresh hfull i hi with hold | hcand
    · have hperm := (rt.minHeap.toList_pop _ c htop).map
        HNSWSearchResult.nodeId
      rcases h.frontier i hold with hi | hlinks
      · rcases List.mem_cons.mp (hperm.mem_iff.mp hi) with rfl | hi
        · exact Or.inr hexpanded.visited_nbrs
        · exact Or.inl (hexpanded.candidates_mono i hi)
      · exact Or.inr fun j hj => hexpanded.visited_mono j (hlinks j hj)
    · exact Or.inl hcand
  kept := hexpanded.kept hfull h.kept

/-- With no candidate left the seen nodes are closed. -/
theorem Complete.reached_of_empty {beam : Beam rt}
    (h : Complete index layer beam)
    (hempty : rt.minHeap.toList beam.candidates = []) {i j : ℕ}
    (hj : beam.Visited j)
    (hreach : Relation.ReflTransGen (Link index layer) j i) :
    i ∈ ids (rt.maxHeap.toList beam.results) := by
  apply h.kept
  induction hreach with
  | refl => exact hj
  | tail _ hlink hseen =>
      rcases h.frontier _ hseen with hcand | hlinks
      · rw [hempty] at hcand
        cases hcand
      · exact hlinks _ hlink

theorem Complete.reached_of_full {beam : Beam rt}
    (hcomplete : Complete index layer beam)
    (hclosed : Closed index layer S) (hn : ∀ i, S i → i < n)
    (h : BeamInv index query n ef S beam)
    (hfull : n ≤ rt.maxHeap.size beam.results) {i j : ℕ}
    (hj : beam.Visited j)
    (hreach : Relation.ReflTransGen (Link index layer) j i) :
    i ∈ ids (rt.maxHeap.toList beam.results) := by
  obtain ⟨r, hr, hid⟩ := List.mem_map.mp (hcomplete.kept j hj)
  have hS : S j := hid ▸ (h.results r hr).1
  exact h.mem_of_full hn hfull (hn i (hclosed.reachable hS hreach))

/-- One turn of the loop.  It stops early only with a full result heap. -/
theorem searchLoop_some (index : HNSWIndex V) (query : V)
    (n layer fuel : ℕ) {beam : Beam rt} {c : HNSWSearchResult D}
    (htop : rt.minHeap.top beam.candidates = some c)
    (hpos : 0 < rt.maxHeap.size beam.results) :
    ∃ stop : Bool, (stop = true → ef ≤ rt.maxHeap.size beam.results) ∧
      searchLoop rt index query n ef layer (fuel + 1) beam =
        if stop = true then .ok beam.results
        else
          expand rt index query n ef
            (index.neighbours.getNeighbours c.nodeId layer)
            { beam with candidates := rt.minHeap.pop beam.candidates } >>=
          searchLoop rt index query n ef layer fuel := by
  rw [searchLoop_of_top htop]
  by_cases hef : ef ≤ rt.maxHeap.size beam.results
  · obtain ⟨farthest, hfarthest⟩ := PriorityQueue.exists_top hpos
    refine ⟨decide (farthest.dist < c.dist), fun _ => hef, ?_⟩
    rw [stopsAt_of_full hef hfarthest, except_bind_ok]
  · refine ⟨false, fun hstop => absurd hstop Bool.false_ne_true, ?_⟩
    rw [stopsAt_of_room hef, except_bind_ok]

theorem searchLoop_ok (hclosed : Closed index layer S)
    (hn : ∀ i, S i → i < n) (fuel : ℕ) (beam : Beam rt)
    (h : BeamInv index query n ef S beam) (hfuel : pending n beam < fuel) :
    ∃ last, searchLoop rt index query n ef layer fuel beam =
        .ok last.results ∧
      BeamInv index query n ef S last ∧
      (n ≤ ef → Complete index layer beam → ∀ j, beam.Visited j →
        ∀ i, Relation.ReflTransGen (Link index layer) j i →
          i ∈ ids (rt.maxHeap.toList last.results)) := by
  induction fuel generalizing beam with
  | zero => omega
  | succ fuel ih =>
      cases htop : rt.minHeap.top beam.candidates with
      | none =>
          refine ⟨beam, searchLoop_of_empty htop, h, ?_⟩
          intro _ hcomplete j hj i hreach
          exact hcomplete.reached_of_empty ((rt.minHeap.top_eq_none _).mp htop)
            hj hreach
      | some c =>
          obtain ⟨hpop, hc, hless⟩ := h.pop htop
          obtain ⟨next, hrun, hnext, hpending, hexpanded⟩ :=
            expand_ok hclosed hn _ (hclosed.links _ hc) hpop
          obtain ⟨last, hlast, hinv, hfound⟩ := ih next hnext (by omega)
          obtain ⟨stop, hef, hloop⟩ :=
            searchLoop_some index query n layer fuel htop h.size_pos
          rw [hloop]
          split_ifs with hstop
          · refine ⟨beam, rfl, h, ?_⟩
            intro hfull hcomplete j hj i hreach
            exact hcomplete.reached_of_full hclosed hn h
              (hfull.trans (hef hstop)) hj hreach
          · rw [hrun]
            refine ⟨last, hlast, hinv, ?_⟩
            intro hfull hcomplete j hj i hreach
            exact hfound hfull (hcomplete.expanded hfull htop hexpanded) j
              (hexpanded.visited_mono j hj) i hreach

/-- What a beam search returns. -/
structure Found (rt : Runtime V D) (index : HNSWIndex V) (query : V)
    (ef : Int32) (S : ℕ → Prop) (out : List (HNSWSearchResult D)) : Prop where
  mem : ∀ r ∈ out, S r.nodeId ∧ DistOf rt index query r.nodeId r.dist
  nodup : (ids out).Nodup
  ne_nil : out ≠ []
  length_le : out.length ≤ max (toSizeT ef) 1
  sorted : StrictWeak (fun a b : HNSWSearchResult D =>
      decide (a.dist < b.dist)) →
    out.Pairwise fun a b => decide (b.dist < a.dist) = false

/-- The beam a search starts with: its entry point is seen, a candidate and a
result. -/
def Beam.start (rt : Runtime V D) (n ep : ℕ) (d : D) : Beam rt where
  visited := (List.replicate n false).set ep true
  candidates := rt.minHeap.push ⟨d, ep⟩ rt.minHeap.empty
  results := rt.maxHeap.push ⟨d, ep⟩ rt.maxHeap.empty

theorem getD_replicate_false (n i : ℕ) :
    (List.replicate n false).getD i false = false := by
  rw [List.getD_eq_getElem?_getD, List.getElem?_replicate]
  split_ifs
  · rfl
  · rfl

section Start

variable {ep : ℕ} {d : D}

theorem Beam.start_visited (hep : ep < n) (i : ℕ) :
    (Beam.start rt n ep d).Visited i ↔ i = ep := by
  have hset : (Beam.start rt n ep d).Visited i ↔ i = ep ∨
      (List.replicate n false).getD i false = true :=
    getD_set_true (by simpa using hep)
  rw [getD_replicate_false] at hset
  exact hset.trans (or_iff_left Bool.false_ne_true)

theorem Beam.start_candidates :
    (rt.minHeap.toList (Beam.start rt n ep d).candidates).Perm [⟨d, ep⟩] := by
  have hpush := rt.minHeap.toList_push ⟨d, ep⟩ rt.minHeap.empty
  rwa [rt.minHeap.toList_empty] at hpush

theorem Beam.start_results :
    (rt.maxHeap.toList (Beam.start rt n ep d).results).Perm [⟨d, ep⟩] := by
  have hpush := rt.maxHeap.toList_push ⟨d, ep⟩ rt.maxHeap.empty
  rwa [rt.maxHeap.toList_empty] at hpush

theorem Beam.start_invariant (hlt : ep < n) (hep : S ep)
    (hdist : DistOf rt index query ep d) :
    BeamInv index query n ef S (Beam.start rt n ep d) where
  visited_length := by simp [Beam.start]
  candidates := by
    intro i hi
    have hi : i = ep := by
      simpa [ids] using
        (Beam.start_candidates.map HNSWSearchResult.nodeId).mem_iff.mp hi
    rwa [hi]
  results := by
    intro r hr
    have hr : r = ⟨d, ep⟩ := by simpa using Beam.start_results.mem_iff.mp hr
    rw [hr]
    exact ⟨hep, (Beam.start_visited hlt ep).mpr rfl, hdist⟩
  nodup := ((Beam.start_results.map HNSWSearchResult.nodeId).nodup_iff).mpr
    (by simp)
  size_pos := by simp [Beam.start]
  size_le := by simp [Beam.start]

theorem Beam.start_complete (hlt : ep < n) :
    Complete index layer (Beam.start rt n ep d) where
  frontier := by
    intro i hi
    rw [(Beam.start_visited hlt i).mp hi]
    exact Or.inl (((Beam.start_candidates.map _).mem_iff).mpr
      List.mem_cons_self)
  kept := by
    intro i hi
    rw [(Beam.start_visited hlt i).mp hi]
    exact ((Beam.start_results.map _).mem_iff).mpr List.mem_cons_self

/-- One turn for every node is enough fuel. -/
theorem Beam.pending_start_lt (hlt : ep < n) :
    pending n (Beam.start rt n ep d) < n + 1 := by
  have hcount := pending_set_lt
    { Beam.start rt n ep d with visited := List.replicate n false }
    (Beam.start rt n ep d) hlt (by simp)
    (by rw [Beam.Visited, getD_replicate_false]; exact Bool.false_ne_true) rfl
  have hle := List.countP_le_length (p := fun i =>
    !(List.replicate n false).getD i false) (l := List.range n)
  rw [List.length_range] at hle
  have hone : rt.minHeap.size (Beam.start rt n ep d).candidates = 1 := by
    simp [Beam.start]
  unfold pending
  rw [hone]
  dsimp only at hcount
  omega

end Start

/-- The results are drained and sorted. -/
theorem BeamInv.found {ef : Int32} {beam : Beam rt}
    (h : BeamInv index query n (toSizeT ef) S beam)
    {out : List (HNSWSearchResult D)}
    (hout : rt.sorter.sort (fun a b => decide (a.dist < b.dist))
      (rt.maxHeap.drain beam.results) = out) :
    Found rt index query ef S out ∧
      out.Perm (rt.maxHeap.toList beam.results) := by
  have hperm : out.Perm (rt.maxHeap.toList beam.results) := by
    rw [← hout]
    exact (rt.sorter.perm _ _).trans PriorityQueue.drain_perm
  refine ⟨{
    mem := ?_
    nodup := ((hperm.map HNSWSearchResult.nodeId).nodup_iff).mpr h.nodup
    ne_nil := ?_
    length_le := ?_
    sorted := ?_ }, hperm⟩
  · intro r hr
    have hr := h.results r (hperm.mem_iff.mp hr)
    exact ⟨hr.1, hr.2.2⟩
  · intro hnil
    have hlength := hperm.length_eq
    have hpos := h.size_pos
    rw [hnil] at hlength
    unfold PriorityQueue.size at hpos
    rw [← hlength] at hpos
    cases hpos
  · rw [hperm.length_eq]
    exact h.size_le
  · intro hless
    rw [← hout]
    exact rt.sorter.sorted _ _ hless

theorem searchLayer_ok (rt : Runtime V D) (hclosed : Closed index layer S)
    (hn : ∀ i, S i → i < index.nextId) {ep : ℕ} (hep : S ep) (query : V)
    (ef : Int32) :
    ∃ out, searchLayer rt index ep query ef layer = .ok out ∧
      Found rt index query ef S out ∧
      (index.nextId ≤ toSizeT ef →
        ∀ i, Relation.ReflTransGen (Link index layer) ep i → i ∈ ids out) := by
  obtain ⟨vec, hget, hvec⟩ := hclosed.getVector hep
  have hlt := hn ep hep
  obtain ⟨last, hrun, hlast, hreached⟩ := searchLoop_ok hclosed hn _
    (Beam.start rt index.nextId ep (rt.l2sq vec query))
    (Beam.start_invariant hlt hep ⟨vec, hvec, rfl⟩) (Beam.pending_start_lt hlt)
  obtain ⟨hfound, hperm⟩ := hlast.found rfl
  refine ⟨_, ?_, hfound, ?_⟩
  · have hbound : ¬ index.nextId ≤ ep := by omega
    rw [searchLayer, hget]
    change (if index.nextId ≤ ep then _ else _) = _
    rw [if_neg hbound]
    change (searchLoop rt index query index.nextId (toSizeT ef) layer
      (index.nextId + 1) (Beam.start rt index.nextId ep _) >>= _) = _
    rw [hrun]
    rfl
  · intro hfull i hreach
    exact ((hperm.map HNSWSearchResult.nodeId).mem_iff).mpr
      (hreached hfull (Beam.start_complete hlt) ep
        ((Beam.start_visited hlt ep).mpr rfl) i hreach)

end Beam

end HNSWIndex

end VecDB
