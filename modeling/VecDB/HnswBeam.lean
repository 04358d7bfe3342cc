import VecDB.BestOf
import VecDB.HnswRecall
import Mathlib.Data.Set.Card
import Mathlib.Tactic

/-!
# How a beam search fills its beam

The result heap holds the nearest of the nodes seen so far.  A node that was
seen is a candidate, has had its links followed, or is beaten by a full heap.
A search that ends with room in its beam has therefore reached everything.
-/

namespace VecDB
namespace HNSWIndex

variable {V D : Type} [LinearOrder D] {rt : Runtime V D}
  {index : HNSWIndex V} {query : V} {n ef layer : ℕ}

/-- What `offer` does with a result. -/
inductive Offered (ef : ℕ) (result : HNSWSearchResult D) (beam : Beam rt) :
    Beam rt → Prop
  | skip (hbeats : Beats ef HNSWSearchResult.dist
      (rt.maxHeap.toList beam.results) result.dist) :
      Offered ef result beam beam
  | add (results : rt.maxHeap.Queue)
      (hroom : rt.maxHeap.size beam.results < ef)
      (hperm : (rt.maxHeap.toList results).Perm
        (result :: rt.maxHeap.toList beam.results)) :
      Offered ef result beam { beam with
        candidates := rt.minHeap.push result beam.candidates
        results := results }
  | replace (results : rt.maxHeap.Queue)
      (hfull : ef ≤ rt.maxHeap.size beam.results)
      (hreplaced : Replaced HNSWSearchResult.dist result
        (rt.maxHeap.toList beam.results) (rt.maxHeap.toList results)) :
      Offered ef result beam { beam with
        candidates := rt.minHeap.push result beam.candidates
        results := results }

theorem le_top {results : rt.maxHeap.Queue} {worst : HNSWSearchResult D}
    (htop : rt.maxHeap.top results = some worst) :
    ∀ r ∈ rt.maxHeap.toList results, r.dist ≤ worst.dist := by
  intro r hr
  have hmax := rt.maxHeap.top_max results worst
    (StrictWeak.ofKey fun r : HNSWSearchResult D => r.dist) htop r hr
  simpa using hmax

theorem top_mem {results : rt.maxHeap.Queue} {worst : HNSWSearchResult D}
    (htop : rt.maxHeap.top results = some worst) :
    worst ∈ rt.maxHeap.toList results :=
  (rt.maxHeap.toList_pop results worst htop).mem_iff.mpr List.mem_cons_self

theorem beats_iff_top {results : rt.maxHeap.Queue}
    {worst : HNSWSearchResult D} {d : D}
    (htop : rt.maxHeap.top results = some worst) :
    Beats ef HNSWSearchResult.dist (rt.maxHeap.toList results) d ↔
      ef ≤ rt.maxHeap.size results ∧ worst.dist ≤ d := by
  constructor
  · exact fun hbeats => ⟨hbeats.1, hbeats.2 worst (top_mem htop)⟩
  · rintro ⟨hfull, hle⟩
    exact ⟨hfull, fun r hr => (le_top htop r hr).trans hle⟩

theorem offer_eq_ok {result : HNSWSearchResult D} {beam beam' : Beam rt}
    (h : offer rt ef result beam = .ok beam') :
    Offered ef result beam beam' := by
  have hpush := rt.maxHeap.toList_push result beam.results
  have hsize : rt.maxHeap.size (rt.maxHeap.push result beam.results) =
      rt.maxHeap.size beam.results + 1 := PriorityQueue.size_push
  by_cases hroom : rt.maxHeap.size beam.results < ef
  · rw [offer_of_room hroom] at h
    cases h
    exact Offered.add _ hroom hpush
  · cases htop : rt.maxHeap.top beam.results with
    | none =>
        rw [offer_of_empty hroom htop] at h
        cases h
    | some farthest =>
        obtain ⟨last, hlast⟩ := PriorityQueue.exists_top
          (q := rt.maxHeap.push result beam.results) (by omega)
        rw [offer_of_full hroom htop] at h
        split_ifs at h with hcloser
        · cases h
          refine Offered.replace _ (by omega)
            ⟨⟨farthest, top_mem htop, hcloser⟩, last, ?_, ?_⟩
          · exact (rt.maxHeap.toList_pop _ last hlast).symm.trans hpush
          · exact fun r hr => le_top hlast r (hpush.mem_iff.mpr hr)
        · cases h
          exact Offered.skip
            ((beats_iff_top htop).mpr ⟨by omega, not_lt.mp hcloser⟩)

section Offered

variable {result : HNSWSearchResult D} {beam beam' : Beam rt}

theorem Offered.visited (h : Offered ef result beam beam') :
    beam'.visited = beam.visited := by
  cases h with
  | skip _ => rfl
  | add _ _ _ => rfl
  | replace _ _ _ => rfl

theorem Offered.beats (h : Offered ef result beam beam') {d : D}
    (hbeats : Beats ef HNSWSearchResult.dist
      (rt.maxHeap.toList beam.results) d) :
    Beats ef HNSWSearchResult.dist (rt.maxHeap.toList beam'.results) d := by
  cases h with
  | skip _ => exact hbeats
  | add _ hroom _ => exact absurd hbeats (Beats.of_room hroom)
  | replace _ _ hreplaced => exact hreplaced.beats hbeats

theorem Offered.mem_candidates (h : Offered ef result beam beam')
    {r : HNSWSearchResult D}
    (hr : r ∈ rt.minHeap.toList beam'.candidates) :
    r = result ∨ r ∈ rt.minHeap.toList beam.candidates := by
  have hpush := (rt.minHeap.toList_push result beam.candidates).mem_iff (a := r)
  cases h with
  | skip _ => exact Or.inr hr
  | add _ _ _ => exact List.mem_cons.mp (hpush.mp hr)
  | replace _ _ _ => exact List.mem_cons.mp (hpush.mp hr)

theorem Offered.candidates_mono (h : Offered ef result beam beam')
    {r : HNSWSearchResult D}
    (hr : r ∈ rt.minHeap.toList beam.candidates) :
    r ∈ rt.minHeap.toList beam'.candidates := by
  have hpush := (rt.minHeap.toList_push result beam.candidates).mem_iff (a := r)
  cases h with
  | skip _ => exact hr
  | add _ _ _ => exact hpush.mpr (List.mem_cons_of_mem _ hr)
  | replace _ _ _ => exact hpush.mpr (List.mem_cons_of_mem _ hr)

/-- The result is a candidate unless the heap beats it. -/
theorem Offered.candidate_or_beats (h : Offered ef result beam beam') :
    result ∈ rt.minHeap.toList beam'.candidates ∨
      Beats ef HNSWSearchResult.dist (rt.maxHeap.toList beam'.results)
        result.dist := by
  have hpush := (rt.minHeap.toList_push result beam.candidates).mem_iff
    (a := result)
  cases h with
  | skip hbeats => exact Or.inr hbeats
  | add _ _ _ => exact Or.inl (hpush.mpr List.mem_cons_self)
  | replace _ _ _ => exact Or.inl (hpush.mpr List.mem_cons_self)

theorem Offered.best (h : Offered ef result beam beam')
    {seen : HNSWSearchResult D → Prop} (hnew : ¬ seen result)
    (hbest : BestOf ef HNSWSearchResult.dist seen
      (rt.maxHeap.toList beam.results)) :
    BestOf ef HNSWSearchResult.dist (fun r => r = result ∨ seen r)
      (rt.maxHeap.toList beam'.results) := by
  cases h with
  | skip hbeats => exact hbest.skip hbeats
  | add _ hroom hperm => exact hbest.add hroom hnew hperm
  | replace _ hfull hreplaced => exact hbest.replace hfull hnew hreplaced

end Offered

/-! ## What the loop keeps -/

/-- A visited node with its distance. -/
def Seen (index : HNSWIndex V) (query : V) (beam : Beam rt)
    (r : HNSWSearchResult D) : Prop :=
  beam.Visited r.nodeId ∧ DistOf rt index query r.nodeId r.dist

/-- The links `todo` are those that an expansion has still to look at. -/
structure BeamBest (index : HNSWIndex V) (query : V) (n ef layer : ℕ)
    (todo : ℕ → ℕ → Prop) (beam : Beam rt) : Prop where
  visited_length : beam.visited.length = n
  best : BestOf ef HNSWSearchResult.dist (Seen index query beam)
    (rt.maxHeap.toList beam.results)
  candidates : ∀ r ∈ rt.minHeap.toList beam.candidates,
    Seen index query beam r
  frontier : ∀ r, Seen index query beam r →
    r ∈ rt.minHeap.toList beam.candidates ∨
      Beats ef HNSWSearchResult.dist (rt.maxHeap.toList beam.results) r.dist ∨
      ∀ j, Link index layer r.nodeId j → beam.Visited j ∨ todo r.nodeId j

theorem DistOf.unique {i : ℕ} {d d' : D} (h : DistOf rt index query i d)
    (h' : DistOf rt index query i d') : d = d' := by
  obtain ⟨vec, hvec, rfl⟩ := h
  obtain ⟨vec', hvec', rfl⟩ := h'
  rw [hvec, Option.some.injEq] at hvec'
  rw [hvec']

theorem visited_lt {beam : Beam rt} {i : ℕ} (hi : beam.Visited i) :
    i < beam.visited.length := by
  by_contra hge
  rw [Beam.Visited, List.getD_eq_default _ _ (not_lt.mp hge)] at hi
  cases hi

section Visit

variable {beam beam' : Beam rt} {nbr : ℕ} {d : D}

theorem seen_visit (hnbr : nbr < beam.visited.length)
    (hdist : DistOf rt index query nbr d)
    (hvisited : beam'.visited = beam.visited.set nbr true)
    (r : HNSWSearchResult D) :
    Seen index query beam' r ↔ r = ⟨d, nbr⟩ ∨ Seen index query beam r := by
  have hiff : beam'.Visited r.nodeId ↔ r.nodeId = nbr ∨
      beam.Visited r.nodeId := by
    rw [Beam.Visited, hvisited]
    exact getD_set_true hnbr
  unfold Seen
  rw [hiff]
  constructor
  · rintro ⟨hid | hold, hr⟩
    · obtain ⟨dist, id⟩ := r
      dsimp only at hid hr
      subst hid
      exact Or.inl (by rw [hr.unique hdist])
    · exact Or.inr ⟨hold, hr⟩
  · rintro (rfl | ⟨hold, hr⟩)
    · exact ⟨Or.inl rfl, hdist⟩
    · exact ⟨Or.inr hold, hr⟩

/-- A neighbour that was not seen is marked and offered. -/
theorem BeamBest.offered {todo todo' : ℕ → ℕ → Prop}
    (h : BeamBest index query n ef layer todo beam) (hnbr : nbr < n)
    (hnew : ¬ beam.Visited nbr) (hdist : DistOf rt index query nbr d)
    (htodo : ∀ i j, todo i j → j = nbr ∨ todo' i j)
    (hoffered : Offered ef ⟨d, nbr⟩
      { beam with visited := beam.visited.set nbr true } beam') :
    BeamBest index query n ef layer todo' beam' := by
  have hlength := h.visited_length
  have hlt : nbr < beam.visited.length := by omega
  have hseen := seen_visit hlt hdist hoffered.visited
  have hvisited : ∀ j, beam'.Visited j ↔ j = nbr ∨ beam.Visited j := by
    intro j
    rw [Beam.Visited, hoffered.visited]
    exact getD_set_true hlt
  refine {
    visited_length := by rw [hoffered.visited]; simpa using hlength
    best := ?_
    candidates := ?_
    frontier := ?_ }
  · have hbest := hoffered.best (fun hold => hnew hold.1) h.best
    exact hbest.congr hseen
  · intro r hr
    rw [hseen]
    exact (hoffered.mem_candidates hr).imp_right (h.candidates r)
  · intro r hr
    rcases (hseen r).mp hr with rfl | hold
    · exact hoffered.candidate_or_beats.imp_right Or.inl
    · rcases h.frontier r hold with hcand | hbeats | hlinks
      · exact Or.inl (hoffered.candidates_mono hcand)
      · exact Or.inr (Or.inl (hoffered.beats hbeats))
      · refine Or.inr (Or.inr fun j hj => ?_)
        rw [hvisited]
        rcases hlinks j hj with hj | hj
        · exact Or.inl (Or.inr hj)
        · rcases htodo _ _ hj with rfl | hj
          · exact Or.inl (Or.inl rfl)
          · exact Or.inr hj

/-- A neighbour that was seen is done. -/
theorem BeamBest.mono {todo todo' : ℕ → ℕ → Prop}
    (h : BeamBest index query n ef layer todo beam)
    (htodo : ∀ i j, todo i j → beam.Visited j ∨ todo' i j) :
    BeamBest index query n ef layer todo' beam :=
  { h with
    frontier := by
      intro r hr
      rcases h.frontier r hr with hcand | hbeats | hlinks
      · exact Or.inl hcand
      · exact Or.inr (Or.inl hbeats)
      · refine Or.inr (Or.inr fun j hj => ?_)
        rcases hlinks j hj with hj | hj
        · exact Or.inl hj
        · exact htodo _ _ hj }

end Visit

theorem expand_best {c : ℕ} {nbrs : List ℕ} (hnbrs : ∀ j ∈ nbrs, j < n)
    {beam beam' : Beam rt}
    (h : BeamBest index query n ef layer (fun i j => i = c ∧ j ∈ nbrs) beam)
    (hrun : expand rt index query n ef nbrs beam = .ok beam') :
    BeamBest index query n ef layer (fun _ _ => False) beam' ∧
      ∀ i, beam.Visited i → beam'.Visited i := by
  induction nbrs generalizing beam with
  | nil =>
      cases hrun
      exact ⟨h.mono fun _ _ hj => absurd hj.2 (by simp), fun _ hi => hi⟩
  | cons nbr nbrs ih =>
      have hnbr := hnbrs nbr List.mem_cons_self
      have hrest := fun j hj => hnbrs j (List.mem_cons_of_mem nbr hj)
      rw [expand] at hrun
      split_ifs at hrun with hskip
      · have hseen := hskip.resolve_left (by omega)
        refine ih hrest (h.mono ?_) hrun
        rintro i j ⟨rfl, hj⟩
        rcases List.mem_cons.mp hj with rfl | hj
        · exact Or.inl hseen
        · exact Or.inr ⟨rfl, hj⟩
      · have hnew := (not_or.mp hskip).2
        obtain ⟨vec, hget, hrun⟩ := except_bind_eq_ok.mp hrun
        obtain ⟨mid, hoffer, hrun⟩ := except_bind_eq_ok.mp hrun
        have hoffered := offer_eq_ok hoffer
        have htodo : ∀ i j, i = c ∧ j ∈ nbr :: nbrs →
            j = nbr ∨ i = c ∧ j ∈ nbrs := by
          rintro i j ⟨hi, hj⟩
          exact (List.mem_cons.mp hj).imp_right fun hj => ⟨hi, hj⟩
        have hmid := h.offered hnbr hnew ⟨vec, getVector_eq_ok.mp hget, rfl⟩
          htodo hoffered
        obtain ⟨hlast, hmono⟩ := ih hrest hmid hrun
        refine ⟨hlast, fun i hi => hmono i ?_⟩
        rw [Beam.Visited, hoffered.visited]
        exact (getD_set_true (by rwa [h.visited_length])).mpr (Or.inr hi)

/-- The result heap is full and lies below `d`. -/
def Stops (ef : ℕ) (results : rt.maxHeap.Queue) (d : D) : Prop :=
  ef ≤ rt.maxHeap.size results ∧ ∀ r ∈ rt.maxHeap.toList results, r.dist < d

/-- The turns of the loop that return. -/
inductive Turn (index : HNSWIndex V) (query : V) (n ef layer fuel : ℕ)
    (beam : Beam rt) (results : rt.maxHeap.Queue) : Prop
  | done (hempty : rt.minHeap.toList beam.candidates = [])
      (hresults : beam.results = results)
  | stop (c : HNSWSearchResult D)
      (htop : rt.minHeap.top beam.candidates = some c)
      (hstops : Stops ef beam.results c.dist) (hresults : beam.results = results)
  | next (c : HNSWSearchResult D) (next : Beam rt)
      (htop : rt.minHeap.top beam.candidates = some c)
      (hgoes : ¬ Stops ef beam.results c.dist)
      (hexpand : expand rt index query n ef
        (index.neighbours.getNeighbours c.nodeId layer)
        { beam with candidates := rt.minHeap.pop beam.candidates } = .ok next)
      (hrest : searchLoop rt index query n ef layer fuel next = .ok results)

theorem stopsAt_eq_ok {beam : Beam rt} {c : HNSWSearchResult D} {stop : Bool}
    (h : stopsAt ef beam c = .ok stop) :
    stop = true ↔ Stops ef beam.results c.dist := by
  by_cases hfull : ef ≤ rt.maxHeap.size beam.results
  · cases htop : rt.maxHeap.top beam.results with
    | none =>
        rw [stopsAt_of_empty hfull htop] at h
        cases h
    | some farthest =>
        rw [stopsAt_of_full hfull htop] at h
        cases h
        rw [decide_eq_true_eq]
        constructor
        · exact fun hlt => ⟨hfull, fun r hr => (le_top htop r hr).trans_lt hlt⟩
        · exact fun hstops => hstops.2 _ (top_mem htop)
  · rw [stopsAt_of_room hfull] at h
    cases h
    exact iff_of_false Bool.false_ne_true fun hstops => hfull hstops.1

theorem searchLoop_eq_ok {fuel : ℕ} {beam : Beam rt}
    {results : rt.maxHeap.Queue}
    (h : searchLoop rt index query n ef layer (fuel + 1) beam = .ok results) :
    Turn index query n ef layer fuel beam results := by
  cases htop : rt.minHeap.top beam.candidates with
  | none =>
      rw [searchLoop_of_empty htop] at h
      cases h
      exact Turn.done ((rt.minHeap.top_eq_none _).mp htop) rfl
  | some c =>
      rw [searchLoop_of_top htop, except_bind_eq_ok] at h
      obtain ⟨stop, hstop, hturn⟩ := h
      have hstops := stopsAt_eq_ok hstop
      split_ifs at hturn with hends
      · cases hturn
        exact Turn.stop c htop (hstops.mp hends) rfl
      · obtain ⟨next, hexpand, hrest⟩ := except_bind_eq_ok.mp hturn
        exact Turn.next c next htop (fun hgoes => hends (hstops.mpr hgoes))
          hexpand hrest

theorem BeamBest.pop {beam : Beam rt} {c : HNSWSearchResult D}
    (h : BeamBest index query n ef layer (fun _ _ => False) beam)
    (htop : rt.minHeap.top beam.candidates = some c) :
    BeamBest index query n ef layer
      (fun i j => i = c.nodeId ∧
        j ∈ index.neighbours.getNeighbours c.nodeId layer)
      { beam with candidates := rt.minHeap.pop beam.candidates } := by
  have hperm := rt.minHeap.toList_pop _ c htop
  refine { h with
    candidates := fun r hr =>
      h.candidates r (hperm.mem_iff.mpr (List.mem_cons_of_mem c hr))
    frontier := ?_ }
  intro r hr
  rcases h.frontier r hr with hcand | hbeats | hlinks
  · rcases List.mem_cons.mp (hperm.mem_iff.mp hcand) with rfl | hcand
    · exact Or.inr (Or.inr fun j hj => Or.inr ⟨rfl, hj⟩)
    · exact Or.inl hcand
  · exact Or.inr (Or.inl hbeats)
  · exact Or.inr (Or.inr fun j hj => Or.inl ((hlinks j hj).resolve_right id))

theorem BeamBest.top_lt {todo : ℕ → ℕ → Prop} {beam : Beam rt}
    {c : HNSWSearchResult D} (h : BeamBest index query n ef layer todo beam)
    (htop : rt.minHeap.top beam.candidates = some c) :
    Seen index query beam c ∧ c.nodeId < n := by
  have hseen := h.candidates c
    ((rt.minHeap.toList_pop _ c htop).mem_iff.mpr List.mem_cons_self)
  have hlt := visited_lt hseen.1
  rw [h.visited_length] at hlt
  exact ⟨hseen, hlt⟩

/-- The loop ends without a candidate or with a full beam. -/
theorem searchLoop_best
    (hlinks : ∀ i j, i < n → Link index layer i j → j < n) {fuel : ℕ}
    {beam : Beam rt} {results : rt.maxHeap.Queue}
    (h : BeamBest index query n ef layer (fun _ _ => False) beam)
    (hrun : searchLoop rt index query n ef layer fuel beam = .ok results) :
    ∃ last : Beam rt, last.results = results ∧
      BeamBest index query n ef layer (fun _ _ => False) last ∧
      (∀ i, beam.Visited i → last.Visited i) ∧
      (rt.minHeap.toList last.candidates = [] ∨
        ef ≤ rt.maxHeap.size last.results) := by
  induction fuel generalizing beam with
  | zero => cases hrun
  | succ fuel ih =>
      cases searchLoop_eq_ok hrun with
      | done hempty hresults =>
          exact ⟨beam, hresults, h, fun _ hi => hi, Or.inl hempty⟩
      | stop c htop hstops hresults =>
          exact ⟨beam, hresults, h, fun _ hi => hi, Or.inr hstops.1⟩
      | next c next htop hgoes hexpand hrest =>
          obtain ⟨hnext, hmono⟩ := expand_best
            (fun j hj => hlinks _ j (h.top_lt htop).2 hj) (h.pop htop) hexpand
          obtain ⟨last, hresults, hlast, hmono', hend⟩ := ih hnext hrest
          exact ⟨last, hresults, hlast, fun i hi => hmono' i (hmono i hi), hend⟩

/-- With room in the beam and no candidate left, what was seen is closed and
kept. -/
theorem BeamBest.reached {beam : Beam rt}
    (h : BeamBest index query n ef layer (fun _ _ => False) beam)
    (hstored : n ≤ index.vectors.length)
    (hempty : rt.minHeap.toList beam.candidates = [])
    (hroom : rt.maxHeap.size beam.results < ef) {i j : ℕ}
    (hj : beam.Visited j)
    (hreach : Relation.ReflTransGen (Link index layer) j i) :
    i ∈ ids (rt.maxHeap.toList beam.results) := by
  have hseen : ∀ k, beam.Visited k →
      ∃ d, Seen index query beam ⟨d, k⟩ := by
    intro k hk
    have hlt := visited_lt hk
    rw [h.visited_length] at hlt
    exact ⟨rt.l2sq index.vectors[k] query, hk, _,
      List.getElem?_eq_getElem (hlt.trans_le hstored), rfl⟩
  have hvisited : beam.Visited i := by
    induction hreach with
    | refl => exact hj
    | tail _ hlink hk =>
        obtain ⟨d, hd⟩ := hseen _ hk
        rcases h.frontier _ hd with hcand | hbeats | hlinks
        · rw [hempty] at hcand
          cases hcand
        · exact absurd hbeats (Beats.of_room hroom)
        · exact (hlinks _ hlink).resolve_right id
  obtain ⟨d, hd⟩ := hseen i hvisited
  exact List.mem_map.mpr ⟨_, h.best.mem_of_room hroom hd, rfl⟩

/-! ## What a search returns -/

/-- The ids that the graph and the index hold are in range. -/
structure WellFormed (index : HNSWIndex V) : Prop where
  stored : index.nextId ≤ index.vectors.length
  links : ∀ layer i j, i < index.nextId → Link index layer i j →
    j < index.nextId
  entry : index.maxLayer < 0 ∧ index.nextId = 0 ∨
    0 ≤ index.maxLayer ∧ index.entryPoint < index.nextId

/-- `out` are `k` nodes that a layer connects to `ep`, or all of these, the
nearest first, and the first is no farther than `ep`. -/
structure Reached (rt : Runtime V D) (index : HNSWIndex V) (query : V)
    (layer ep k : ℕ) (out : List (HNSWSearchResult D)) : Prop where
  nodup : (ids out).Nodup
  mem : ∀ r ∈ out, Relation.ReflTransGen (Link index layer) ep r.nodeId ∧
    DistOf rt index query r.nodeId r.dist
  sorted : out.Pairwise fun a b => a.dist ≤ b.dist
  length : out.length =
    min k (Set.ncard {i | Relation.ReflTransGen (Link index layer) ep i})
  first : ∀ d, DistOf rt index query ep d → ∀ r ∈ out.head?, r.dist ≤ d

theorem WellFormed.closed (h : WellFormed index) (layer : ℕ) :
    Closed index layer (fun i => i < index.nextId) where
  stored := fun _ hi => hi.trans_le h.stored
  links := fun i hi j hj => h.links layer i j hi hj

theorem RepInv.wellFormed {layers : List ℕ} (h : RepInv index layers) :
    WellFormed index where
  stored := by
    rw [h.nextId, h.vectors]
  links := by
    intro layer i j _ hj
    rw [h.nextId]
    exact ((h.graph.list i layer).members j hj).lt
  entry := by
    by_cases hlayers : layers = []
    · have hempty := h.empty hlayers
      refine Or.inl ⟨by omega, ?_⟩
      rw [h.nextId, hlayers]
      rfl
    · obtain ⟨top, hmax, _, hentry⟩ := h.maxLayer_eq hlayers
      refine Or.inr ⟨by omega, ?_⟩
      rw [h.nextId]
      exact hentry.lt

theorem Beam.start_best {ep : ℕ} {d : D} (hep : ep < n) (hef : 0 < ef)
    (hdist : DistOf rt index query ep d) :
    BeamBest index query n ef layer (fun _ _ => False)
      (Beam.start rt n ep d) := by
  have hseen : ∀ r, Seen index query (Beam.start rt n ep d) r ↔
      r = ⟨d, ep⟩ := by
    intro r
    unfold Seen
    rw [Beam.start_visited hep]
    constructor
    · rintro ⟨hid, hr⟩
      obtain ⟨dist, id⟩ := r
      dsimp only at hid hr
      subst hid
      rw [hr.unique hdist]
    · rintro rfl
      exact ⟨rfl, hdist⟩
  have hone : BestOf ef HNSWSearchResult.dist (fun r => r = ⟨d, ep⟩)
      [(⟨d, ep⟩ : HNSWSearchResult D)] := BestOf.singleton hef _
  have hcandidates : (rt.minHeap.toList
      (Beam.start rt n ep d).candidates).Perm [⟨d, ep⟩] :=
    Beam.start_candidates
  refine {
    visited_length := by simp [Beam.start]
    best := (hone.congr hseen).perm Beam.start_results
    candidates := ?_
    frontier := ?_ }
  · intro r hr
    exact (hseen r).mpr (List.mem_singleton.mp (hcandidates.mem_iff.mp hr))
  · intro r hr
    refine Or.inl (hcandidates.mem_iff.mpr ?_)
    exact List.mem_singleton.mpr ((hseen r).mp hr)

theorem searchLayer_eq_ok {ep : ℕ} {efArg : Int32}
    {out : List (HNSWSearchResult D)}
    (h : searchLayer rt index ep query efArg layer = .ok out) :
    ∃ d results, DistOf rt index query ep d ∧ ep < index.nextId ∧
      searchLoop rt index query index.nextId (toSizeT efArg) layer
        (index.nextId + 1) (Beam.start rt index.nextId ep d) = .ok results ∧
      out.Perm (rt.maxHeap.toList results) ∧
      out.Pairwise fun a b => a.dist ≤ b.dist := by
  unfold searchLayer at h
  obtain ⟨vec, hget, h⟩ := except_bind_eq_ok.mp h
  split_ifs at h with hbound
  · cases h
  · obtain ⟨results, hrun, h⟩ := except_bind_eq_ok.mp h
    cases h
    refine ⟨_, results, ⟨vec, getVector_eq_ok.mp hget, rfl⟩, by omega, hrun,
      (rt.sorter.perm _ _).trans PriorityQueue.drain_perm, ?_⟩
    have hsorted := rt.sorter.sorted _ (rt.maxHeap.drain results)
      (StrictWeak.ofKey fun r : HNSWSearchResult D => r.dist)
    exact hsorted.imp fun hab => by simpa using hab

theorem ncard_setOf_mem {l : List ℕ} (hnodup : l.Nodup) :
    Set.ncard {i | i ∈ l} = l.length := by
  rw [← List.coe_toFinset, Set.ncard_coe_finset,
    List.toFinset_card_of_nodup hnodup]

/-- A full beam has `ef` of the reachable nodes, any other has all. -/
theorem BeamBest.length_eq {beam : Beam rt} {S : Set ℕ} {l : List ℕ}
    (h : BeamBest index query n ef layer (fun _ _ => False) beam)
    (hperm : l.Perm (ids (rt.maxHeap.toList beam.results)))
    (hfinite : S.Finite) (hnodup : l.Nodup) (hsub : ∀ i ∈ l, i ∈ S)
    (hall : rt.maxHeap.size beam.results < ef → ∀ i ∈ S, i ∈ l) :
    l.length = min ef S.ncard := by
  have hlength : l.length = rt.maxHeap.size beam.results := by
    rw [hperm.length_eq, ids, List.length_map]
    rfl
  have hle := h.best.length_le
  have hcard := Set.ncard_le_ncard (s := {i | i ∈ l}) hsub hfinite
  rw [ncard_setOf_mem hnodup] at hcard
  by_cases hroom : rt.maxHeap.size beam.results < ef
  · have hset : S = {i | i ∈ l} :=
      Set.Subset.antisymm (hall hroom) hsub
    rw [hset, ncard_setOf_mem hnodup]
    omega
  · change rt.maxHeap.size beam.results ≤ ef at hle
    omega

theorem WellFormed.searchLayer_reached (rt : Runtime V D)
    (h : WellFormed index) (query : V) (layer : ℕ) {ep : ℕ}
    (hep : ep < index.nextId) {efArg : Int32} (hef : 1 ≤ efArg.toInt) :
    ∃ out, searchLayer rt index ep query efArg layer = .ok out ∧
      Reached rt index query layer ep efArg.toInt.toNat out := by
  have hids : ∀ i, Relation.ReflTransGen (Link index layer) ep i →
      i < index.nextId := fun i hi => (h.closed layer).reachable hep hi
  obtain ⟨out, hsearch, hfound, _⟩ := searchLayer_ok rt
    ((h.closed layer).component hep) hids Relation.ReflTransGen.refl query efArg
  obtain ⟨d, results, hdist, _, hrun, hperm, hsorted⟩ :=
    searchLayer_eq_ok hsearch
  rw [toSizeT_of_nonneg (by omega)] at hrun
  obtain ⟨last, rfl, hlast, hmono, hend⟩ := searchLoop_best (h.links layer)
    (Beam.start_best hep (by omega) hdist) hrun
  have hseen : last.Visited ep := hmono ep ((Beam.start_visited hep ep).mpr rfl)
  refine ⟨out, hsearch, {
    nodup := hfound.nodup
    mem := hfound.mem
    sorted := hsorted
    length := ?_
    first := ?_ }⟩
  · have hlength := hlast.length_eq (hperm.map HNSWSearchResult.nodeId)
      (Set.Finite.subset (Set.finite_Iio index.nextId) hids) hfound.nodup
      (by
        intro i hi
        obtain ⟨r, hr, rfl⟩ := List.mem_map.mp hi
        exact (hfound.mem r hr).1)
      (by
        intro hroom i hi
        refine (hperm.map _).mem_iff.mpr ?_
        exact hlast.reached h.stored (hend.resolve_right (by omega)) hroom
          hseen hi)
    rwa [List.length_map] at hlength
  · intro d' hd' r hr
    obtain ⟨near, hnear, hle⟩ := hlast.best.exists_le (by omega)
      (show Seen index query last ⟨d', ep⟩ from ⟨hseen, hd'⟩)
    have hmem := hperm.mem_iff.mpr hnear
    cases out with
    | nil => cases hr
    | cons first rest =>
        cases hr
        rcases List.mem_cons.mp hmem with rfl | hmem
        · exact hle
        · exact ((List.pairwise_cons.mp hsorted).1 near hmem).trans hle

theorem Reached.take {ep k j : ℕ} {out : List (HNSWSearchResult D)}
    (h : Reached rt index query layer ep k out) (hjk : j ≤ k) :
    Reached rt index query layer ep j (out.take j) where
  nodup := h.nodup.sublist ((List.take_sublist j out).map _)
  mem := fun r hr => h.mem r (List.mem_of_mem_take hr)
  sorted := h.sorted.sublist (List.take_sublist j out)
  length := by
    rw [List.length_take, h.length]
    omega
  first := by
    intro d hd r hr
    refine h.first d hd r ?_
    rw [List.head?_take] at hr
    split_ifs at hr with hj
    · cases hr
    · exact hr

theorem WellFormed.searchEntry (rt : Runtime V D) (h : WellFormed index)
    (hsome : index.nextId ≠ 0) (query : V) :
    ∃ ep, SearchEntry rt index query ep ∧ ep < index.nextId := by
  have hentry := (h.entry.resolve_left (fun hempty => hsome hempty.2)).2
  exact greedyDescent_holds rt query h.closed (fun _ _ hi => hi) 0 _ _ hentry

/-- The beam of layer 0, cut to `topK`. -/
theorem search_of_entry {ep : ℕ} (hsome : 0 ≤ index.maxLayer)
    (hentry : SearchEntry rt index query ep) {topK efArg : Int32}
    (htopK : 1 ≤ topK.toInt) {all : List (HNSWSearchResult D)}
    (hall : searchLayer rt index ep query
      (if efArg < topK then topK else efArg) 0 = .ok all) :
    search rt index query topK efArg = .ok (all.take topK.toInt.toNat) := by
  unfold SearchEntry at hentry
  rw [search, if_neg (by omega)]
  change (greedyDescent rt index query 0 _ index.entryPoint >>= _) = _
  rw [hentry]
  change (searchLayer rt index ep query _ 0 >>= _) = _
  rw [hall]
  change (if topK.toInt < all.length then _ else _) = _
  split_ifs with hlong hneg
  · omega
  · rfl
  · rw [List.take_of_length_le (by omega)]
    rfl

theorem le_efActual (topK efArg : Int32) :
    topK.toInt ≤ (if efArg < topK then topK else efArg).toInt := by
  split_ifs with hlt
  · exact le_rfl
  · rw [Int32.lt_iff_toInt_lt] at hlt
    omega

/-- A beam search returns as many of the nodes that it can reach as `ef`
allows, and a search as many as `topK` allows. -/
theorem beam_search_fills (rt : Runtime V D) (h : WellFormed index)
    (query : V) :
    (∀ (layer ep : ℕ) (ef : Int32), ep < index.nextId → 1 ≤ ef.toInt →
      ∃ out, searchLayer rt index ep query ef layer = .ok out ∧
        Reached rt index query layer ep ef.toInt.toNat out) ∧
    (index.nextId ≠ 0 → ∀ topK ef : Int32, 1 ≤ topK.toInt →
      ∃ ep out, SearchEntry rt index query ep ∧
        search rt index query topK ef = .ok out ∧
        Reached rt index query 0 ep topK.toInt.toNat out) := by
  refine ⟨fun layer ep ef hep hef =>
    h.searchLayer_reached rt query layer hep hef, ?_⟩
  intro hsome topK ef htopK
  have hle := le_efActual topK ef
  have hmax := (h.entry.resolve_left (fun hempty => hsome hempty.2)).1
  obtain ⟨ep, hentry, hep⟩ := h.searchEntry rt hsome query
  have hef : 1 ≤ (if ef < topK then topK else ef).toInt := by omega
  obtain ⟨all, hall, hreached⟩ := h.searchLayer_reached rt query 0 hep hef
  exact ⟨ep, _, hentry, search_of_entry hmax hentry htopK hall,
    hreached.take (by omega)⟩

theorem beam_search_fills_numberLine :
    ∃ index₀ index : HNSWIndex ℕ,
      new smallConfig (fun _ => 0) = .ok index₀ ∧
      insertAll numberLine [0, 1, 2, 100] index₀ = .ok index ∧
      ∃ ep out, SearchEntry numberLine index 100 ep ∧
        search numberLine index 100 2 1 = .ok out ∧
        Reached numberLine index 100 0 ep 2 out := by
  obtain ⟨index₀, hnew⟩ := new_smallConfig fun _ => 0
  obtain ⟨index, hrun, hrep, _⟩ :=
    insertAll_new numberLine hnew (by decide) [0, 1, 2, 100] (by decide)
  refine ⟨index₀, index, hnew, hrun, ?_⟩
  apply (beam_search_fills numberLine hrep.wellFormed 100).2
  · rw [hrep.nextId]
    decide
  · decide

end HNSWIndex
end VecDB
