import VecDB.HnswBeam
import Mathlib.Tactic

/-!
# A larger beam finds no worse results

Two searches that differ in `ef` run in step.  The heap of the smaller beam
beats whatever that of the larger one beats, so the larger beam has all its
candidates, and when distances differ both expand the same candidate until the
smaller beam stops.
-/

namespace VecDB
namespace HNSWIndex

variable {V D : Type} [LinearOrder D] {rt : Runtime V D}
  {index : HNSWIndex V} {query : V} {n ef₁ ef₂ layer : ℕ}
  {todo : ℕ → ℕ → Prop} {beam₁ beam₂ : Beam rt}

/-- Two beams that have seen the same nodes.  The heap of the first beats the
candidates that only the second has. -/
structure Twin (index : HNSWIndex V) (query : V) (n ef₁ ef₂ layer : ℕ)
    (todo : ℕ → ℕ → Prop) (beam₁ beam₂ : Beam rt) : Prop where
  best₁ : BeamBest index query n ef₁ layer todo beam₁
  best₂ : BeamBest index query n ef₂ layer todo beam₂
  visited : beam₂.visited = beam₁.visited
  extra : ∃ extra, (rt.minHeap.toList beam₂.candidates).Perm
      (rt.minHeap.toList beam₁.candidates ++ extra) ∧
    ∀ r ∈ extra, Beats ef₁ HNSWSearchResult.dist
      (rt.maxHeap.toList beam₁.results) r.dist

theorem Twin.beats (h : Twin index query n ef₁ ef₂ layer todo beam₁ beam₂)
    (hef : ef₁ ≤ ef₂) {d : D}
    (hbeats : Beats ef₂ HNSWSearchResult.dist
      (rt.maxHeap.toList beam₂.results) d) :
    Beats ef₁ HNSWSearchResult.dist (rt.maxHeap.toList beam₁.results) d := by
  refine h.best₁.best.beats_of_beats h.best₂.best hef ?_ hbeats
  rintro r ⟨hvisited, hdist⟩
  rw [Beam.Visited, h.visited] at hvisited
  exact ⟨hvisited, hdist⟩

/-! ## Expansion in step -/

section Offered

variable {ef : ℕ} {result : HNSWSearchResult D} {beam beam' : Beam rt}

theorem Offered.eq_of_beats (h : Offered ef result beam beam')
    (hbeats : Beats ef HNSWSearchResult.dist
      (rt.maxHeap.toList beam.results) result.dist) : beam' = beam := by
  cases h with
  | skip _ => rfl
  | add _ hroom _ => exact absurd hbeats (Beats.of_room hroom)
  | replace _ _ hreplaced =>
      obtain ⟨r, hr, hlt⟩ := hreplaced.closer
      exact absurd (hbeats.2 r hr) (not_le.mpr hlt)

theorem Offered.skip_or_push (h : Offered ef result beam beam') :
    Beats ef HNSWSearchResult.dist (rt.maxHeap.toList beam.results)
        result.dist ∨
      beam'.candidates = rt.minHeap.push result beam.candidates := by
  cases h with
  | skip hbeats => exact Or.inl hbeats
  | add _ _ _ => exact Or.inr rfl
  | replace _ _ _ => exact Or.inr rfl

end Offered

theorem Twin.offered {todo' : ℕ → ℕ → Prop} {beam₁' beam₂' : Beam rt}
    (h : Twin index query n ef₁ ef₂ layer todo beam₁ beam₂)
    (hef : ef₁ ≤ ef₂) {nbr : ℕ} {d : D} (hnbr : nbr < n)
    (hnew : ¬ beam₁.Visited nbr) (hdist : DistOf rt index query nbr d)
    (htodo : ∀ i j, todo i j → j = nbr ∨ todo' i j)
    (hoffered₁ : Offered ef₁ ⟨d, nbr⟩
      { beam₁ with visited := beam₁.visited.set nbr true } beam₁')
    (hoffered₂ : Offered ef₂ ⟨d, nbr⟩
      { beam₂ with visited := beam₂.visited.set nbr true } beam₂') :
    Twin index query n ef₁ ef₂ layer todo' beam₁' beam₂' := by
  have hnew₂ : ¬ beam₂.Visited nbr := by rwa [Beam.Visited, h.visited]
  obtain ⟨extra, hperm, hextra⟩ := h.extra
  refine {
    best₁ := h.best₁.offered hnbr hnew hdist htodo hoffered₁
    best₂ := h.best₂.offered hnbr hnew₂ hdist htodo hoffered₂
    visited := by rw [hoffered₁.visited, hoffered₂.visited, h.visited]
    extra := ?_ }
  rcases hoffered₂.skip_or_push with hbeats₂ | hpush₂
  · -- what the larger beam rejects, the smaller one rejects
    rw [hoffered₁.eq_of_beats (h.beats hef hbeats₂),
      hoffered₂.eq_of_beats hbeats₂]
    exact ⟨extra, hperm, hextra⟩
  · have hcons := rt.minHeap.toList_push ⟨d, nbr⟩ beam₂.candidates
    have hkept : ∀ r ∈ extra, Beats ef₁ HNSWSearchResult.dist
        (rt.maxHeap.toList beam₁'.results) r.dist :=
      fun r hr => hoffered₁.beats (hextra r hr)
    rw [hpush₂]
    rcases hoffered₁.skip_or_push with hbeats₁ | hpush₁
    · refine ⟨⟨d, nbr⟩ :: extra, ?_, ?_⟩
      · rw [hoffered₁.eq_of_beats hbeats₁]
        exact hcons.trans ((hperm.cons _).trans List.perm_middle.symm)
      · intro r hr
        rcases List.mem_cons.mp hr with rfl | hr
        · exact hoffered₁.beats hbeats₁
        · exact hkept r hr
    · refine ⟨extra, ?_, hkept⟩
      rw [hpush₁]
      have hcons₁ := rt.minHeap.toList_push ⟨d, nbr⟩ beam₁.candidates
      exact hcons.trans ((hperm.cons _).trans (hcons₁.symm.append_right extra))

theorem expand_twin (hef : ef₁ ≤ ef₂) {c : ℕ} {nbrs : List ℕ}
    (hnbrs : ∀ j ∈ nbrs, j < n) {beam₁' beam₂' : Beam rt}
    (h : Twin index query n ef₁ ef₂ layer (fun i j => i = c ∧ j ∈ nbrs)
      beam₁ beam₂)
    (hrun₁ : expand rt index query n ef₁ nbrs beam₁ = .ok beam₁')
    (hrun₂ : expand rt index query n ef₂ nbrs beam₂ = .ok beam₂') :
    Twin index query n ef₁ ef₂ layer (fun _ _ => False) beam₁' beam₂' := by
  induction nbrs generalizing beam₁ beam₂ with
  | nil =>
      cases hrun₁
      cases hrun₂
      exact { h with
        best₁ := h.best₁.mono fun _ _ hj => absurd hj.2 (by simp)
        best₂ := h.best₂.mono fun _ _ hj => absurd hj.2 (by simp) }
  | cons nbr nbrs ih =>
      have hnbr := hnbrs nbr List.mem_cons_self
      have hrest := fun j hj => hnbrs j (List.mem_cons_of_mem nbr hj)
      rw [expand] at hrun₁ hrun₂
      rw [h.visited] at hrun₂
      split_ifs at hrun₁ hrun₂ with hskip
      · have hseen := hskip.resolve_left (by omega)
        have htodo : ∀ i j, i = c ∧ j ∈ nbr :: nbrs →
            beam₁.Visited j ∨ i = c ∧ j ∈ nbrs := by
          rintro i j ⟨hi, hj⟩
          rcases List.mem_cons.mp hj with rfl | hj
          · exact Or.inl hseen
          · exact Or.inr ⟨hi, hj⟩
        refine ih hrest { h with
          best₁ := h.best₁.mono htodo
          best₂ := h.best₂.mono ?_ } hrun₁ hrun₂
        intro i j hj
        rw [Beam.Visited, h.visited]
        exact htodo i j hj
      · have hnew := (not_or.mp hskip).2
        obtain ⟨vec, hget, hrun₁⟩ := except_bind_eq_ok.mp hrun₁
        obtain ⟨vec₂, hget₂, hrun₂⟩ := except_bind_eq_ok.mp hrun₂
        rw [hget] at hget₂
        cases hget₂
        obtain ⟨mid₁, hoffer₁, hrun₁⟩ := except_bind_eq_ok.mp hrun₁
        obtain ⟨mid₂, hoffer₂, hrun₂⟩ := except_bind_eq_ok.mp hrun₂
        rw [← h.visited] at hoffer₂
        refine ih hrest ?_ hrun₁ hrun₂
        refine h.offered hef hnbr hnew ⟨vec, getVector_eq_ok.mp hget, rfl⟩ ?_
          (offer_eq_ok hoffer₁) (offer_eq_ok hoffer₂)
        rintro i j ⟨hi, hj⟩
        exact (List.mem_cons.mp hj).imp_right fun hj => ⟨hi, hj⟩

/-! ## The loop in step -/

theorem top_le {candidates : rt.minHeap.Queue} {c : HNSWSearchResult D}
    (htop : rt.minHeap.top candidates = some c) :
    ∀ r ∈ rt.minHeap.toList candidates, c.dist ≤ r.dist := by
  intro r hr
  have hmax := rt.minHeap.top_max candidates c
    (StrictWeak.ofKey fun r : HNSWSearchResult D => r.dist).flip htop r hr
  simpa using hmax

/-- The distances of the nodes are pairwise distinct. -/
def Distinct (rt : Runtime V D) (index : HNSWIndex V) (query : V) (n : ℕ) :
    Prop :=
  ∀ i j d, i < n → j < n → DistOf rt index query i d →
    DistOf rt index query j d → i = j

theorem Twin.top_mem
    (h : Twin index query n ef₁ ef₂ layer todo beam₁ beam₂)
    {c : HNSWSearchResult D}
    (htop : rt.minHeap.top beam₁.candidates = some c) :
    c ∈ rt.minHeap.toList beam₂.candidates := by
  obtain ⟨extra, hperm, _⟩ := h.extra
  exact hperm.mem_iff.mpr (List.mem_append_left extra
    ((rt.minHeap.toList_pop _ c htop).mem_iff.mpr List.mem_cons_self))

/-- As long as the smaller beam goes on, both expand the same candidate. -/
theorem Twin.top_eq (h : Twin index query n ef₁ ef₂ layer todo beam₁ beam₂)
    (hdistinct : Distinct rt index query n) {c₁ c₂ : HNSWSearchResult D}
    (htop₁ : rt.minHeap.top beam₁.candidates = some c₁)
    (htop₂ : rt.minHeap.top beam₂.candidates = some c₂)
    (hgoes : ¬ Stops ef₁ beam₁.results c₁.dist) : c₂ = c₁ := by
  obtain ⟨extra, hperm, hextra⟩ := h.extra
  have hle : c₂.dist ≤ c₁.dist := top_le htop₂ c₁ (h.top_mem htop₁)
  have hmem := hperm.mem_iff.mp
    ((rt.minHeap.toList_pop _ c₂ htop₂).mem_iff.mpr List.mem_cons_self)
  have hge : c₁.dist ≤ c₂.dist := by
    rcases List.mem_append.mp hmem with hmem | hmem
    · exact top_le htop₁ c₂ hmem
    · by_contra hlt
      refine hgoes ⟨(hextra c₂ hmem).1, fun r hr => ?_⟩
      exact ((hextra c₂ hmem).2 r hr).trans_lt (not_le.mp hlt)
  obtain ⟨hseen₁, hlt₁⟩ := h.best₁.top_lt htop₁
  obtain ⟨hseen₂, hlt₂⟩ := h.best₂.top_lt htop₂
  have hdist := le_antisymm hle hge
  have hid := hdistinct _ _ c₁.dist hlt₂ hlt₁ (hdist ▸ hseen₂.2) hseen₁.2
  cases c₁
  cases c₂
  cases hdist
  cases hid
  rfl

/-- When the larger beam stops, the smaller one stops. -/
theorem Twin.stops (h : Twin index query n ef₁ ef₂ layer todo beam₁ beam₂)
    (hef : ef₁ ≤ ef₂) (hpos : 0 < ef₂) {d : D}
    (hstops : Stops ef₂ beam₂.results d) : Stops ef₁ beam₁.results d := by
  obtain ⟨worst, htop⟩ := PriorityQueue.exists_top (hpos.trans_le hstops.1)
  have hbeats := h.beats hef ((beats_iff_top htop).mpr ⟨hstops.1, le_rfl⟩)
  have hlt := hstops.2 worst (HNSWIndex.top_mem htop)
  exact ⟨hbeats.1, fun r hr => (hbeats.2 r hr).trans_lt hlt⟩

theorem Twin.pop {c : HNSWSearchResult D}
    (h : Twin index query n ef₁ ef₂ layer (fun _ _ => False) beam₁ beam₂)
    (htop₁ : rt.minHeap.top beam₁.candidates = some c)
    (htop₂ : rt.minHeap.top beam₂.candidates = some c) :
    Twin index query n ef₁ ef₂ layer
      (fun i j => i = c.nodeId ∧
        j ∈ index.neighbours.getNeighbours c.nodeId layer)
      { beam₁ with candidates := rt.minHeap.pop beam₁.candidates }
      { beam₂ with candidates := rt.minHeap.pop beam₂.candidates } where
  best₁ := h.best₁.pop htop₁
  best₂ := h.best₂.pop htop₂
  visited := h.visited
  extra := by
    obtain ⟨extra, hperm, hextra⟩ := h.extra
    have hpop₁ := rt.minHeap.toList_pop _ c htop₁
    have hpop₂ := rt.minHeap.toList_pop _ c htop₂
    exact ⟨extra, (hpop₂.symm.trans
      (hperm.trans (hpop₁.append_right extra))).cons_inv, hextra⟩

/-- Once the smaller beam has ended, the larger one only sees more. -/
theorem Twin.ended
    (h : Twin index query n ef₁ ef₂ layer (fun _ _ => False) beam₁ beam₂)
    (hlinks : ∀ i j, i < n → Link index layer i j → j < n) {fuel₂ : ℕ}
    {results₂ : rt.maxHeap.Queue}
    (hrun₂ : searchLoop rt index query n ef₂ layer fuel₂ beam₂ =
      .ok results₂) :
    ∃ last₂ : Beam rt, last₂.results = results₂ ∧
      BeamBest index query n ef₂ layer (fun _ _ => False) last₂ ∧
      ∀ i, beam₁.Visited i → last₂.Visited i := by
  obtain ⟨last₂, hlast₂, hbest₂, hmono, _⟩ :=
    searchLoop_best hlinks h.best₂ hrun₂
  refine ⟨last₂, hlast₂, hbest₂, fun i hi => hmono i ?_⟩
  rw [Beam.Visited, h.visited]
  exact hi

theorem searchLoop_twin (hef : ef₁ ≤ ef₂) (hpos : 0 < ef₂)
    (hlinks : ∀ i j, i < n → Link index layer i j → j < n)
    (hdistinct : Distinct rt index query n) {fuel₁ fuel₂ : ℕ}
    {results₁ results₂ : rt.maxHeap.Queue}
    (h : Twin index query n ef₁ ef₂ layer (fun _ _ => False) beam₁ beam₂)
    (hrun₁ : searchLoop rt index query n ef₁ layer fuel₁ beam₁ = .ok results₁)
    (hrun₂ : searchLoop rt index query n ef₂ layer fuel₂ beam₂ =
      .ok results₂) :
    ∃ last₁ last₂ : Beam rt, last₁.results = results₁ ∧
      last₂.results = results₂ ∧
      BeamBest index query n ef₁ layer (fun _ _ => False) last₁ ∧
      BeamBest index query n ef₂ layer (fun _ _ => False) last₂ ∧
      ∀ i, last₁.Visited i → last₂.Visited i := by
  induction fuel₁ generalizing beam₁ beam₂ fuel₂ with
  | zero => cases hrun₁
  | succ fuel₁ ih =>
      cases searchLoop_eq_ok hrun₁ with
      | done _ hresults =>
          obtain ⟨last₂, hlast₂, hbest₂, hmono⟩ := h.ended hlinks hrun₂
          exact ⟨beam₁, last₂, hresults, hlast₂, h.best₁, hbest₂, hmono⟩
      | stop _ _ _ hresults =>
          obtain ⟨last₂, hlast₂, hbest₂, hmono⟩ := h.ended hlinks hrun₂
          exact ⟨beam₁, last₂, hresults, hlast₂, h.best₁, hbest₂, hmono⟩
      | next c next₁ htop₁ hgoes₁ hexpand₁ hrest₁ =>
          cases fuel₂ with
          | zero => cases hrun₂
          | succ fuel₂ =>
              cases searchLoop_eq_ok hrun₂ with
              | done hempty _ =>
                  have hmem := h.top_mem htop₁
                  rw [hempty] at hmem
                  cases hmem
              | stop c₂ htop₂ hstops₂ _ =>
                  rw [h.top_eq hdistinct htop₁ htop₂ hgoes₁] at hstops₂
                  exact absurd (h.stops hef hpos hstops₂) hgoes₁
              | next c₂ next₂ htop₂ _ hexpand₂ hrest₂ =>
                  obtain rfl := h.top_eq hdistinct htop₁ htop₂ hgoes₁
                  have hnbrs := fun j hj =>
                    hlinks _ j (h.best₁.top_lt htop₁).2 hj
                  exact ih (expand_twin hef hnbrs (h.pop htop₁ htop₂)
                    hexpand₁ hexpand₂) hrest₁ hrest₂

/-! ## Two searches -/

theorem Beam.start_twin {ep : ℕ} {d : D} (hep : ep < n) (hpos : 0 < ef₁)
    (hef : ef₁ ≤ ef₂) (hdist : DistOf rt index query ep d) :
    Twin index query n ef₁ ef₂ layer (fun _ _ => False)
      (Beam.start rt n ep d) (Beam.start rt n ep d) where
  best₁ := Beam.start_best hep hpos hdist
  best₂ := Beam.start_best hep (by omega) hdist
  visited := rfl
  extra := ⟨[], by rw [List.append_nil], by simp⟩

/-- `out'` has a result for every place of `out`, and none is farther. -/
structure Improves (out' out : List (HNSWSearchResult D)) : Prop where
  length_le : out.length ≤ out'.length
  dist_le : ∀ (i : ℕ) (r r' : HNSWSearchResult D), out[i]? = some r →
    out'[i]? = some r' → r'.dist ≤ r.dist

theorem Improves.of_exists {out' out : List (HNSWSearchResult D)}
    (h : ∀ {i : ℕ} {r : HNSWSearchResult D}, out[i]? = some r →
      ∃ r' : HNSWSearchResult D, out'[i]? = some r' ∧ r'.dist ≤ r.dist) :
    Improves out' out where
  length_le := by
    by_contra hshort
    obtain ⟨r', hr', _⟩ := h (i := out'.length) (r := out[out'.length])
      (List.getElem?_eq_getElem (by omega))
    exact absurd (List.getElem?_eq_some_iff.mp hr').1 (lt_irrefl _)
  dist_le := by
    intro i r r' hr hr'
    obtain ⟨r'', hr'', hle⟩ := h hr
    rw [hr', Option.some.injEq] at hr''
    rwa [hr'']

theorem Improves.take {out' out : List (HNSWSearchResult D)}
    (h : Improves out' out) (k : ℕ) :
    Improves (out'.take k) (out.take k) where
  length_le := by
    have hlength := h.length_le
    rw [List.length_take, List.length_take]
    omega
  dist_le := by
    intro i r r' hr hr'
    rw [List.getElem?_take] at hr hr'
    split_ifs at hr hr' with hi
    exact h.dist_le i r r' hr hr'

theorem WellFormed.searchLayer_mono (rt : Runtime V D)
    (h : WellFormed index) (hdistinct : Distinct rt index query index.nextId)
    {ep : ℕ} (hep : ep < index.nextId) {efArg₁ efArg₂ : Int32}
    (hpos : 1 ≤ efArg₁.toInt) (hef : efArg₁.toInt ≤ efArg₂.toInt) :
    ∃ out₁ out₂, searchLayer rt index ep query efArg₁ layer = .ok out₁ ∧
      searchLayer rt index ep query efArg₂ layer = .ok out₂ ∧
      Improves out₂ out₁ := by
  obtain ⟨out₁, hout₁, _⟩ := h.searchLayer_reached rt query layer hep hpos
  obtain ⟨out₂, hout₂, _⟩ := h.searchLayer_reached rt query layer hep
    (hpos.trans hef)
  refine ⟨out₁, out₂, hout₁, hout₂, ?_⟩
  obtain ⟨d, results₁, hdist, _, hrun₁, hperm₁, hsorted₁⟩ :=
    searchLayer_eq_ok hout₁
  obtain ⟨d₂, results₂, hdist₂, _, hrun₂, hperm₂, hsorted₂⟩ :=
    searchLayer_eq_ok hout₂
  obtain rfl := hdist.unique hdist₂
  rw [toSizeT_of_nonneg (by omega)] at hrun₁ hrun₂
  have hle : efArg₁.toInt.toNat ≤ efArg₂.toInt.toNat := by omega
  obtain ⟨last₁, last₂, rfl, rfl, hbest₁, hbest₂, hmono⟩ :=
    searchLoop_twin hle (by omega) (h.links layer) hdistinct
      (Beam.start_twin hep (by omega) hle hdist) hrun₁ hrun₂
  exact Improves.of_exists fun hr =>
    hbest₁.best.getElem_le hbest₂.best hle (fun r hr => ⟨hmono _ hr.1, hr.2⟩)
      hperm₁ hperm₂ hsorted₁ hsorted₂ hr

/-- A search with a larger `ef` returns at least as many results, and each is
at least as near as the one in its place. -/
theorem search_mono_ef (rt : Runtime V D) (h : WellFormed index)
    (hdistinct : Distinct rt index query index.nextId)
    {topK ef₁ ef₂ : Int32} (htopK : 1 ≤ topK.toInt) (hef : ef₁ ≤ ef₂) :
    ∃ out₁ out₂, search rt index query topK ef₁ = .ok out₁ ∧
      search rt index query topK ef₂ = .ok out₂ ∧ Improves out₂ out₁ := by
  rcases h.entry with ⟨hmax, _⟩ | ⟨hmax, _⟩
  · refine ⟨[], [], ?_, ?_, le_rfl, by simp⟩
    · rw [search, if_pos hmax]
      rfl
    · rw [search, if_pos hmax]
      rfl
  · have hsize : index.nextId ≠ 0 := by
      rcases h.entry with hempty | ⟨_, hlt⟩
      · omega
      · omega
    obtain ⟨ep, hentry, hep⟩ := h.searchEntry rt hsize query
    have htop₁ := le_efActual topK ef₁
    have hactual : (if ef₁ < topK then topK else ef₁).toInt ≤
        (if ef₂ < topK then topK else ef₂).toInt := by
      rw [Int32.le_iff_toInt_le] at hef
      simp only [Int32.lt_iff_toInt_lt]
      split_ifs
      · exact le_rfl
      · omega
      · omega
      · exact hef
    obtain ⟨all₁, all₂, hall₁, hall₂, himproves⟩ :=
      h.searchLayer_mono rt hdistinct hep (htopK.trans htop₁) hactual
    exact ⟨_, _, search_of_entry hmax hentry htopK hall₁,
      search_of_entry hmax hentry htopK hall₂, himproves.take _⟩

theorem search_mono_ef_numberLine :
    ∃ index₀ index : HNSWIndex ℕ,
      new smallConfig (fun _ => 0) = .ok index₀ ∧
      insertAll numberLine [0, 1, 2, 100] index₀ = .ok index ∧
      ∃ out₁ out₂, search numberLine index 100 1 1 = .ok out₁ ∧
        search numberLine index 100 1 4 = .ok out₂ ∧ Improves out₂ out₁ := by
  obtain ⟨index₀, hnew⟩ := new_smallConfig fun _ => 0
  obtain ⟨index, hrun, hrep, hvectors, _⟩ :=
    insertAll_new numberLine hnew (by decide) [0, 1, 2, 100] (by decide)
  refine ⟨index₀, index, hnew, hrun, ?_⟩
  refine search_mono_ef numberLine hrep.wellFormed ?_ (by decide) (by decide)
  have hsize : index.nextId = 4 := hrep.nextId
  have hpoints : ∀ i < 4, ∀ j < 4, ∀ v ∈ [0, 1, 2, 100][i]?,
      ∀ w ∈ [0, 1, 2, 100][j]?,
        numberLine.l2sq v 100 = numberLine.l2sq w 100 → i = j := by decide
  rintro i j d hi hj ⟨v, hv, rfl⟩ ⟨w, hw, hd⟩
  rw [hvectors] at hv hw
  exact hpoints i (by omega) j (by omega) v hv w hw hd

end HNSWIndex
end VecDB
