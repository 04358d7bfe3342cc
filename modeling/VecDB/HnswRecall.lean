import VecDB.HnswRuns
import Mathlib.Tactic

/-!
# Which vectors a search can find

A search whose `ef` covers the index returns the nearest of the nodes that
layer 0 connects to the end of its descent.  Pruning drops back links without
looking at what becomes unreachable, so these need not be all nodes.  Until a
list can overflow no link is dropped, layer 0 is one undirected component, and
the search is exact.
-/

namespace VecDB
namespace HNSWIndex

open NeighbourStore

variable {V D : Type}

/-- `out` are the `k` nodes of `S` nearest to the query, the nearest first. -/
def Nearest [LinearOrder D] (rt : Runtime V D) (index : HNSWIndex V)
    (query : V) (S : ℕ → Prop) (k : ℕ) (out : List (HNSWSearchResult D)) :
    Prop :=
  ∃ all : List (HNSWSearchResult D), out = all.take k ∧ (ids all).Nodup ∧
    (∀ i, i ∈ ids all ↔ S i) ∧
    (∀ r ∈ all, DistOf rt index query r.nodeId r.dist) ∧
    all.Pairwise fun a b => a.dist ≤ b.dist

/-- The end of the descent of a search. -/
def SearchEntry [LT D] [DecidableLT D] (rt : Runtime V D)
    (index : HNSWIndex V) (query : V) (ep : ℕ) : Prop :=
  greedyDescent rt index query 0 index.maxLayer.toNat index.entryPoint = .ok ep

theorem toSizeT_of_nonneg {i : Int32} (hi : 0 ≤ i.toInt) :
    toSizeT i = i.toInt.toNat := by
  have hlt := Int32.toInt_lt i
  unfold toSizeT
  rw [Int.emod_eq_of_lt hi (by omega)]

/-- A search whose `ef` covers the index is exact on what it can reach. -/
theorem RepInv.search_nearest [LinearOrder D] (rt : Runtime V D)
    {index : HNSWIndex V} {layers : List ℕ} (h : RepInv index layers)
    (hlayers : layers ≠ []) (query : V) {topK ef : Int32}
    (htopK : 1 ≤ topK.toInt) (hef : (layers.length : ℤ) ≤ ef.toInt) :
    ∃ ep out, SearchEntry rt index query ep ∧ AtLayer layers 0 ep ∧
      search rt index query topK ef = .ok out ∧
      Nearest rt index query (Relation.ReflTransGen (Link index 0) ep)
        topK.toInt.toNat out := by
  obtain ⟨ep, all, hentry, hep, hfound, hcomplete, hsearch⟩ :=
    h.search_ok rt hlayers query topK ef
  have hefActual : (layers.length : ℤ) ≤
      (if ef < topK then topK else ef).toInt := by
    split_ifs with hlt
    · rw [Int32.lt_iff_toInt_lt] at hlt
      omega
    · exact hef
  have hfull : index.nextId ≤ toSizeT (if ef < topK then topK else ef) := by
    rw [toSizeT_of_nonneg (by omega), h.nextId]
    omega
  refine ⟨ep, all.take topK.toInt.toNat, hentry, hep, ?_, all, rfl,
    hfound.nodup, ?_, fun r hr => (hfound.mem r hr).2, ?_⟩
  · rw [hsearch]
    split_ifs with hlong hneg
    · omega
    · rfl
    · rw [List.take_of_length_le (by omega)]
  · intro i
    refine ⟨fun hi => ?_, hcomplete hfull i⟩
    obtain ⟨r, hr, rfl⟩ := List.mem_map.mp hi
    exact (hfound.mem r hr).1
  · have hsorted := hfound.sorted
      (StrictWeak.ofKey fun r : HNSWSearchResult D => r.dist)
    exact hsorted.imp fun hab => by simpa using hab

/-! ## While no list can overflow -/

/-- Layer 0 is one undirected component. -/
structure Whole (index : HNSWIndex V) (size : ℕ) : Prop where
  symm : ∀ i j, Link index 0 i j → Link index 0 j i
  connected : ∀ i j, i < size → j < size →
    Relation.ReflTransGen (Link index 0) i j

theorem ListInv.length_lt {cfg : HNSWConfig} {layers : List ℕ} {i layer : ℕ}
    {list : List ℕ} (h : ListInv cfg layers i layer list)
    (hi : i < layers.length) : list.length < layers.length := by
  have hnodup : (i :: list).Nodup := List.nodup_cons.mpr ⟨h.not_self, h.nodup⟩
  have hsub : i :: list ⊆ List.range layers.length := by
    intro j hj
    rw [List.mem_range]
    rcases List.mem_cons.mp hj with rfl | hj
    · exact hi
    · exact (h.members j hj).lt
  have hlength := (List.subperm_of_subset hnodup hsub).length_le
  rw [List.length_cons, List.length_range] at hlength
  omega

theorem LinkedLayer.link_iff {cfg : HNSWConfig} {layers selected : List ℕ}
    {index index' : HNSWIndex V} (hgraph : GraphInv cfg layers index.neighbours)
    (hlinked : LinkedLayer cfg layers 0 selected index.neighbours
      index'.neighbours)
    (hroom : layers.length ≤ maxLinks cfg 0) (i j : ℕ) :
    Link index' 0 i j ↔ Link index 0 i j ∨
      i = layers.length ∧ j ∈ selected ∨ i ∈ selected ∧ j = layers.length := by
  have hmembers : ∀ j, Link index 0 layers.length j → False := by
    intro j hj
    have hlist := hgraph.list layers.length 0
    have hne : getNeighbours index.neighbours layers.length 0 ≠ [] :=
      List.ne_nil_of_mem hj
    exact (hlist.owner hne).lt.ne rfl
  have hnotMem : layers.length ∉ selected :=
    fun hmem => (hlinked.atLayer _ hmem).lt.ne rfl
  by_cases hi : i = layers.length
  · subst hi
    unfold Link at hmembers ⊢
    rw [hlinked.own]
    constructor
    · exact fun hj => Or.inr (Or.inl ⟨rfl, hj⟩)
    · rintro (hj | ⟨_, hj⟩ | ⟨hself, _⟩)
      · exact (hmembers j hj).elim
      · exact hj
      · exact (hnotMem hself).elim
  · by_cases hselected : i ∈ selected
    · have hlt := (hgraph.list i 0).length_lt (hlinked.atLayer i hselected).lt
      have hlist := (hlinked.back i hselected).room (by simp; omega)
      unfold Link
      rw [hlist, List.mem_append, List.mem_singleton]
      constructor
      · rintro (hj | hj)
        · exact Or.inl hj
        · exact Or.inr (Or.inr ⟨hselected, hj⟩)
      · rintro (hj | ⟨hself, _⟩ | ⟨_, hj⟩)
        · exact Or.inl hj
        · exact (hi hself).elim
        · exact Or.inr hj
    · unfold Link
      rw [hlinked.others i hi hselected]
      constructor
      · exact Or.inl
      · rintro (hj | ⟨hself, _⟩ | ⟨hself, _⟩)
        · exact hj
        · exact (hi hself).elim
        · exact (hselected hself).elim

/-- A node that is linked without cutting joins the component. -/
theorem Whole.linked {cfg : HNSWConfig} {layers selected : List ℕ}
    {index index' : HNSWIndex V} (h : Whole index layers.length)
    (hgraph : GraphInv cfg layers index.neighbours)
    (hlinked : LinkedLayer cfg layers 0 selected index.neighbours
      index'.neighbours)
    (hroom : layers.length ≤ maxLinks cfg 0) (hlayers : layers ≠ []) :
    Whole index' (layers.length + 1) := by
  have hlink := hlinked.link_iff hgraph hroom
  have hpos := List.length_pos_iff.mpr hlayers
  have hold : ∀ i j, Relation.ReflTransGen (Link index 0) i j →
      Relation.ReflTransGen (Link index' 0) i j := by
    intro i j hreach
    exact Relation.ReflTransGen.mono
      (fun a b hab => (hlink a b).mpr (Or.inl hab)) _ _ hreach
  obtain ⟨anchor, rest, hselected⟩ :=
    List.exists_cons_of_ne_nil (hlinked.ne_nil (by omega))
  have hanchorMem : anchor ∈ selected := by
    rw [hselected]
    exact List.mem_cons_self
  have hanchor : anchor < layers.length := (hlinked.atLayer _ hanchorMem).lt
  have hto : ∀ i, i < layers.length →
      Relation.ReflTransGen (Link index' 0) i layers.length := by
    intro i hi
    exact (hold i anchor (h.connected i anchor hi hanchor)).tail
      ((hlink _ _).mpr (Or.inr (Or.inr ⟨hanchorMem, rfl⟩)))
  have hfrom : ∀ i, i < layers.length →
      Relation.ReflTransGen (Link index' 0) layers.length i := by
    intro i hi
    exact (hold anchor i (h.connected anchor i hanchor hi)).head
      ((hlink _ _).mpr (Or.inr (Or.inl ⟨rfl, hanchorMem⟩)))
  constructor
  · intro i j hij
    rw [hlink] at hij ⊢
    rcases hij with hij | ⟨hi, hj⟩ | ⟨hi, hj⟩
    · exact Or.inl (h.symm i j hij)
    · exact Or.inr (Or.inr ⟨hj, hi⟩)
    · exact Or.inr (Or.inl ⟨hj, hi⟩)
  · intro i j hi hj
    rcases Nat.lt_succ_iff_lt_or_eq.mp hi with hi | rfl
    · rcases Nat.lt_succ_iff_lt_or_eq.mp hj with hj | rfl
      · exact hold i j (h.connected i j hi hj)
      · exact hto i hi
    · rcases Nat.lt_succ_iff_lt_or_eq.mp hj with hj | rfl
      · exact hfrom j hj
      · exact Relation.ReflTransGen.refl

theorem RepInv.whole_single {index : HNSWIndex V} {top : ℕ}
    (h : RepInv index [top]) : Whole index 1 := by
  have hnone : ∀ i j, ¬ Link index 0 i j := by
    intro i j hij
    have hlist := h.graph.list i 0
    have hi : i < 1 := (hlist.owner (List.ne_nil_of_mem hij)).lt
    have hj : j < 1 := (hlist.members j hij).lt
    have hsame : j = i := by omega
    subst hsame
    exact hlist.not_self hij
  constructor
  · exact fun i j hij => (hnone i j hij).elim
  · intro i j hi hj
    have hsame : i = j := by omega
    subst hsame
    exact Relation.ReflTransGen.refl

theorem RepInv.insertAll_whole [Preorder D] [DecidableLT D]
    (rt : Runtime V D) {index index' : HNSWIndex V} {cfg : HNSWConfig}
    {layers : List ℕ} (h : RepInv index layers) (hcfg : index.cfg = cfg)
    (hMmax0 : 0 ≤ cfg.Mmax0.toInt)
    (hwhole : layers ≠ [] → Whole index layers.length) (vecs : List V)
    (hids : layers.length + vecs.length < 2 ^ 32)
    (hroom : layers.length + vecs.length ≤ maxLinks cfg 0 + 1)
    (hrun : insertAll rt vecs index = .ok index')
    (hsome : layers.length + vecs.length ≠ 0) :
    Whole index' (layers.length + vecs.length) := by
  induction vecs generalizing index layers with
  | nil =>
      cases hrun
      exact hwhole (List.ne_nil_of_length_pos (Nat.pos_of_ne_zero hsome))
  | cons vec vecs ih =>
      rw [List.length_cons] at hids hroom ⊢
      obtain ⟨next, hinsert, hnext, _, hcfg', _, hlinked⟩ :=
        h.insert_ok rt (by omega) (fun _ => by rwa [hcfg]) vec
      rw [insertAll, hinsert] at hrun
      have hlength : (layers ++ [index.sampleLayer]).length =
          layers.length + 1 := by simp
      have hnextWhole : Whole next (layers.length + 1) := by
        by_cases hlayers : layers = []
        · subst hlayers
          exact hnext.whole_single
        · obtain ⟨selected, hselected⟩ := hlinked hlayers
          exact (hwhole hlayers).linked h.graph hselected
            (by rw [hcfg]; omega) hlayers
      have hlast := ih hnext (hcfg'.trans hcfg)
        (fun _ => by rwa [hlength]) (by omega) (by omega) hrun (by omega)
      rwa [hlength, Nat.add_right_comm, Nat.add_assoc] at hlast

theorem Nearest.congr [LinearOrder D] {rt : Runtime V D}
    {index : HNSWIndex V} {query : V} {S T : ℕ → Prop} {k : ℕ}
    {out : List (HNSWSearchResult D)} (h : Nearest rt index query S k out)
    (hiff : ∀ i, S i ↔ T i) : Nearest rt index query T k out := by
  obtain ⟨all, hout, hnodup, hmem, hdist, hsorted⟩ := h
  exact ⟨all, hout, hnodup, fun i => (hmem i).trans (hiff i), hdist, hsorted⟩

/-- A search whose `ef` covers the index returns the nearest of the nodes that
layer 0 connects to the end of the descent.  These are all nodes while the
index is no larger than a list of layer 0 and one node more. -/
theorem search_exact_on_reachable [LinearOrder D] (rt : Runtime V D)
    {cfg : HNSWConfig} {rng : ℕ → ℕ} {index₀ : HNSWIndex V}
    (hnew : new cfg rng = .ok index₀) (hMmax0 : 1 ≤ cfg.Mmax0.toInt)
    (vecs : List V) (topK ef : Int32) (htopK : 1 ≤ topK.toInt)
    (hef : (vecs.length : ℤ) ≤ ef.toInt) :
    ∃ index, insertAll rt vecs index₀ = .ok index ∧ index.vectors = vecs ∧
      ∀ query, (vecs = [] ∧ search rt index query topK ef = .ok []) ∨
        ∃ ep out, SearchEntry rt index query ep ∧ ep < vecs.length ∧
          search rt index query topK ef = .ok out ∧
          Nearest rt index query (Relation.ReflTransGen (Link index 0) ep)
            topK.toInt.toNat out ∧
          ((vecs.length : ℤ) ≤ cfg.Mmax0.toInt + 1 →
            Nearest rt index query (fun i => i < vecs.length)
              topK.toInt.toNat out) := by
  have hefLt := Int32.toInt_lt ef
  obtain ⟨index, hrun, hrep, hvectors, hcfg⟩ :=
    insertAll_new rt hnew (by omega) vecs (by omega)
  have hlength : (sampledLayers cfg rng vecs.length).length = vecs.length := by
    simp [sampledLayers]
  refine ⟨index, hrun, hvectors, fun query => ?_⟩
  by_cases hvecs : vecs = []
  · left
    have hempty := hrep.empty (by simp [hvecs, sampledLayers])
    refine ⟨hvecs, ?_⟩
    rw [search, if_pos (by omega)]
    rfl
  · right
    have hpos := List.length_pos_iff.mpr hvecs
    have hlayers : sampledLayers cfg rng vecs.length ≠ [] :=
      List.ne_nil_of_length_pos (by omega)
    obtain ⟨ep, out, hentry, hep, hsearch, hnearest⟩ :=
      hrep.search_nearest rt hlayers query htopK (by rwa [hlength])
    have hepLt := hep.lt
    rw [hlength] at hepLt
    refine ⟨ep, out, hentry, hepLt, hsearch, hnearest, fun hsmall => ?_⟩
    have hmaxLinks : maxLinks cfg 0 = cfg.Mmax0.toInt.toNat := rfl
    have hcfg₀ : index₀.cfg = cfg := by rw [(new_eq_ok hnew).2]
    have hwhole : Whole index ([].length + vecs.length) :=
      (new_repInv hnew).insertAll_whole rt hcfg₀ (by omega)
        (fun hne => absurd rfl hne) vecs (by simp; omega)
        (by rw [hmaxLinks, List.length_nil]; omega) hrun (by simp; omega)
    rw [List.length_nil, Nat.zero_add] at hwhole
    have hclosed := hrep.closed index hrep.vectors.ge (fun _ _ => rfl) 0
    apply hnearest.congr
    intro i
    constructor
    · intro hreach
      have hi := (hclosed.reachable hep hreach).lt
      rwa [hlength] at hi
    · exact fun hi => hwhole.connected ep i hepLt hi

/-- Four points on a line: the far one loses every back link, and a search for
it returns another. -/
theorem far_vector_unfindable :
    ∃ index₀ index : HNSWIndex ℕ,
      new smallConfig (fun _ => 0) = .ok index₀ ∧
      insertAll numberLine [0, 1, 2, 100] index₀ = .ok index ∧
      search numberLine index 100 1 4 = .ok [⟨9604, 2⟩] ∧
      ¬ Nearest numberLine index 100 (fun i => i < 4) 1 [⟨9604, 2⟩] := by
  obtain ⟨index₀, hnew⟩ := new_smallConfig fun _ => 0
  obtain ⟨index, hrun, _, hvectors, _⟩ :=
    insertAll_new numberLine hnew (by decide) [0, 1, 2, 100] (by decide)
  have hsearch : (do
      let index₀ ← new smallConfig fun _ => 0
      let index ← insertAll numberLine [0, 1, 2, 100] index₀
      search numberLine index 100 1 4) = .ok [⟨9604, 2⟩] := by
    decide +kernel
  rw [hnew] at hsearch
  change (insertAll numberLine [0, 1, 2, 100] index₀ >>= _) = _ at hsearch
  rw [hrun] at hsearch
  refine ⟨index₀, index, hnew, hrun, hsearch, ?_⟩
  rintro ⟨all, hout, _, hmem, hdist, hsorted⟩
  obtain ⟨r, hr, hid⟩ := List.mem_map.mp ((hmem 3).mpr (by decide))
  obtain ⟨vec, hvec, hd⟩ := hdist r hr
  rw [hid, hvectors] at hvec
  cases all with
  | nil => cases hr
  | cons first rest =>
      rw [List.take_succ_cons, List.take_zero] at hout
      cases hout
      rcases List.mem_cons.mp hr with rfl | hr
      · cases hid
      · have hle := (List.pairwise_cons.mp hsorted).1 r hr
        cases hvec
        rw [hd] at hle
        exact absurd hle (by decide)

theorem search_exact_on_three_points :
    ∃ index₀ index : HNSWIndex ℕ,
      new smallConfig (fun _ => 0) = .ok index₀ ∧
      insertAll numberLine [0, 1, 100] index₀ = .ok index ∧
      ∃ out, search numberLine index 100 1 3 = .ok out ∧
        Nearest numberLine index 100 (fun i => i < 3) 1 out := by
  obtain ⟨index₀, hnew⟩ := new_smallConfig fun _ => 0
  obtain ⟨index, hrun, _, hsearch⟩ := search_exact_on_reachable numberLine
    hnew (by decide) [0, 1, 100] 1 3 (by decide) (by decide)
  refine ⟨index₀, index, hnew, hrun, ?_⟩
  rcases hsearch 100 with ⟨hnil, _⟩ | ⟨_, out, _, _, hout, _, hexact⟩
  · cases hnil
  · exact ⟨out, hout, hexact (by decide)⟩

end HNSWIndex
end VecDB
