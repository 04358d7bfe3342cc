import VecDB.HnswContents
import VecDB.LeastPrefix
import Mathlib.Data.Prod.Lex
import Mathlib.Tactic

/-!
# Links in one direction

An insertion links both ways, and pruning drops links on one side only.  What
pruning leaves of a list are the nearest of it, and a list is pruned only when
it is full.  So a node that does not return a link has a full list, and none of
its links is longer than the one it lacks.
-/

namespace VecDB

open LeastPrefix

/-! ## One list of the store -/

namespace NeighbourStore

theorem setNeighbours_eq_ok {adj adj' : NeighbourStore} {nodeId layer : ℕ}
    {list : List ℕ} (hok : adj.setNeighbours nodeId layer list = .ok adj')
    (i k : ℕ) : getNeighbours adj' i k =
      if i = nodeId ∧ k = layer then list else getNeighbours adj i k := by
  unfold setNeighbours at hok
  split_ifs at hok with hasserts
  cases hok
  unfold getNeighbours
  rw [getD_modify hasserts.1]
  by_cases hi : i = nodeId
  · subst hi
    rw [if_pos rfl]
    by_cases hk : k = layer
    · subst hk
      rw [if_pos ⟨rfl, rfl⟩, List.getD_eq_getElem?_getD,
        List.getElem?_set_self hasserts.2]
      rfl
    · rw [if_neg fun h => hk h.2, List.getD_eq_getElem?_getD,
        List.getElem?_set_ne (Ne.symm hk), ← List.getD_eq_getElem?_getD]
  · rw [if_neg hi, if_neg fun h => hi h.1]

theorem addNeighbour_eq_ok {adj adj' : NeighbourStore}
    {nodeId layer neighbour : ℕ}
    (hok : adj.addNeighbour nodeId layer neighbour = .ok adj') (i k : ℕ) :
    getNeighbours adj' i k =
      if i = nodeId ∧ k = layer then getNeighbours adj i k ++ [neighbour]
      else getNeighbours adj i k := by
  unfold addNeighbour at hok
  split_ifs at hok with hasserts
  cases hok
  unfold getNeighbours
  rw [getD_modify hasserts.1]
  by_cases hi : i = nodeId
  · subst hi
    rw [if_pos rfl]
    by_cases hk : k = layer
    · subst hk
      rw [getD_modify hasserts.2, if_pos rfl, if_pos ⟨rfl, rfl⟩]
    · rw [getD_modify hasserts.2, if_neg hk, if_neg fun h => hk h.2]
  · rw [if_neg hi, if_neg fun h => hi h.1]

end NeighbourStore

namespace HNSWIndex

open NeighbourStore

variable {V D : Type} [LinearOrder D] (rt : Runtime V D)

/-! ## What pruning keeps -/

/-- The length of a link from a node with the vector `v`. -/
def linkDist (vectors : List V) (v : V) (j : ℕ) : D :=
  rt.l2sq v (vectors.getD j v)

theorem pairLess_strictWeak : StrictWeak (pairLess (D := D)) := by
  have hlex : pairLess (D := D) = fun a b => decide (toLex a < toLex b) := by
    funext a b
    unfold pairLess
    rw [Bool.eq_iff_iff]
    simp only [Bool.or_eq_true, Bool.and_eq_true, Bool.not_eq_true',
      decide_eq_true_eq, decide_eq_false_iff_not, not_lt, Prod.Lex.toLex_lt_toLex]
    constructor
    · rintro (hlt | ⟨hle, hid⟩)
      · exact Or.inl hlt
      · rcases hle.lt_or_eq with hlt | heq
        · exact Or.inl hlt
        · exact Or.inr ⟨heq, hid⟩
    · rintro (hlt | ⟨heq, hid⟩)
      · exact Or.inl hlt
      · exact Or.inr ⟨heq.le, hid⟩
  rw [hlex]
  exact StrictWeak.ofKey toLex

variable {rt}

theorem mapM_dist_eq_ok {index : HNSWIndex V} {v : V} {nbrs : List ℕ}
    {pairs : List (D × ℕ)}
    (hok : nbrs.mapM (distNbr rt index v) = .ok pairs) :
    pairs = nbrs.map fun j => (linkDist rt index.vectors v j, j) := by
  induction nbrs generalizing pairs with
  | nil =>
      cases hok
      rfl
  | cons nbr nbrs ih =>
      rw [List.mapM_cons, except_bind_eq_ok] at hok
      obtain ⟨pair, hpair, hok⟩ := hok
      rw [except_bind_eq_ok] at hok
      obtain ⟨rest, hrest, hok⟩ := hok
      cases hok
      rw [distNbr, except_bind_eq_ok] at hpair
      obtain ⟨vec, hget, hpair⟩ := hpair
      cases hpair
      have hvec := getVector_eq_ok.mp hget
      rw [ih hrest, List.map_cons, linkDist, List.getD_eq_getElem?_getD, hvec]
      rfl

/-- Of the list of a node, pruning keeps the nearest. -/
theorem pruneConnections_least {index index' : HNSWIndex V}
    {nodeId layer : ℕ} {Mmax : Int32} {v : V}
    (hok : pruneConnections rt index nodeId layer Mmax = .ok index')
    (hv : index.vectors[nodeId]? = some v) :
    KeepsLeast (linkDist rt index.vectors v) Mmax.toInt.toNat
        (getNeighbours index.neighbours nodeId layer)
        (getNeighbours index'.neighbours nodeId layer) ∧
      ∀ i k, ¬ (i = nodeId ∧ k = layer) →
        getNeighbours index'.neighbours i k =
          getNeighbours index.neighbours i k := by
  unfold pruneConnections at hok
  dsimp only at hok
  split_ifs at hok with hshort hneg
  · cases hok
    exact ⟨keepsLeast_of_length_le (by omega), fun _ _ _ => rfl⟩
  · rw [except_bind_eq_ok] at hok
    obtain ⟨_, _, hok⟩ := hok
    rw [except_bind_eq_ok] at hok
    obtain ⟨_, _, hok⟩ := hok
    cases hok
  · rw [except_bind_eq_ok] at hok
    obtain ⟨v', hget, hok⟩ := hok
    rw [getVector_eq_ok, hv] at hget
    cases hget
    rw [except_bind_eq_ok] at hok
    obtain ⟨pairs, hpairs, hok⟩ := hok
    rw [except_bind_eq_ok] at hok
    obtain ⟨adj, hset, hok⟩ := hok
    cases hok
    have hmap := mapM_dist_eq_ok hpairs
    have hdist : ∀ pair ∈ rt.pairSorter.sort pairLess pairs,
        pair.1 = linkDist rt index.vectors v pair.2 := by
      intro pair hpair
      rw [(rt.pairSorter.perm _ _).mem_iff, hmap] at hpair
      obtain ⟨j, _, rfl⟩ := List.mem_map.mp hpair
      rfl
    have hsorted := rt.pairSorter.sorted pairLess pairs pairLess_strictWeak
    have hperm : ((rt.pairSorter.sort pairLess pairs).map Prod.snd).Perm
        (getNeighbours index.neighbours nodeId layer) := by
      refine ((rt.pairSorter.perm pairLess pairs).map Prod.snd).trans ?_
      rw [hmap, List.map_map]
      exact List.Perm.of_eq (List.map_id _)
    have hlist := setNeighbours_eq_ok hset
    refine ⟨?_, fun i k hne => by rw [hlist, if_neg hne]⟩
    dsimp only
    rw [hlist, if_pos ⟨rfl, rfl⟩]
    generalize rt.pairSorter.sort pairLess pairs = sorted
      at hdist hsorted hperm
    have hlength := hperm.length_eq
    rw [List.length_map] at hlength
    refine ⟨?_, (sorted.take Mmax.toInt.toNat).map Prod.snd,
      (sorted.drop Mmax.toInt.toNat).map Prod.snd, ?_, ?_, ?_,
      List.Subperm.refl _⟩
    · exact ((List.take_sublist _ _).map Prod.snd).subperm.trans
        hperm.subperm
    · rwa [← List.map_append, List.take_append_drop]
    · rw [List.length_map, List.length_take, hlength]
    · intro a ha b hb
      obtain ⟨near, hnear, rfl⟩ := List.mem_map.mp ha
      obtain ⟨far, hfar, rfl⟩ := List.mem_map.mp hb
      rw [← hdist near (List.mem_of_mem_take hnear),
        ← hdist far (List.mem_of_mem_drop hfar)]
      rw [← List.take_append_drop Mmax.toInt.toNat sorted] at hsorted
      have hless := (List.pairwise_append.mp hsorted).2.2 near hnear far hfar
      simp only [pairLess, Bool.or_eq_false_iff, decide_eq_false_iff_not,
        not_lt] at hless
      exact hless.1

theorem linkBack_least {id layer : ℕ} {Mmax : Int32} {nbrs : List ℕ}
    {index index' : HNSWIndex V} (hnodup : nbrs.Nodup)
    (hstored : ∀ i ∈ nbrs, i < index.vectors.length)
    (hok : linkBack rt id layer Mmax nbrs index = .ok index') :
    (∀ i k, ¬ (i ∈ nbrs ∧ k = layer) →
        getNeighbours index'.neighbours i k =
          getNeighbours index.neighbours i k) ∧
      ∀ i ∈ nbrs, ∀ v, index.vectors[i]? = some v →
        KeepsLeast (linkDist rt index.vectors v) Mmax.toInt.toNat
          (getNeighbours index.neighbours i layer ++ [id])
          (getNeighbours index'.neighbours i layer) := by
  induction nbrs generalizing index with
  | nil =>
      cases hok
      exact ⟨fun _ _ _ => rfl, by simp⟩
  | cons nbr nbrs ih =>
      rw [linkBack, except_bind_eq_ok] at hok
      obtain ⟨adj, hadd, hok⟩ := hok
      rw [except_bind_eq_ok] at hok
      obtain ⟨next, hprune, hok⟩ := hok
      obtain ⟨hnotMem, hnodup⟩ := List.nodup_cons.mp hnodup
      have hadded := addNeighbour_eq_ok hadd
      have hvectors : next.vectors = index.vectors := by
        rw [pruneConnections_eq rt hprune]
      have hnbr := hstored nbr List.mem_cons_self
      obtain ⟨hkept, hframe⟩ := pruneConnections_least hprune
        (List.getElem?_eq_getElem hnbr)
      dsimp only at hkept hframe
      rw [hadded, if_pos ⟨rfl, rfl⟩] at hkept
      obtain ⟨hsame, hback⟩ := ih hnodup
        (fun i hi => by
          rw [hvectors]
          exact hstored i (List.mem_cons_of_mem nbr hi)) hok
      have hfirst : ∀ i k, ¬ (i = nbr ∧ k = layer) →
          getNeighbours next.neighbours i k =
            getNeighbours index.neighbours i k := by
        intro i k hne
        rw [hframe i k hne, hadded, if_neg hne]
      refine ⟨fun i k hout => ?_, fun i hi v hv => ?_⟩
      · rw [hsame i k fun h => hout ⟨List.mem_cons_of_mem nbr h.1, h.2⟩]
        exact hfirst i k fun h => hout ⟨h.1 ▸ List.mem_cons_self, h.2⟩
      · rcases List.mem_cons.mp hi with rfl | hrest
        · rw [hsame i layer fun h => hnotMem h.1]
          rw [List.getElem?_eq_getElem hnbr] at hv
          cases hv
          exact hkept
        · have hne : ¬ (i = nbr ∧ layer = layer) := by
            rintro ⟨rfl, _⟩
            exact hnotMem hrest
          rw [hvectors] at hback
          rw [← hfirst i layer hne]
          exact hback i hrest v hv

/-! ## The links of a layer -/

variable (rt) in
/-- A node that does not return a link has a full list, and none of its links
is longer than the one it lacks. -/
def Returned (cfg : HNSWConfig) (vectors : List V) (adj : NeighbourStore)
    (layer : ℕ) : Prop :=
  ∀ i j, j ∈ getNeighbours adj i layer → i ∈ getNeighbours adj j layer ∨
    ∃ v, vectors[j]? = some v ∧
      Covers (linkDist rt vectors v) (maxLinks cfg layer)
        (getNeighbours adj j layer) (linkDist rt vectors v i)

variable (rt) in
/-- What linking node `id` to `selected` does to the lists of a layer. -/
structure NearestLinked (vectors : List V) (M id layer : ℕ)
    (selected : List ℕ) (adj adj' : NeighbourStore) : Prop where
  below : ∀ i ∈ selected, i < id
  own : getNeighbours adj' id layer = selected
  back : ∀ i ∈ selected, ∀ v, vectors[i]? = some v →
    KeepsLeast (linkDist rt vectors v) M
      (getNeighbours adj i layer ++ [id]) (getNeighbours adj' i layer)
  others : ∀ i, i ≠ id → i ∉ selected →
    getNeighbours adj' i layer = getNeighbours adj i layer

section Layer

variable {cfg : HNSWConfig} {vectors : List V} {adj adj' : NeighbourStore}
  {layer id : ℕ} {selected : List ℕ}

theorem Returned.of_eq (h : Returned rt cfg vectors adj layer)
    (hsame : ∀ i, getNeighbours adj' i layer = getNeighbours adj i layer) :
    Returned rt cfg vectors adj' layer := by
  intro i j hj
  rw [hsame] at hj ⊢
  exact h i j hj

/-- A vector behind the others changes the length of no link. -/
theorem Returned.append (h : Returned rt cfg vectors adj layer)
    (hmembers : ∀ i, ∀ j ∈ getNeighbours adj i layer, j < vectors.length)
    (howner : ∀ i, getNeighbours adj i layer ≠ [] → i < vectors.length)
    (vec : V) : Returned rt cfg (vectors ++ [vec]) adj layer := by
  have hdist : ∀ v, ∀ j < vectors.length,
      linkDist rt (vectors ++ [vec]) v j = linkDist rt vectors v j := by
    intro v j hj
    unfold linkDist
    rw [List.getD_append _ _ _ _ hj]
  intro i j hj
  rcases h i j hj with hback | ⟨v, hv, hcovers⟩
  · exact Or.inl hback
  · have hlt := (List.getElem?_eq_some_iff.mp hv).1
    refine Or.inr ⟨v, by rwa [List.getElem?_append_left hlt], ?_⟩
    rw [hdist v i (howner i (List.ne_nil_of_mem hj))]
    exact Covers.congr hcovers fun a ha => hdist v a (hmembers j a ha)

/-- A new node is linked both ways, but for the nodes whose lists are full of
nearer ones; and a list that is cut covers what it loses. -/
theorem Returned.linked (h : Returned rt cfg vectors adj layer)
    (hlinked : NearestLinked rt vectors (maxLinks cfg layer) id layer
      selected adj adj')
    (hid : id < vectors.length)
    (hfresh : ∀ i, id ∉ getNeighbours adj i layer) :
    Returned rt cfg vectors adj' layer := by
  have hstored : ∀ j ∈ selected, ∃ v, vectors[j]? = some v := by
    intro j hj
    exact ⟨_, List.getElem?_eq_getElem ((hlinked.below j hj).trans hid)⟩
  intro i j hj
  by_cases hi : i = id
  · subst hi
    rw [hlinked.own] at hj
    obtain ⟨v, hv⟩ := hstored j hj
    rcases KeepsLeast.mem_or_covers (hlinked.back j hj v hv)
      (List.mem_append_right _ (List.mem_singleton_self i)) with hin | hcovers
    · exact Or.inl hin
    · exact Or.inr ⟨v, hv, hcovers⟩
  · have hold : j ≠ id → j ∈ getNeighbours adj i layer := by
      intro hne
      by_cases hselected : i ∈ selected
      · obtain ⟨v, hv⟩ := hstored i hselected
        have hmem := (hlinked.back i hselected v hv).1.subset hj
        rcases List.mem_append.mp hmem with hmem | hmem
        · exact hmem
        · exact absurd (List.mem_singleton.mp hmem) hne
      · rwa [hlinked.others i hi hselected] at hj
    by_cases hjid : j = id
    · subst hjid
      left
      rw [hlinked.own]
      by_contra hselected
      rw [hlinked.others i hi hselected] at hj
      exact hfresh i hj
    · by_cases hselected : j ∈ selected
      · obtain ⟨v, hv⟩ := hstored j hselected
        have hback := hlinked.back j hselected v hv
        rcases h i j (hold hjid) with hmem | ⟨v', hv', hcovers⟩
        · rcases KeepsLeast.mem_or_covers hback
            (List.mem_append_left _ hmem) with hin | hcovers
          · exact Or.inl hin
          · exact Or.inr ⟨v, hv, hcovers⟩
        · rw [hv] at hv'
          cases hv'
          exact Or.inr ⟨v, hv, KeepsLeast.covers_of_covers hback
            (Covers.mono hcovers (List.sublist_append_left _ _).subperm)⟩
      · rw [hlinked.others j hjid hselected]
        exact h i j (hold hjid)

end Layer

/-! ## Insertions -/

theorem linkLayer_nearest (rt : Runtime V D) {index index' : HNSWIndex V}
    {layers : List ℕ} {layer ep ep' : ℕ} {vec : V}
    (hM : 0 ≤ (layerM index.cfg layer).toInt)
    (hvectors : index.vectors.length = layers.length + 1)
    (hnext : index.nextId = layers.length + 1)
    (hmembers : ∀ i, ∀ j ∈ getNeighbours index.neighbours i layer,
      AtLayer layers layer j)
    (hep : AtLayer layers layer ep)
    (hok : linkLayer rt index vec layers.length ep layer =
      .ok (index', ep')) :
    ∃ selected, NearestLinked rt index.vectors (maxLinks index.cfg layer)
      layers.length layer selected index.neighbours index'.neighbours := by
  have hclosed := closed_of_members (by omega) hmembers
  obtain ⟨candidates, hsearch, hfound, _⟩ := searchLayer_ok rt hclosed
    (fun i hi => by rw [hnext]; exact Nat.lt_succ_of_lt hi.lt) hep vec
    index.cfg.efConstruction
  obtain ⟨selected, hselect, hnodup, hselected, _, _⟩ :=
    hfound.selectNeighbours_ok hM
  rw [linkLayer, hsearch, except_bind_ok, hselect, except_bind_ok,
    except_bind_eq_ok] at hok
  obtain ⟨owned, hset, hok⟩ := hok
  rw [except_bind_eq_ok] at hok
  obtain ⟨linked, hlink, hok⟩ := hok
  have hindex : index' = linked := by
    cases candidates with
    | nil =>
        cases hok
        rfl
    | cons closest rest =>
        cases hok
        rfl
  subst hindex
  have howned := setNeighbours_eq_ok hset
  have hnotNew : ∀ i ∈ selected, ¬ (i = layers.length ∧ layer = layer) :=
    fun i hi h => (hselected i hi).lt.ne h.1
  obtain ⟨hsame, hback⟩ := linkBack_least hnodup
    (fun i hi => by
      dsimp only
      have := (hselected i hi).lt
      omega) hlink
  dsimp only at hsame hback
  refine ⟨selected, {
    below := fun i hi => (hselected i hi).lt
    own := ?_
    back := ?_
    others := ?_ }⟩
  · rw [hsame _ _ fun h => hnotNew _ h.1 ⟨rfl, rfl⟩, howned,
      if_pos ⟨rfl, rfl⟩]
  · intro i hi v hv
    have hkept := hback i hi v hv
    rwa [howned, if_neg (hnotNew i hi)] at hkept
  · intro i hi hout
    rw [hsame _ _ fun h => hout h.1, howned, if_neg fun h => hi h.1]

/-- The layers of a new node, from the top down; the hypotheses are those
under which they can be linked. -/
theorem linkLayers_returned (rt : Runtime V D) {orig : HNSWIndex V}
    {layers : List ℕ} (h : RepInv orig layers)
    (hMmax0 : 0 ≤ orig.cfg.Mmax0.toInt) {top : ℕ} (vec : V) (count : ℕ)
    (index index' : HNSWIndex V) (ep : ℕ) (hcfg : index.cfg = orig.cfg)
    (hgraph : GraphInv orig.cfg (layers ++ [top]) index.neighbours)
    (hvectors : index.vectors.length = layers.length + 1)
    (hnext : index.nextId = layers.length + 1)
    (huntouched : ∀ i, ∀ k < count,
      getNeighbours index.neighbours i k = getNeighbours orig.neighbours i k)
    (hep : 0 < count → AtLayer layers (count - 1) ep) (htop : count ≤ top + 1)
    (hcount : count ≤ orig.cfg.maxLayers.toInt.toNat)
    (hreturned : ∀ k, Returned rt orig.cfg index.vectors index.neighbours k)
    (hok : linkLayers rt vec layers.length count index ep = .ok index') :
    ∀ k, Returned rt orig.cfg index.vectors index'.neighbours k := by
  induction count generalizing index ep with
  | zero =>
      cases hok
      exact hreturned
  | succ layer ih =>
      have hsame : ∀ i, getNeighbours index.neighbours i layer =
          getNeighbours orig.neighbours i layer :=
        fun i => huntouched i layer (Nat.lt_succ_self layer)
      have hmembers : ∀ i, ∀ j ∈ getNeighbours index.neighbours i layer,
          AtLayer layers layer j := by
        intro i j hj
        rw [hsame] at hj
        exact (h.graph.list i layer).members j hj
      have hM : 0 ≤ (layerM index.cfg layer).toInt := by
        rw [hcfg]
        exact h.accepted.layerM_nonneg hMmax0 layer
      obtain ⟨linked, next, _, hrun, hnextAt, hshaped, hlinked, hframe⟩ :=
        linkLayer_ok rt index top vec hM (by rw [hcfg]; exact hgraph) hvectors
          hnext hmembers (hep (Nat.succ_pos layer)) (by rw [hcfg]; exact hcount)
      obtain ⟨selected, hnearest⟩ := linkLayer_nearest rt hM hvectors hnext
        hmembers (hep (Nat.succ_pos layer)) hrun
      rw [hcfg] at hshaped hlinked hnearest
      rw [linkLayers, hrun] at hok
      refine ih { index with neighbours := linked } next hcfg
        (hgraph.linkedLayer (by omega) hmembers hshaped hlinked hframe)
        hvectors hnext
        (fun i k hk => (hframe i k hk.ne).trans (huntouched i k (by omega)))
        (fun _ => hnextAt.mono (Nat.sub_le layer 1)) (by omega) (by omega)
        (fun k => ?_) hok
      by_cases hk : k = layer
      · subst hk
        exact (hreturned k).linked hnearest (by omega)
          fun i hmem => (hmembers i _ hmem).lt.ne rfl
      · exact (hreturned k).of_eq fun i => hframe i k hk

/-- The links of an index, at every layer. -/
def AllReturned (rt : Runtime V D) (index : HNSWIndex V) : Prop :=
  ∀ layer, Returned rt index.cfg index.vectors index.neighbours layer

theorem RepInv.returned_of_single (rt : Runtime V D) {index : HNSWIndex V}
    {top : ℕ} (h : RepInv index [top]) : AllReturned rt index := by
  intro layer i j hj
  have hlist := h.graph.list i layer
  have hi : i < 1 := (hlist.owner (List.ne_nil_of_mem hj)).lt
  have hlt : j < 1 := (hlist.members j hj).lt
  have hself : j = i := by omega
  subst hself
  exact absurd hj hlist.not_self

theorem RepInv.insert_returned (rt : Runtime V D) {index index' : HNSWIndex V}
    {layers : List ℕ} (h : RepInv index layers)
    (hroom : layers.length + 1 < 2 ^ 32)
    (hMmax0 : layers ≠ [] → 0 ≤ index.cfg.Mmax0.toInt)
    (hreturned : AllReturned rt index) {vec : V} {id : ℕ}
    (hok : insert rt index vec = .ok (id, index')) :
    AllReturned rt index' := by
  by_cases hlayers : layers = []
  · subst hlayers
    obtain ⟨single, hinsert, hrep, _⟩ := h.insert_ok rt hroom hMmax0 vec
    rw [hinsert] at hok
    cases hok
    exact hrep.returned_of_single rt
  · obtain ⟨hvectors, hnext, hgraph, hlists⟩ := h.allocate hroom vec
    have hlength : (index.allocate vec).vectors.length =
        layers.length + 1 := by
      rw [hvectors, List.length_append, List.length_singleton, h.vectors]
    obtain ⟨curMax, hmax, hcurMax, hentry⟩ := h.maxLayer_eq hlayers
    have hclosed := h.closed (index.allocate vec) (by omega) hlists
    obtain ⟨ep, hrun, hep⟩ :=
      insertDescent_ok rt vec hclosed index.sampleLayer hentry
    have hstart : AllReturned rt (index.allocate vec) := by
      intro layer
      have hgrown := (hreturned layer).append
        (fun i j hj => by
          rw [h.vectors]
          exact ((h.graph.list i layer).members j hj).lt)
        (fun i hne => by
          rw [h.vectors]
          exact ((h.graph.list i layer).owner hne).lt) vec
      rw [← hvectors] at hgrown
      exact hgrown.of_eq fun i => hlists i layer
    rw [insert, h.nextId, hmax] at hok
    rw [if_neg (by omega), Int.toNat_natCast] at hok
    change (greedyDescent rt (index.allocate vec) vec _ _ index.entryPoint
      >>= _) = _ at hok
    rw [hrun, except_bind_ok, except_bind_eq_ok] at hok
    obtain ⟨linked, hlink, hok⟩ := hok
    obtain ⟨adj, hadj, _⟩ := linkLayers_ok rt h (hMmax0 hlayers) vec
      (min index.sampleLayer curMax + 1) (index.allocate vec) ep rfl hgraph
      hlength hnext (fun i k _ => hlists i k) (fun _ => hep) (by omega)
      (by omega)
    have hfinal := linkLayers_returned rt h (hMmax0 hlayers) vec
      (min index.sampleLayer curMax + 1) (index.allocate vec) linked ep rfl
      hgraph hlength hnext (fun i k _ => hlists i k) (fun _ => hep) (by omega)
      (by omega) hstart hlink
    rw [hadj] at hlink
    cases hlink
    split_ifs at hok with htop
    · cases hok
      exact hfinal
    · cases hok
      exact hfinal

end HNSWIndex
end VecDB
