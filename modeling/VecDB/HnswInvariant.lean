import VecDB.HnswLinks
import Mathlib.Tactic

/-!
# The representation invariant of the index

The invariant carries the layer sampled for every node as ghost state.  An
insertion touches one layer at a time: the lists of the layers below are those
of the index before it, so the new node, which has its id already, is in none
of the lists that a search walks through.
-/

namespace VecDB
namespace HNSWIndex

open NeighbourStore

/-- The node exists and its sampled layer is `layer` or higher. -/
def AtLayer (layers : List ℕ) (layer i : ℕ) : Prop :=
  ∃ top, layers[i]? = some top ∧ layer ≤ top

theorem AtLayer.lt {layers : List ℕ} {layer i : ℕ}
    (h : AtLayer layers layer i) : i < layers.length := by
  obtain ⟨top, htop, _⟩ := h
  exact (List.getElem?_eq_some_iff.mp htop).1

theorem AtLayer.mono {layers : List ℕ} {lower upper i : ℕ}
    (h : AtLayer layers upper i) (hle : lower ≤ upper) :
    AtLayer layers lower i := by
  obtain ⟨top, htop, hlayer⟩ := h
  exact ⟨top, htop, hle.trans hlayer⟩

theorem AtLayer.append {layers : List ℕ} {layer i : ℕ}
    (h : AtLayer layers layer i) (more : List ℕ) :
    AtLayer (layers ++ more) layer i := by
  obtain ⟨top, htop, hlayer⟩ := h
  have hlt := (List.getElem?_eq_some_iff.mp htop).1
  exact ⟨top, by rw [List.getElem?_append_left hlt]; exact htop, hlayer⟩

theorem atLayer_new (layers : List ℕ) {top layer : ℕ} (hle : layer ≤ top) :
    AtLayer (layers ++ [top]) layer layers.length :=
  ⟨top, by simp, hle⟩

/-- The bound of a list at a layer. -/
def maxLinks (cfg : HNSWConfig) (layer : ℕ) : ℕ :=
  (layerM cfg layer).toInt.toNat

/-- The list of node `i` at a layer. -/
structure ListInv (cfg : HNSWConfig) (layers : List ℕ) (i layer : ℕ)
    (list : List ℕ) : Prop where
  nodup : list.Nodup
  not_self : i ∉ list
  members : ∀ j ∈ list, AtLayer layers layer j
  owner : list ≠ [] → AtLayer layers layer i
  length_le : list.length ≤ maxLinks cfg layer

structure GraphInv (cfg : HNSWConfig) (layers : List ℕ)
    (adj : NeighbourStore) : Prop where
  shaped : adj.Shaped layers.length cfg.maxLayers.toInt.toNat
  list : ∀ i layer,
    ListInv cfg layers i layer (getNeighbours adj i layer)

/-- What the constructor checks. -/
structure Accepted (cfg : HNSWConfig) : Prop where
  dim : 0 < cfg.dim.toInt
  M : 2 ≤ cfg.M.toInt
  efConstruction : 1 ≤ cfg.efConstruction.toInt
  maxLayers : 1 ≤ cfg.maxLayers.toInt

variable {V D : Type} [Preorder D] [DecidableLT D]

structure RepInv (index : HNSWIndex V) (layers : List ℕ) : Prop where
  accepted : Accepted index.cfg
  nextId : index.nextId = layers.length
  nextId_lt : layers.length < 2 ^ 32
  vectors : index.vectors.length = layers.length
  layer_lt : ∀ top ∈ layers, (top : ℤ) < index.cfg.maxLayers.toInt
  empty : layers = [] → index.maxLayer = -1
  entry : layers ≠ [] → ∃ top, layers[index.entryPoint]? = some top ∧
    index.maxLayer = top
  graph : GraphInv index.cfg layers index.neighbours

/-! ## One layer of an insertion -/

/-- What linking the new node at a layer does to the lists there. -/
structure LinkedLayer (cfg : HNSWConfig) (layers : List ℕ) (layer : ℕ)
    (selected : List ℕ) (adj adj' : NeighbourStore) : Prop where
  nodup : selected.Nodup
  atLayer : ∀ i ∈ selected, AtLayer layers layer i
  length_le : selected.length ≤ maxLinks cfg layer
  ne_nil : 0 < maxLinks cfg layer → selected ≠ []
  own : getNeighbours adj' layers.length layer = selected
  back : ∀ i ∈ selected, Cut (maxLinks cfg layer)
    (getNeighbours adj i layer ++ [layers.length])
    (getNeighbours adj' i layer)
  others : ∀ i, i ≠ layers.length → i ∉ selected →
    getNeighbours adj' i layer = getNeighbours adj i layer

theorem LinkedLayer.congr {cfg : HNSWConfig} {layers : List ℕ} {layer : ℕ}
    {selected : List ℕ} {adj adj' orig last : NeighbourStore}
    (h : LinkedLayer cfg layers layer selected adj adj')
    (hbefore : ∀ i, getNeighbours adj i layer = getNeighbours orig i layer)
    (hafter : ∀ i, getNeighbours last i layer = getNeighbours adj' i layer) :
    LinkedLayer cfg layers layer selected orig last where
  nodup := h.nodup
  atLayer := h.atLayer
  length_le := h.length_le
  ne_nil := h.ne_nil
  own := by rw [hafter, h.own]
  back := by
    intro i hi
    rw [hafter, ← hbefore]
    exact h.back i hi
  others := by
    intro i hi hout
    rw [hafter, ← hbefore]
    exact h.others i hi hout

/-- A list that gets the new node and is cut to the bound. -/
theorem ListInv.linked {cfg : HNSWConfig} {layers : List ℕ}
    {top layer i : ℕ} {list list' : List ℕ}
    (h : ListInv cfg (layers ++ [top]) i layer list) (hlayer : layer ≤ top)
    (hi : AtLayer layers layer i) (hnew : layers.length ∉ list)
    (hcut : Cut (maxLinks cfg layer) (list ++ [layers.length]) list') :
    ListInv cfg (layers ++ [top]) i layer list' := by
  have hmem : ∀ j ∈ list', j ∈ list ∨ j = layers.length := by
    intro j hj
    simpa using hcut.subperm.subset hj
  exact {
    nodup := by
      have hwhole : (list ++ [layers.length]).Nodup := by
        rw [List.nodup_append]
        refine ⟨h.nodup, List.nodup_singleton _, ?_⟩
        intro a ha b hb heq
        rw [List.mem_singleton.mp hb] at heq
        exact hnew (heq ▸ ha)
      obtain ⟨l, hperm, hsublist⟩ := hcut.subperm
      exact hperm.nodup_iff.mp (hwhole.sublist hsublist)
    not_self := by
      intro hself
      rcases hmem i hself with hself | hself
      · exact h.not_self hself
      · exact hi.lt.ne hself
    members := by
      intro j hj
      rcases hmem j hj with hj | rfl
      · exact h.members j hj
      · exact atLayer_new layers hlayer
    owner := fun _ => hi.append [top]
    length_le := hcut.length_le }

theorem LinkedLayer.listInv_new {cfg : HNSWConfig} {layers : List ℕ}
    {top layer : ℕ} {selected : List ℕ} {adj adj' : NeighbourStore}
    (h : LinkedLayer cfg layers layer selected adj adj')
    (hlayer : layer ≤ top) :
    ListInv cfg (layers ++ [top]) layers.length layer selected where
  nodup := h.nodup
  not_self := fun hmem => (h.atLayer _ hmem).lt.ne rfl
  members := fun j hj => (h.atLayer j hj).append [top]
  owner := fun _ => atLayer_new layers hlayer
  length_le := h.length_le

theorem GraphInv.linkedLayer {cfg : HNSWConfig} {layers : List ℕ}
    {top layer : ℕ} {selected : List ℕ} {adj adj' : NeighbourStore}
    (h : GraphInv cfg (layers ++ [top]) adj) (hlayer : layer ≤ top)
    (hfresh : ∀ i, ∀ j ∈ getNeighbours adj i layer, AtLayer layers layer j)
    (hshaped : adj'.Shaped (layers ++ [top]).length cfg.maxLayers.toInt.toNat)
    (hlinked : LinkedLayer cfg layers layer selected adj adj')
    (hframe : ∀ i k, k ≠ layer →
      getNeighbours adj' i k = getNeighbours adj i k) :
    GraphInv cfg (layers ++ [top]) adj' := by
  refine ⟨hshaped, fun i k => ?_⟩
  by_cases hk : k = layer
  · subst hk
    by_cases hi : i = layers.length
    · subst hi
      rw [hlinked.own]
      exact hlinked.listInv_new hlayer
    · by_cases hselected : i ∈ selected
      · have hnew : layers.length ∉ getNeighbours adj i k :=
          fun hmem => (hfresh i _ hmem).lt.ne rfl
        exact (h.list i k).linked hlayer (hlinked.atLayer i hselected) hnew
          (hlinked.back i hselected)
      · rw [hlinked.others i hi hselected]
        exact h.list i k
  · rw [hframe i k hk]
    exact h.list i k

/-- The links of a new node are nodes that the search of the layer found. -/
theorem Found.selectNeighbours_ok {rt : Runtime V D} {index : HNSWIndex V}
    {query : V} {ef M : Int32} {S : ℕ → Prop}
    {candidates : List (HNSWSearchResult D)}
    (h : Found rt index query ef S candidates) (hM : 0 ≤ M.toInt) :
    ∃ selected, selectNeighbours candidates M = .ok selected ∧
      selected.Nodup ∧ (∀ i ∈ selected, S i) ∧
      selected.length ≤ M.toInt.toNat ∧
      (0 < M.toInt.toNat → selected ≠ []) := by
  have hpos := List.length_pos_iff.mpr h.ne_nil
  refine ⟨ids (candidates.take (min M.toInt candidates.length).toNat), ?_, ?_,
    ?_, ?_, ?_⟩
  · unfold selectNeighbours
    dsimp only
    rw [if_neg (by omega)]
    rfl
  · exact h.nodup.sublist ((List.take_sublist _ _).map _)
  · intro i hi
    obtain ⟨r, hr, rfl⟩ := List.mem_map.mp hi
    exact (h.mem r (List.mem_of_mem_take hr)).1
  · simp only [ids, List.length_map, List.length_take]
    omega
  · intro hlinks hnil
    have hzero := congrArg List.length hnil
    simp only [ids, List.length_map, List.length_take, List.length_nil]
      at hzero
    omega

/-- Where a search of a layer can go while the layer is as it was before the
insertion. -/
theorem closed_of_members {index : HNSWIndex V} {layers : List ℕ} {layer : ℕ}
    (hvectors : layers.length ≤ index.vectors.length)
    (hmembers : ∀ i, ∀ j ∈ getNeighbours index.neighbours i layer,
      AtLayer layers layer j) :
    Closed index layer (AtLayer layers layer) where
  stored := fun _ hi => hi.lt.trans_le hvectors
  links := fun i _ j hj => hmembers i j hj

theorem linkLayer_ok (rt : Runtime V D) (index : HNSWIndex V)
    {layers : List ℕ} (top : ℕ) {layer ep : ℕ} (vec : V)
    (hM : 0 ≤ (layerM index.cfg layer).toInt)
    (hgraph : GraphInv index.cfg (layers ++ [top]) index.neighbours)
    (hvectors : index.vectors.length = layers.length + 1)
    (hnext : index.nextId = layers.length + 1)
    (hmembers : ∀ i, ∀ j ∈ getNeighbours index.neighbours i layer,
      AtLayer layers layer j)
    (hep : AtLayer layers layer ep)
    (hlayer : layer < index.cfg.maxLayers.toInt.toNat) :
    ∃ adj' ep' selected,
      linkLayer rt index vec layers.length ep layer =
          .ok ({ index with neighbours := adj' }, ep') ∧
        AtLayer layers layer ep' ∧
        adj'.Shaped (layers ++ [top]).length index.cfg.maxLayers.toInt.toNat ∧
        LinkedLayer index.cfg layers layer selected index.neighbours adj' ∧
        ∀ i k, k ≠ layer →
          getNeighbours adj' i k = getNeighbours index.neighbours i k := by
  have hclosed := closed_of_members (by omega) hmembers
  have hlength : (layers ++ [top]).length = layers.length + 1 := by simp
  have hid : layers.length < (layers ++ [top]).length := by omega
  obtain ⟨candidates, hsearch, hfound, _⟩ := searchLayer_ok rt hclosed
    (fun i hi => by rw [hnext]; exact Nat.lt_succ_of_lt hi.lt) hep vec
    index.cfg.efConstruction
  obtain ⟨selected, hselect, hnodup, hselected, hlength_le, hne_nil⟩ :=
    hfound.selectNeighbours_ok hM
  obtain ⟨closest, rest, rfl⟩ := List.exists_cons_of_ne_nil hfound.ne_nil
  have hnotNew : ∀ i ∈ selected, ¬ (i = layers.length ∧ layer = layer) :=
    fun i hi h => (hselected i hi).lt.ne h.1
  obtain ⟨owned, hset, hshaped₁, hlists₁⟩ :=
    hgraph.shaped.setNeighbours hid hlayer selected
  have hback : ∀ i ∈ selected, i < (layers ++ [top]).length ∧
      ∀ j ∈ getNeighbours owned i layer, j < (layers ++ [top]).length := by
    intro i hi
    refine ⟨(hselected i hi).lt.trans hid, fun j hj => ?_⟩
    rw [hlists₁, if_neg (hnotNew i hi)] at hj
    exact (hmembers i j hj).lt.trans hid
  obtain ⟨adj', hlink, hshaped, hsame, hcut⟩ := linkBack_ok rt hM hid hlayer
    selected hnodup { index with neighbours := owned } hshaped₁
    (by dsimp only; omega) hback
  have hrun : linkLayer rt index vec layers.length ep layer =
      .ok ({ index with neighbours := adj' }, closest.nodeId) := by
    rw [linkLayer, hsearch]
    change (selectNeighbours (closest :: rest) _ >>= _) = _
    rw [hselect]
    change (index.neighbours.setNeighbours layers.length layer selected >>= _)
      = _
    rw [hset]
    change (linkBack rt layers.length layer _ selected _ >>= _) = _
    rw [hlink]
    rfl
  have hlinked : LinkedLayer index.cfg layers layer selected
      index.neighbours adj' := {
    nodup := hnodup
    atLayer := hselected
    length_le := hlength_le
    ne_nil := hne_nil
    own := by
      rw [hsame _ _ fun h => hnotNew _ h.1 ⟨rfl, rfl⟩, hlists₁,
        if_pos ⟨rfl, rfl⟩]
    back := by
      intro i hi
      have hcut' := hcut i hi
      rwa [hlists₁, if_neg (hnotNew i hi)] at hcut'
    others := by
      intro i hi hout
      rw [hsame _ _ fun h => hout h.1, hlists₁, if_neg fun h => hi h.1] }
  have hframe : ∀ i k, k ≠ layer →
      getNeighbours adj' i k = getNeighbours index.neighbours i k := by
    intro i k hk
    rw [hsame _ _ fun h => hk h.2, hlists₁, if_neg fun h => hk h.2]
  exact ⟨adj', closest.nodeId, selected, hrun,
    (hfound.mem closest List.mem_cons_self).1, hshaped, hlinked, hframe⟩

theorem Accepted.layerM_nonneg {cfg : HNSWConfig} (h : Accepted cfg)
    (hMmax0 : 0 ≤ cfg.Mmax0.toInt) (layer : ℕ) :
    0 ≤ (layerM cfg layer).toInt := by
  have hM := h.M
  unfold layerM
  split_ifs
  · exact hMmax0
  · omega

/-- The layers of a new node, from the top down: `orig` is the index before
the insertion, and below `count` the lists are still its own. -/
theorem linkLayers_ok (rt : Runtime V D) {orig : HNSWIndex V}
    {layers : List ℕ} (h : RepInv orig layers)
    (hMmax0 : 0 ≤ orig.cfg.Mmax0.toInt) {top : ℕ} (vec : V) (count : ℕ)
    (index : HNSWIndex V) (ep : ℕ) (hcfg : index.cfg = orig.cfg)
    (hgraph : GraphInv orig.cfg (layers ++ [top]) index.neighbours)
    (hvectors : index.vectors.length = layers.length + 1)
    (hnext : index.nextId = layers.length + 1)
    (huntouched : ∀ i, ∀ k < count,
      getNeighbours index.neighbours i k = getNeighbours orig.neighbours i k)
    (hep : 0 < count → AtLayer layers (count - 1) ep) (htop : count ≤ top + 1)
    (hcount : count ≤ orig.cfg.maxLayers.toInt.toNat) :
    ∃ adj', linkLayers rt vec layers.length count index ep =
        .ok { index with neighbours := adj' } ∧
      GraphInv orig.cfg (layers ++ [top]) adj' ∧
      (∀ i k, count ≤ k →
        getNeighbours adj' i k = getNeighbours index.neighbours i k) ∧
      (0 < count → ∃ selected,
        LinkedLayer orig.cfg layers 0 selected orig.neighbours adj') := by
  induction count generalizing index ep with
  | zero =>
      exact ⟨index.neighbours, rfl, hgraph, fun _ _ _ => rfl,
        fun hpos => absurd hpos (lt_irrefl 0)⟩
  | succ layer ih =>
      have hsame : ∀ i, getNeighbours index.neighbours i layer =
          getNeighbours orig.neighbours i layer :=
        fun i => huntouched i layer (Nat.lt_succ_self layer)
      have hmembers : ∀ i, ∀ j ∈ getNeighbours index.neighbours i layer,
          AtLayer layers layer j := by
        intro i j hj
        rw [hsame] at hj
        exact (h.graph.list i layer).members j hj
      obtain ⟨linked, next, selected, hrun, hnextAt, hshaped, hlinked,
          hframe⟩ := linkLayer_ok rt index top vec
        (by rw [hcfg]; exact h.accepted.layerM_nonneg hMmax0 layer)
        (by rw [hcfg]; exact hgraph) hvectors hnext hmembers
        (hep (Nat.succ_pos layer)) (by rw [hcfg]; exact hcount)
      rw [hcfg] at hshaped hlinked
      have hgraph' := hgraph.linkedLayer (by omega) hmembers hshaped hlinked
        hframe
      obtain ⟨adj', hrest, hinv, hkept, hzero⟩ := ih
        { index with neighbours := linked } next hcfg hgraph' hvectors hnext
        (fun i k hk => (hframe i k hk.ne).trans (huntouched i k (by omega)))
        (fun _ => hnextAt.mono (Nat.sub_le layer 1)) (by omega) (by omega)
      refine ⟨adj', ?_, hinv, ?_, fun _ => ?_⟩
      · rw [linkLayers, hrun]
        exact hrest
      · intro i k hk
        rw [hkept i k (by omega)]
        exact hframe i k (by omega)
      · rcases Nat.eq_zero_or_pos layer with rfl | hpos
        · exact ⟨selected, hlinked.congr hsame fun i => hkept i 0 le_rfl⟩
        · exact hzero hpos

/-! ## Descent, insertion and search -/

/-- What the walks through the layers keep holds of the node they end at. -/
theorem greedyDescent_holds (rt : Runtime V D) {index : HNSWIndex V}
    (query : V) {S : ℕ → ℕ → Prop}
    (hclosed : ∀ layer, Closed index layer (S layer))
    (hdown : ∀ layer i, S (layer + 1) i → S layer i)
    (bottom steps ep : ℕ) (hep : S (bottom + steps) ep) :
    ∃ i, greedyDescent rt index query bottom steps ep = .ok i ∧
      S bottom i := by
  induction steps generalizing ep with
  | zero => exact ⟨ep, rfl, hep⟩
  | succ steps ih =>
      obtain ⟨next, hrun, hnext⟩ :=
        greedySearchLayer_ok rt query (hclosed _) hep
      obtain ⟨i, hrest, hi⟩ := ih next (hdown _ _ hnext)
      refine ⟨i, ?_, hi⟩
      rw [greedyDescent, hrun]
      exact hrest

theorem greedyDescent_ok (rt : Runtime V D) {index : HNSWIndex V}
    {layers : List ℕ} (query : V)
    (hclosed : ∀ layer, Closed index layer (AtLayer layers layer))
    (bottom steps ep : ℕ) (hep : AtLayer layers (bottom + steps) ep) :
    ∃ i, greedyDescent rt index query bottom steps ep = .ok i ∧
      AtLayer layers bottom i :=
  greedyDescent_holds rt query hclosed
    (fun _ _ habove => habove.mono (by omega)) bottom steps ep hep

/-- The descent of an insertion ends at the layer where linking starts. -/
theorem insertDescent_ok (rt : Runtime V D) {index : HNSWIndex V}
    {layers : List ℕ} (vec : V)
    (hclosed : ∀ layer, Closed index layer (AtLayer layers layer))
    (top : ℕ) {curMax entryPoint : ℕ}
    (hentry : AtLayer layers curMax entryPoint) :
    ∃ ep, greedyDescent rt index vec top (curMax - top) entryPoint = .ok ep ∧
      AtLayer layers (min top curMax) ep := by
  rcases Nat.le_total top curMax with hle | hle
  · rw [Nat.min_eq_left hle]
    exact greedyDescent_ok rt vec hclosed _ _ _
      (by rwa [Nat.add_sub_cancel' hle])
  · rw [Nat.min_eq_right hle, Nat.sub_eq_zero_of_le hle]
    exact ⟨entryPoint, rfl, hentry⟩

theorem RepInv.closed {orig : HNSWIndex V} {layers : List ℕ}
    (h : RepInv orig layers) (index : HNSWIndex V)
    (hvectors : layers.length ≤ index.vectors.length)
    (hlists : ∀ i k, getNeighbours index.neighbours i k =
      getNeighbours orig.neighbours i k) (layer : ℕ) :
    Closed index layer (AtLayer layers layer) := by
  apply closed_of_members hvectors
  intro i j hj
  rw [hlists] at hj
  exact (h.graph.list i layer).members j hj

theorem RepInv.sampleLayer_lt {index : HNSWIndex V} {layers : List ℕ}
    (h : RepInv index layers) :
    (index.sampleLayer : ℤ) < index.cfg.maxLayers.toInt := by
  have hmaxLayers := h.accepted.maxLayers
  unfold sampleLayer
  omega

theorem RepInv.maxLayer_eq {index : HNSWIndex V} {layers : List ℕ}
    (h : RepInv index layers) (hlayers : layers ≠ []) :
    ∃ top : ℕ, index.maxLayer = top ∧
      (top : ℤ) < index.cfg.maxLayers.toInt ∧
      AtLayer layers top index.entryPoint := by
  obtain ⟨top, hentry, hmax⟩ := h.entry hlayers
  exact ⟨top, hmax, h.layer_lt top (List.mem_of_getElem? hentry), top, hentry,
    le_rfl⟩

theorem RepInv.allocate {index : HNSWIndex V} {layers : List ℕ}
    (h : RepInv index layers) (hroom : layers.length + 1 < 2 ^ 32) (vec : V) :
    (index.allocate vec).vectors = index.vectors ++ [vec] ∧
      (index.allocate vec).nextId = layers.length + 1 ∧
      GraphInv index.cfg (layers ++ [index.sampleLayer])
        (index.allocate vec).neighbours ∧
      ∀ i k, getNeighbours (index.allocate vec).neighbours i k =
        getNeighbours index.neighbours i k := by
  have hnext : (index.nextId + 1) % 2 ^ 32 = layers.length + 1 := by
    rw [h.nextId, Nat.mod_eq_of_lt hroom]
  obtain ⟨hshaped, hlists⟩ := h.graph.shaped.resize_succ rfl
  have hneighbours : (index.allocate vec).neighbours =
      index.neighbours.resize (layers.length + 1) index.cfg.maxLayers := by
    rw [HNSWIndex.allocate, hnext]
  refine ⟨?_, hnext, ⟨?_, ?_⟩, ?_⟩
  · rw [HNSWIndex.allocate, h.nextId, ← h.vectors, List.take_length]
  · rw [hneighbours, List.length_append, List.length_singleton]
    exact hshaped
  · intro i k
    rw [hneighbours, hlists]
    have hlist := h.graph.list i k
    exact {
      nodup := hlist.nodup
      not_self := hlist.not_self
      members := fun j hj => (hlist.members j hj).append _
      owner := fun hne => (hlist.owner hne).append _
      length_le := hlist.length_le }
  · intro i k
    rw [hneighbours, hlists]

/-- The invariant of the index with the new node, whichever node is the entry
point. -/
theorem RepInv.allocated {index : HNSWIndex V} {layers : List ℕ}
    (h : RepInv index layers) (hroom : layers.length + 1 < 2 ^ 32) (vec : V)
    {adj : NeighbourStore} {entryPoint : ℕ} {maxLayer : ℤ}
    (hgraph : GraphInv index.cfg (layers ++ [index.sampleLayer]) adj)
    (hentry : ∃ top : ℕ,
      (layers ++ [index.sampleLayer])[entryPoint]? = some top ∧
        maxLayer = top) :
    RepInv { index.allocate vec with
      neighbours := adj
      entryPoint := entryPoint
      maxLayer := maxLayer } (layers ++ [index.sampleLayer]) := by
  obtain ⟨hvectors, hnext, _, _⟩ := h.allocate hroom vec
  exact {
    accepted := h.accepted
    nextId := by simpa using hnext
    nextId_lt := by simpa using hroom
    vectors := by
      dsimp only
      rw [hvectors, List.length_append, List.length_append, h.vectors]
      rfl
    layer_lt := by
      intro top htop
      rcases List.mem_append.mp htop with htop | htop
      · exact h.layer_lt top htop
      · rw [List.mem_singleton.mp htop]
        exact h.sampleLayer_lt
    empty := by simp
    entry := fun _ => hentry
    graph := hgraph }

/-- An insertion that has an id left gives the next index, whose lists at
layer 0 are the old ones but for the new node and those it selected. -/
theorem RepInv.insert_ok (rt : Runtime V D) {index : HNSWIndex V}
    {layers : List ℕ} (h : RepInv index layers)
    (hroom : layers.length + 1 < 2 ^ 32)
    (hMmax0 : layers ≠ [] → 0 ≤ index.cfg.Mmax0.toInt) (vec : V) :
    ∃ index', insert rt index vec = .ok (layers.length, index') ∧
      RepInv index' (layers ++ [index.sampleLayer]) ∧
      index'.vectors = index.vectors ++ [vec] ∧
      index'.cfg = index.cfg ∧ index'.rng = (fun i => index.rng (i + 1)) ∧
      (layers ≠ [] → ∃ selected, LinkedLayer index.cfg layers 0 selected
        index.neighbours index'.neighbours) := by
  obtain ⟨hvectors, hnext, hgraph, hlists⟩ := h.allocate hroom vec
  have hlength : (index.allocate vec).vectors.length = layers.length + 1 := by
    rw [hvectors, List.length_append, List.length_singleton, h.vectors]
  have hnew : (layers ++ [index.sampleLayer])[layers.length]? =
      some index.sampleLayer := by simp
  by_cases hlayers : layers = []
  · have hempty := h.empty hlayers
    refine ⟨{ index.allocate vec with
      entryPoint := layers.length
      maxLayer := index.sampleLayer }, ?_,
      h.allocated hroom vec hgraph ⟨_, hnew, rfl⟩, hvectors, rfl, rfl,
      fun hne => absurd hlayers hne⟩
    rw [insert, ← h.nextId]
    dsimp only
    rw [if_pos (by omega)]
    rfl
  · obtain ⟨curMax, hmax, hcurMax, hentry⟩ := h.maxLayer_eq hlayers
    have hclosed := h.closed (index.allocate vec) (by omega) hlists
    obtain ⟨ep, hrun, hep⟩ :=
      insertDescent_ok rt vec hclosed index.sampleLayer hentry
    obtain ⟨adj', hlink, hgraph', _, hselected⟩ := linkLayers_ok rt h
      (hMmax0 hlayers) vec (min index.sampleLayer curMax + 1)
      (index.allocate vec) ep rfl hgraph hlength hnext
      (fun i k _ => hlists i k) (fun _ => hep) (by omega) (by omega)
    have hinsert : insert rt index vec =
        if index.maxLayer < index.sampleLayer then
          .ok (layers.length, { index.allocate vec with
            neighbours := adj'
            entryPoint := layers.length
            maxLayer := index.sampleLayer })
        else .ok (layers.length, { index.allocate vec with
          neighbours := adj' }) := by
      rw [insert, h.nextId, hmax]
      dsimp only
      rw [if_neg (by omega), Int.toNat_natCast]
      change (greedyDescent rt (index.allocate vec) vec _ _ index.entryPoint
        >>= _) = _
      rw [hrun]
      change (linkLayers rt vec layers.length _ (index.allocate vec) ep >>= _)
        = _
      rw [hlink]
      rfl
    rw [hinsert]
    split_ifs with htop
    · exact ⟨_, rfl, h.allocated hroom vec hgraph' ⟨_, hnew, rfl⟩, hvectors,
        rfl, rfl, fun _ => hselected (Nat.succ_pos _)⟩
    · obtain ⟨top, hentryTop, hmaxTop⟩ := h.entry hlayers
      have hlt := (List.getElem?_eq_some_iff.mp hentryTop).1
      have hold : (layers ++ [index.sampleLayer])[index.entryPoint]? =
          some top := by
        rw [List.getElem?_append_left hlt]
        exact hentryTop
      exact ⟨_, rfl, h.allocated hroom vec hgraph' ⟨top, hold, hmaxTop⟩,
        hvectors, rfl, rfl, fun _ => hselected (Nat.succ_pos _)⟩

/-- Inserting the last id wraps `next_id_` to zero, and the search that
follows has no node left in range. -/
theorem RepInv.insert_last (rt : Runtime V D) {index : HNSWIndex V}
    {layers : List ℕ} (h : RepInv index layers)
    (hlast : layers.length + 1 = 2 ^ 32) (vec : V) :
    insert rt index vec = .error .accessViolation := by
  have hlayers : layers ≠ [] := by
    rintro rfl
    simp at hlast
  have hnext : (index.allocate vec).nextId = 0 := by
    change (index.nextId + 1) % 2 ^ 32 = 0
    rw [h.nextId, hlast, Nat.mod_self]
  have hneighbours : (index.allocate vec).neighbours = index.neighbours := by
    rw [HNSWIndex.allocate, h.nextId, hlast, Nat.mod_self,
      NeighbourStore.resize, if_pos (Nat.zero_le _)]
  have hlength : layers.length ≤ (index.allocate vec).vectors.length := by
    rw [HNSWIndex.allocate, h.nextId, ← h.vectors, List.take_length]
    simp
  have hclosed := h.closed (index.allocate vec) hlength
    (fun i k => by rw [hneighbours])
  obtain ⟨curMax, hmax, hcurMax, hentry⟩ := h.maxLayer_eq hlayers
  obtain ⟨ep, hrun, hep⟩ :=
    insertDescent_ok rt vec hclosed index.sampleLayer hentry
  obtain ⟨v, hget, _⟩ := (hclosed _).getVector hep
  have hsearch : ∀ ef layer, searchLayer rt (index.allocate vec) ep vec ef
      layer = .error .accessViolation := by
    intro ef layer
    rw [searchLayer, hget, hnext]
    dsimp only [bind, Except.bind]
    rw [if_pos (Nat.zero_le ep)]
    rfl
  rw [insert, h.nextId, hmax, if_neg (by omega), Int.toNat_natCast]
  change (greedyDescent rt (index.allocate vec) vec _ _ index.entryPoint
    >>= _) = _
  rw [hrun]
  change (linkLayers rt vec layers.length _ (index.allocate vec) ep >>= _) = _
  rw [linkLayers, linkLayer, hsearch]
  rfl

end HNSWIndex
end VecDB
