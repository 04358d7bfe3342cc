import VecDB.HnswSearch
import Mathlib.Data.List.GetD
import Mathlib.Tactic

/-!
# The adjacency store and the links of one layer

Every operation on the store changes one list of one node.  A back link is an
append followed by a cut to the bound of the layer, which leaves a list alone
when it has room for the new link.
-/

namespace VecDB

theorem getD_modify {α : Type} {l : List α} {n : ℕ} (hn : n < l.length)
    (f : α → α) (i : ℕ) (d : α) :
    (l.modify n f).getD i d =
      if i = n then f (l.getD i d) else l.getD i d := by
  by_cases hi : i = n
  · subst hi
    have hlength : i < (l.modify i f).length := by rwa [List.length_modify]
    rw [if_pos rfl, List.getD_eq_getElem _ _ hlength, List.getElem_modify_eq,
      List.getD_eq_getElem _ _ hn]
  · have hne : n ≠ i := fun heq => hi heq.symm
    rw [if_neg hi, List.getD_eq_getElem?_getD, List.getElem?_modify_ne _ _ hne,
      List.getD_eq_getElem?_getD]

namespace NeighbourStore

/-- A store of `size` nodes with `slots` lists each. -/
structure Shaped (adj : NeighbourStore) (size slots : ℕ) : Prop where
  length_eq : adj.length = size
  slots_eq : ∀ lists ∈ adj, lists.length = slots

variable {adj : NeighbourStore} {size slots : ℕ}

theorem Shaped.getD_length (h : adj.Shaped size slots) {nodeId : ℕ}
    (hnode : nodeId < size) : (adj.getD nodeId []).length = slots := by
  have hlt : nodeId < adj.length := by rw [h.length_eq]; exact hnode
  rw [List.getD_eq_getElem _ _ hlt]
  exact h.slots_eq _ (List.getElem_mem hlt)

theorem Shaped.modify (h : adj.Shaped size slots) {nodeId layer : ℕ}
    (hnode : nodeId < size) (hlayer : layer < slots)
    (f : List ℕ → List ℕ) :
    Shaped (adj.modify nodeId fun lists => lists.modify layer f) size slots ∧
      ∀ i k, getNeighbours (adj.modify nodeId fun lists =>
          lists.modify layer f) i k =
        if i = nodeId ∧ k = layer then f (getNeighbours adj i k)
        else getNeighbours adj i k := by
  have hslots := h.getD_length hnode
  have hlt : nodeId < adj.length := by rw [h.length_eq]; exact hnode
  rw [List.getD_eq_getElem _ _ hlt] at hslots
  refine ⟨⟨by rw [List.length_modify]; exact h.length_eq, ?_⟩, ?_⟩
  · intro lists hlists
    obtain ⟨i, hi, rfl⟩ := List.mem_iff_getElem.mp hlists
    rw [List.getElem_modify]
    split_ifs
    · rw [List.length_modify]
      exact h.slots_eq _ (List.getElem_mem _)
    · exact h.slots_eq _ (List.getElem_mem _)
  · intro i k
    unfold getNeighbours
    rw [getD_modify hlt]
    by_cases hi : i = nodeId
    · subst hi
      rw [if_pos rfl, List.getD_eq_getElem adj _ hlt,
        getD_modify (by rw [hslots]; exact hlayer)]
      simp
    · rw [if_neg hi, if_neg fun hboth => hi hboth.1]

theorem Shaped.asserts (h : adj.Shaped size slots) {nodeId layer : ℕ}
    (hnode : nodeId < size) (hlayer : layer < slots) :
    nodeId < adj.length ∧ layer < (adj.getD nodeId []).length := by
  rw [h.length_eq, h.getD_length hnode]
  exact ⟨hnode, hlayer⟩

theorem Shaped.setNeighbours (h : adj.Shaped size slots) {nodeId layer : ℕ}
    (hnode : nodeId < size) (hlayer : layer < slots) (list : List ℕ) :
    ∃ adj', adj.setNeighbours nodeId layer list = .ok adj' ∧
      adj'.Shaped size slots ∧
      ∀ i k, getNeighbours adj' i k =
        if i = nodeId ∧ k = layer then list else getNeighbours adj i k := by
  have hset : (fun lists : List (List ℕ) => lists.set layer list) =
      fun lists => lists.modify layer fun _ => list := by
    funext lists
    exact (List.modify_eq_set (fun _ => list) layer lists).symm
  refine ⟨_, ?_, h.modify hnode hlayer fun _ => list⟩
  rw [NeighbourStore.setNeighbours, if_pos (h.asserts hnode hlayer), hset]

theorem Shaped.addNeighbour (h : adj.Shaped size slots) {nodeId layer : ℕ}
    (hnode : nodeId < size) (hlayer : layer < slots) (neighbour : ℕ) :
    ∃ adj', adj.addNeighbour nodeId layer neighbour = .ok adj' ∧
      adj'.Shaped size slots ∧
      ∀ i k, getNeighbours adj' i k =
        if i = nodeId ∧ k = layer then getNeighbours adj i k ++ [neighbour]
        else getNeighbours adj i k := by
  refine ⟨_, ?_, h.modify hnode hlayer fun list => list ++ [neighbour]⟩
  rw [NeighbourStore.addNeighbour, if_pos (h.asserts hnode hlayer)]

theorem Shaped.resize_succ (h : adj.Shaped size slots) {maxLayers : Int32}
    (hslots : maxLayers.toInt.toNat = slots) :
    (adj.resize (size + 1) maxLayers).Shaped (size + 1) slots ∧
      ∀ i k, getNeighbours (adj.resize (size + 1) maxLayers) i k =
        getNeighbours adj i k := by
  have hresize : adj.resize (size + 1) maxLayers =
      adj ++ [List.replicate slots []] := by
    rw [NeighbourStore.resize, if_neg (by rw [h.length_eq]; omega), h.length_eq,
      hslots, Nat.add_sub_cancel_left]
    rfl
  rw [hresize]
  refine ⟨⟨by simp [h.length_eq], ?_⟩, ?_⟩
  · intro lists hlists
    rcases List.mem_append.mp hlists with hlists | hlists
    · exact h.slots_eq lists hlists
    · rw [List.mem_singleton.mp hlists, List.length_replicate]
  · intro i k
    unfold getNeighbours
    rcases lt_trichotomy i adj.length with hi | rfl | hi
    · rw [List.getD_append _ _ _ _ hi]
    · rw [List.getD_append_right _ _ _ _ le_rfl, Nat.sub_self,
        List.getD_eq_default adj _ le_rfl]
      simp [List.getD_eq_getElem?_getD, List.getElem?_replicate]
      split_ifs <;> rfl
    · have hbeyond : (adj ++ [List.replicate slots []]).length ≤ i := by
        rw [List.length_append, List.length_singleton]
        omega
      rw [List.getD_eq_default _ _ hbeyond, List.getD_eq_default adj _ hi.le]

end NeighbourStore

namespace HNSWIndex

open NeighbourStore

/-! ## One list at a time -/

section Linking

variable {V D : Type} [Preorder D] [DecidableLT D] (rt : Runtime V D)
  {index : HNSWIndex V} {size slots nodeId layer id : ℕ} {Mmax : Int32}

theorem mapM_dist_ok (v : V) {nbrs : List ℕ}
    (hnbrs : ∀ j ∈ nbrs, j < index.vectors.length) :
    ∃ pairs, nbrs.mapM (distNbr rt index v) = .ok pairs ∧
      pairs.map Prod.snd = nbrs := by
  induction nbrs with
  | nil => exact ⟨[], rfl, rfl⟩
  | cons nbr nbrs ih =>
      have hlt := hnbrs nbr List.mem_cons_self
      obtain ⟨pairs, hrun, hpairs⟩ :=
        ih fun j hj => hnbrs j (List.mem_cons_of_mem nbr hj)
      have hdist : distNbr rt index v nbr =
          .ok (rt.l2sq v index.vectors[nbr], nbr) := by
        rw [distNbr, getVector_eq_ok.mpr (List.getElem?_eq_getElem hlt)]
        rfl
      refine ⟨(rt.l2sq v index.vectors[nbr], nbr) :: pairs, ?_, ?_⟩
      · rw [List.mapM_cons, hdist, hrun]
        rfl
      · rw [List.map_cons, hpairs]

/-- A list after it was cut to `M` links, of which none is cut when there is
room for all. -/
structure Cut (M : ℕ) (whole list : List ℕ) : Prop where
  subperm : list.Subperm whole
  length_le : list.length ≤ M
  room : whole.length ≤ M → list = whole

theorem pruneConnections_ok (index : HNSWIndex V)
    (hshape : index.neighbours.Shaped size slots)
    (hsize : size ≤ index.vectors.length) (hnode : nodeId < size)
    (hlayer : layer < slots) (hM : 0 ≤ Mmax.toInt)
    (hnbrs : ∀ j ∈ getNeighbours index.neighbours nodeId layer, j < size) :
    ∃ adj', pruneConnections rt index nodeId layer Mmax =
        .ok { index with neighbours := adj' } ∧
      adj'.Shaped size slots ∧
      (∀ i k, ¬ (i = nodeId ∧ k = layer) →
        getNeighbours adj' i k = getNeighbours index.neighbours i k) ∧
      Cut Mmax.toInt.toNat (getNeighbours index.neighbours nodeId layer)
        (getNeighbours adj' nodeId layer) := by
  generalize hwhole : getNeighbours index.neighbours nodeId layer = nbrs
    at hnbrs
  by_cases hroom : (nbrs.length : ℤ) ≤ Mmax.toInt
  · refine ⟨index.neighbours, ?_, hshape, fun _ _ _ => rfl, ?_⟩
    · rw [pruneConnections, hwhole]
      dsimp only
      rw [if_pos hroom]
      rfl
    · rw [hwhole]
      exact ⟨List.Subperm.refl _, by omega, fun _ => rfl⟩
  · have hlt : nodeId < index.vectors.length := hnode.trans_le hsize
    have hget : index.getVector nodeId = .ok index.vectors[nodeId] :=
      getVector_eq_ok.mpr (List.getElem?_eq_getElem hlt)
    obtain ⟨pairs, hpairs, hsnd⟩ := mapM_dist_ok rt index.vectors[nodeId]
      fun j hj => (hnbrs j hj).trans_le hsize
    let pruned := ((rt.pairSorter.sort pairLess pairs).take
      Mmax.toInt.toNat).map Prod.snd
    have hsubperm : pruned.Subperm nbrs := by
      rw [← hsnd]
      have hperm := (rt.pairSorter.perm pairLess pairs).map Prod.snd
      exact ((List.take_sublist _ _).map Prod.snd).subperm.trans hperm.subperm
    obtain ⟨adj', hset, hshape', hlists⟩ :=
      hshape.setNeighbours hnode hlayer pruned
    refine ⟨adj', ?_, hshape', ?_, ?_⟩
    · rw [pruneConnections, hwhole]
      dsimp only
      rw [if_neg hroom, hget]
      change (nbrs.mapM (distNbr rt index _) >>= _) = _
      rw [hpairs]
      change (if Mmax.toInt < 0 then _ else _) = _
      rw [if_neg (by omega)]
      change (NeighbourStore.setNeighbours _ _ _ pruned >>= _) = _
      rw [hset]
      rfl
    · intro i k hne
      rw [hlists, if_neg hne]
    · rw [hlists, if_pos ⟨rfl, rfl⟩]
      refine ⟨hsubperm, ?_, fun hle => absurd hle (by omega)⟩
      simp [pruned]

/-- Linking one neighbour back changes its list alone. -/
theorem linkBack_cons_ok (hM : 0 ≤ Mmax.toInt) (hid : id < size)
    (hlayer : layer < slots) {nbr : ℕ} (index : HNSWIndex V)
    (hshape : index.neighbours.Shaped size slots)
    (hsize : size ≤ index.vectors.length) (hnbr : nbr < size)
    (hrange : ∀ j ∈ getNeighbours index.neighbours nbr layer, j < size) :
    ∃ pruned, (∀ nbrs, linkBack rt id layer Mmax (nbr :: nbrs) index =
        linkBack rt id layer Mmax nbrs { index with neighbours := pruned }) ∧
      pruned.Shaped size slots ∧
      (∀ i k, ¬ (i = nbr ∧ k = layer) →
        getNeighbours pruned i k = getNeighbours index.neighbours i k) ∧
      Cut Mmax.toInt.toNat (getNeighbours index.neighbours nbr layer ++ [id])
        (getNeighbours pruned nbr layer) := by
  obtain ⟨added, hadd, hshape₁, hlists₁⟩ :=
    hshape.addNeighbour hnbr hlayer id
  have hself : getNeighbours added nbr layer =
      getNeighbours index.neighbours nbr layer ++ [id] := by
    rw [hlists₁, if_pos ⟨rfl, rfl⟩]
  have hrange₁ : ∀ j ∈ getNeighbours added nbr layer, j < size := by
    intro j hj
    rw [hself] at hj
    rcases List.mem_append.mp hj with hj | hj
    · exact hrange j hj
    · rw [List.mem_singleton.mp hj]
      exact hid
  obtain ⟨pruned, hprune, hshape₂, hlists₂, hcut⟩ :=
    pruneConnections_ok rt { index with neighbours := added } hshape₁
      hsize hnbr hlayer hM hrange₁
  refine ⟨pruned, fun nbrs => ?_, hshape₂, fun i k hne => ?_, ?_⟩
  · rw [linkBack, hadd]
    change (pruneConnections rt _ nbr layer Mmax >>= _) = _
    rw [hprune]
    rfl
  · rw [hlists₂ i k hne, hlists₁, if_neg hne]
  · rw [← hself]
    exact hcut

theorem linkBack_ok (hM : 0 ≤ Mmax.toInt) (hid : id < size)
    (hlayer : layer < slots) (selected : List ℕ) (hnodup : selected.Nodup)
    (index : HNSWIndex V) (hshape : index.neighbours.Shaped size slots)
    (hsize : size ≤ index.vectors.length)
    (hselected : ∀ i ∈ selected, i < size ∧
      ∀ j ∈ getNeighbours index.neighbours i layer, j < size) :
    ∃ adj', linkBack rt id layer Mmax selected index =
        .ok { index with neighbours := adj' } ∧
      adj'.Shaped size slots ∧
      (∀ i k, ¬ (i ∈ selected ∧ k = layer) →
        getNeighbours adj' i k = getNeighbours index.neighbours i k) ∧
      ∀ i ∈ selected, Cut Mmax.toInt.toNat
        (getNeighbours index.neighbours i layer ++ [id])
        (getNeighbours adj' i layer) := by
  induction selected generalizing index with
  | nil => exact ⟨index.neighbours, rfl, hshape, fun _ _ _ => rfl, by simp⟩
  | cons nbr nbrs ih =>
      obtain ⟨hnbr, hrange⟩ := hselected nbr List.mem_cons_self
      have hnotMem := (List.nodup_cons.mp hnodup).1
      have hne : ∀ i ∈ nbrs, ¬ (i = nbr ∧ layer = layer) := by
        rintro i hi ⟨rfl, _⟩
        exact hnotMem hi
      obtain ⟨pruned, hstep, hshape₁, hframe, hcut⟩ :=
        linkBack_cons_ok rt hM hid hlayer index hshape hsize hnbr hrange
      have hselected' : ∀ i ∈ nbrs, i < size ∧
          ∀ j ∈ getNeighbours pruned i layer, j < size := by
        intro i hi
        rw [hframe i layer (hne i hi)]
        exact hselected i (List.mem_cons_of_mem nbr hi)
      obtain ⟨adj', hrun, hshape', hsame, hback⟩ :=
        ih (List.nodup_cons.mp hnodup).2 { index with neighbours := pruned }
          hshape₁ hsize hselected'
      refine ⟨adj', (hstep nbrs).trans hrun, hshape', ?_, ?_⟩
      · intro i k hout
        rw [hsame i k fun h => hout ⟨List.mem_cons_of_mem nbr h.1, h.2⟩]
        exact hframe i k fun h =>
          hout ⟨h.1 ▸ List.mem_cons_self, h.2⟩
      · intro i hi
        rcases List.mem_cons.mp hi with rfl | hrest
        · rw [hsame i layer fun h => hnotMem h.1]
          exact hcut
        · have hcut' := hback i hrest
          rwa [hframe i layer (hne i hrest)] at hcut'

end Linking

end HNSWIndex

end VecDB
