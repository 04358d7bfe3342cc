import VecDB.HnswAllocation
import Mathlib.Tactic

/-!
# An index that has run out of memory

An insertion that throws leaves ids without a vector, nodes without lists and
links that are not returned.  None of that is ever walked into: every link, and
the entry point, is a node that has both its vector and its lists.  So the
searches and the insertions that come after it stay in range.
-/

namespace VecDB

open StateRules Running

namespace Running

variable {σ α : Type} {P : σ → Prop} {R : Failure → Running σ → Prop}

theorem meets_request (hfail : ∀ s : Running σ, P s.obj → R .badAlloc s) :
    Meets (On P) (request : EStateM Failure (Running σ) Unit)
      (fun _ => On P) R := by
  intro s hs
  rw [request_run]
  split_ifs
  · constructor
    · intro a t hok
      cases hok
      exact hs
    · intro e t herr
      cases herr
  · constructor
    · intro a t hok
      cases hok
    · intro e t herr
      cases herr
      exact hfail _ hs

theorem meets_update {Q : σ → Prop} {f : σ → σ}
    (h : ∀ obj, P obj → Q (f obj)) :
    Meets (On P) (update f) (fun _ => On Q) R := by
  intro s hs
  rw [update_run]
  constructor
  · intro a t hok
    cases hok
    exact h s.obj hs
  · intro e t herr
    cases herr

/-- Reading leaves the object to the statement behind it. -/
theorem meets_compute {f : σ → Except Failure α} {Q : α → σ → Prop}
    (hok : ∀ obj a, P obj → f obj = .ok a → Q a obj)
    (herr : ∀ (s : Running σ) e, P s.obj → f s.obj = .error e → R e s) :
    Meets (On P) (compute f) (fun a => On (Q a)) R := by
  intro s hs
  constructor
  · intro a t hrun
    obtain ⟨hf, rfl⟩ := compute_eq_ok.mp hrun
    exact hok _ a hs hf
  · intro e t hrun
    obtain ⟨hf, rfl⟩ := compute_eq_error.mp hrun
    exact herr _ e hs hf

theorem meets_compute_ok {f : σ → Except Failure α} {Q : α → σ → Prop}
    (h : ∀ obj, P obj → ∃ a, f obj = .ok a ∧ Q a obj) :
    Meets (On P) (compute f) (fun a => On (Q a)) R := by
  refine meets_compute ?_ ?_
  · intro obj a hobj hf
    obtain ⟨b, hok, hb⟩ := h obj hobj
    rw [hok] at hf
    cases hf
    exact hb
  · intro s e hs hf
    obtain ⟨b, hok, _⟩ := h s.obj hs
    rw [hok] at hf
    cases hf

end Running

/-! ## One list of the store -/

namespace NeighbourStore

/-- `adj'` has `list` at a layer of a node, and is `adj` elsewhere. -/
structure Relisted (adj : NeighbourStore) (nodeId layer : ℕ) (list : List ℕ)
    (adj' : NeighbourStore) : Prop where
  length_eq : adj'.length = adj.length
  layerCount_eq : ∀ i, adj'.layerCount i = adj.layerCount i
  lists : ∀ i k, getNeighbours adj' i k =
    if i = nodeId ∧ k = layer then list else getNeighbours adj i k

variable {adj adj' : NeighbourStore} {nodeId layer : ℕ}

theorem lt_length_of_layerCount (hlayer : layer < adj.layerCount nodeId) :
    nodeId < adj.length := by
  by_contra hout
  unfold layerCount at hlayer
  rw [List.getD_eq_default _ _ (not_lt.mp hout)] at hlayer
  exact Nat.not_lt_zero _ hlayer

theorem relisted_modify (hlayer : layer < adj.layerCount nodeId)
    (f : List ℕ → List ℕ) :
    Relisted adj nodeId layer (f (getNeighbours adj nodeId layer))
      (adj.modify nodeId fun lists => lists.modify layer f) := by
  have hnode := lt_length_of_layerCount hlayer
  refine ⟨List.length_modify .., fun i => ?_, fun i k => ?_⟩
  · unfold layerCount
    rw [getD_modify hnode]
    split_ifs
    · rw [List.length_modify]
    · rfl
  · unfold getNeighbours
    rw [getD_modify hnode]
    by_cases hi : i = nodeId
    · subst hi
      rw [if_pos rfl, getD_modify hlayer]
      simp only [true_and]
      split_ifs with hk
      · rw [hk]
      · rfl
    · rw [if_neg hi, if_neg fun hboth => hi hboth.1]

theorem setNeighbours_relisted (hlayer : layer < adj.layerCount nodeId)
    (list : List ℕ) : ∃ adj', adj.setNeighbours nodeId layer list = .ok adj' ∧
      Relisted adj nodeId layer list adj' := by
  have hset : (fun lists : List (List ℕ) => lists.set layer list) =
      fun lists => lists.modify layer fun _ => list := by
    funext lists
    exact (List.modify_eq_set (fun _ => list) layer lists).symm
  refine ⟨_, ?_, relisted_modify hlayer fun _ => list⟩
  rw [setNeighbours, if_pos ⟨lt_length_of_layerCount hlayer, hlayer⟩, hset]

theorem addNeighbour_relisted (hlayer : layer < adj.layerCount nodeId)
    (neighbour : ℕ) :
    ∃ adj', adj.addNeighbour nodeId layer neighbour = .ok adj' ∧
      Relisted adj nodeId layer
        (getNeighbours adj nodeId layer ++ [neighbour]) adj' := by
  refine ⟨_, ?_, relisted_modify hlayer fun list => list ++ [neighbour]⟩
  rw [addNeighbour, if_pos ⟨lt_length_of_layerCount hlayer, hlayer⟩]

end NeighbourStore

namespace HNSWIndex

open NeighbourStore

section Candidates

variable {D : Type}

/-- The nodes that a search of the layer chooses from. -/
def Candidates (S : ℕ → Prop) (candidates : List (HNSWSearchResult D)) : Prop :=
  candidates ≠ [] ∧ ∀ r ∈ candidates, S r.nodeId

theorem Candidates.selectNeighbours {S : ℕ → Prop}
    {candidates : List (HNSWSearchResult D)}
    (h : Candidates S candidates) (M : Int32) :
    (∃ selected, HNSWIndex.selectNeighbours candidates M = .ok selected ∧
        ∀ j ∈ selected, S j) ∨
      (HNSWIndex.selectNeighbours candidates M = .error .lengthError ∧
        M.toInt < 0) := by
  unfold HNSWIndex.selectNeighbours
  dsimp only
  by_cases hneg : min M.toInt candidates.length < 0
  · rw [if_pos hneg]
    exact Or.inr ⟨rfl, by omega⟩
  · rw [if_neg hneg]
    refine Or.inl ⟨_, rfl, fun j hj => ?_⟩
    obtain ⟨r, hr, rfl⟩ := List.mem_map.mp hj
    exact h.2 r (List.mem_of_mem_take hr)

end Candidates

variable {V D : Type} [Preorder D] [DecidableLT D]

/-! ## The invariant -/

/-- The nodes of `S` can be walked through: each has a vector, which satisfies
`P`, and a list at every layer.  No link and no entry point leads elsewhere. -/
structure Walkable (cfg : HNSWConfig) (P : V → Prop) (S : ℕ → Prop)
    (index : HNSWIndex V) : Prop where
  cfg_eq : index.cfg = cfg
  stored : ∀ i, S i → ∃ vec, index.vectors[i]? = some vec ∧ P vec
  slots : ∀ i, S i →
    index.neighbours.layerCount i = cfg.maxLayers.toInt.toNat
  links : ∀ i layer, ∀ j ∈ getNeighbours index.neighbours i layer, S j
  entry : 0 ≤ index.maxLayer → S index.entryPoint
  maxLayer_lt : index.maxLayer < cfg.maxLayers.toInt
  vectors_le : index.vectors.length ≤ index.nextId
  lists_le : index.neighbours.length ≤ index.nextId

/-- Some set of nodes can be walked through. -/
def Walks (cfg : HNSWConfig) (P : V → Prop) (index : HNSWIndex V) : Prop :=
  ∃ S, Walkable cfg P S index

/-- What an insertion may throw: memory ran out, or a list at layer 0 is to be
cut to a negative length. -/
def Exhausted (cfg : HNSWConfig) (e : Failure) : Prop :=
  e = .badAlloc ∨ e = .lengthError ∧ cfg.Mmax0.toInt < 0

/-- How an insertion ends that throws. -/
def Thrown (cfg : HNSWConfig) (P : V → Prop) (e : Failure)
    (s : Running (HNSWIndex V)) : Prop :=
  Exhausted cfg e ∧ Walks cfg P s.obj

variable {cfg : HNSWConfig} {P : V → Prop} {S : ℕ → Prop}
  {index : HNSWIndex V}

theorem new_walkable {rng : ℕ → ℕ} (hnew : new cfg rng = .ok index) :
    Walkable cfg P (fun _ => False) index := by
  obtain ⟨haccepted, rfl⟩ := new_eq_ok hnew
  have hlayers := haccepted.maxLayers
  exact {
    cfg_eq := rfl
    stored := fun _ hfalse => hfalse.elim
    slots := fun _ hfalse => hfalse.elim
    links := by
      intro i layer j hj
      simp [getNeighbours] at hj
    entry := fun hle => absurd hle (by norm_num)
    maxLayer_lt := by
      dsimp only
      omega
    vectors_le := le_rfl
    lists_le := le_rfl }

namespace Walkable

theorem badAlloc (h : Walkable cfg P S index) {s : Running (HNSWIndex V)}
    (hs : s.obj = index) : Thrown cfg P .badAlloc s :=
  ⟨Or.inl rfl, S, hs ▸ h⟩

theorem closed (h : Walkable cfg P S index) (layer : ℕ) :
    Closed index layer S where
  stored := by
    intro i hi
    obtain ⟨vec, hvec, _⟩ := h.stored i hi
    exact (List.getElem?_eq_some_iff.mp hvec).1
  links := fun i _ j hj => h.links i layer j hj

theorem lt_nextId (h : Walkable cfg P S index) {i : ℕ} (hi : S i) :
    i < index.nextId :=
  ((h.closed 0).stored i hi).trans_le h.vectors_le

/-- A list of nodes that can be walked through. -/
theorem relisted (h : Walkable cfg P S index) {nodeId layer : ℕ}
    {list : List ℕ} (hlist : ∀ j ∈ list, S j) {adj : NeighbourStore}
    (hadj : Relisted index.neighbours nodeId layer list adj) :
    Walkable cfg P S { index with neighbours := adj } where
  cfg_eq := h.cfg_eq
  stored := h.stored
  slots := fun i hi => (hadj.layerCount_eq i).trans (h.slots i hi)
  links := by
    intro i k j hj
    rw [hadj.lists] at hj
    split_ifs at hj
    · exact hlist j hj
    · exact h.links i k j hj
  entry := h.entry
  maxLayer_lt := h.maxLayer_lt
  vectors_le := h.vectors_le
  lists_le := hadj.length_eq.trans_le h.lists_le

theorem setNeighbours (h : Walkable cfg P S index) {nodeId layer : ℕ}
    (hnode : S nodeId) (hlayer : layer < cfg.maxLayers.toInt.toNat)
    {list : List ℕ} (hlist : ∀ j ∈ list, S j) :
    ∃ adj, index.neighbours.setNeighbours nodeId layer list = .ok adj ∧
      Walkable cfg P S { index with neighbours := adj } := by
  obtain ⟨adj, hset, hadj⟩ := setNeighbours_relisted
    (by rwa [h.slots nodeId hnode]) list
  exact ⟨adj, hset, h.relisted hlist hadj⟩

theorem addNeighbour (h : Walkable cfg P S index) {nodeId layer : ℕ}
    (hnode : S nodeId) (hlayer : layer < cfg.maxLayers.toInt.toNat)
    {neighbour : ℕ} (hneighbour : S neighbour) :
    ∃ adj, index.neighbours.addNeighbour nodeId layer neighbour = .ok adj ∧
      Walkable cfg P S { index with neighbours := adj } := by
  obtain ⟨adj, hadd, hadj⟩ := addNeighbour_relisted
    (by rwa [h.slots nodeId hnode]) neighbour
  refine ⟨adj, hadd, h.relisted ?_ hadj⟩
  intro j hj
  rcases List.mem_append.mp hj with hold | hnew
  · exact h.links nodeId layer j hold
  · rwa [List.mem_singleton.mp hnew]

/-- The list of a node is cut, whatever its length; a negative bound throws
before anything is changed. -/
theorem pruneConnections (rt : Runtime V D) (h : Walkable cfg P S index)
    {nodeId layer : ℕ} (hnode : S nodeId)
    (hlayer : layer < cfg.maxLayers.toInt.toNat) (Mmax : Int32) :
    (∃ adj, HNSWIndex.pruneConnections rt index nodeId layer Mmax =
        .ok { index with neighbours := adj } ∧
        Walkable cfg P S { index with neighbours := adj }) ∨
      (HNSWIndex.pruneConnections rt index nodeId layer Mmax =
        .error .lengthError ∧ Mmax.toInt < 0) := by
  unfold HNSWIndex.pruneConnections
  generalize hnbrs : getNeighbours index.neighbours nodeId layer = nbrs
  by_cases hroom : (nbrs.length : ℤ) ≤ Mmax.toInt
  · dsimp only
    rw [if_pos hroom]
    exact Or.inl ⟨index.neighbours, rfl, h⟩
  · obtain ⟨v, hget, _⟩ := (h.closed layer).getVector hnode
    have hin : ∀ j ∈ nbrs, S j := by
      intro j hj
      rw [← hnbrs] at hj
      exact h.links nodeId layer j hj
    obtain ⟨pairs, hpairs, hsnd⟩ := mapM_dist_ok rt v
      fun j hj => (h.closed layer).stored j (hin j hj)
    dsimp only
    rw [if_neg hroom, hget, except_bind_ok, hpairs, except_bind_ok]
    by_cases hneg : Mmax.toInt < 0
    · rw [if_pos hneg]
      exact Or.inr ⟨rfl, hneg⟩
    · have hpruned : ∀ j ∈ ((rt.pairSorter.sort pairLess pairs).take
          Mmax.toInt.toNat).map Prod.snd, S j := by
        intro j hj
        obtain ⟨pair, hpair, rfl⟩ := List.mem_map.mp hj
        have hmem := (rt.pairSorter.perm pairLess pairs).mem_iff.mp
          (List.mem_of_mem_take hpair)
        exact hin _ (hsnd ▸ List.mem_map_of_mem hmem)
      obtain ⟨adj, hset, hadj⟩ := h.setNeighbours hnode hlayer hpruned
      rw [if_neg hneg, hset]
      exact Or.inl ⟨adj, rfl, hadj⟩

end Walkable

/-! ## The statements of an insertion -/

section Statements

variable (rt : Runtime V D) {nodeId layer id ep : ℕ}

theorem tryGrow_meets {Q : HNSWIndex V → Prop}
    {R : Failure → Running (HNSWIndex V) → Prop} (id : ℕ)
    (hfail : ∀ s : Running (HNSWIndex V), Q s.obj → R .badAlloc s) :
    Meets (On Q) (tryGrow id) (fun _ => On Q) R :=
  Meets.bind (meets_compute_ok (Q := fun _ => Q)
    fun _ h => ⟨_, rfl, h⟩) fun _ =>
      Meets.ite (fun _ => meets_pure fun _ h => h)
        fun _ => meets_request hfail

theorem trySetNeighbours_meets (hnode : S nodeId)
    (hlayer : layer < cfg.maxLayers.toInt.toNat) {neighbours : List ℕ}
    (hlist : ∀ j ∈ neighbours, S j) :
    Meets (On (Walkable (V := V) cfg P S))
      (trySetNeighbours nodeId layer neighbours)
      (fun _ => On (Walkable cfg P S)) (Thrown cfg P) := by
  refine Meets.bind (meets_compute_ok (Q := fun adj index =>
    Walkable cfg P S { index with neighbours := adj }) ?_) fun cleared => ?_
  · exact fun index h => h.setNeighbours hnode hlayer (by simp)
  refine Meets.bind (meets_update fun index h => h) fun _ =>
    Meets.bind (meets_request fun s h => h.badAlloc rfl) fun _ => ?_
  refine Meets.bind (meets_compute_ok (Q := fun adj index =>
    Walkable cfg P S { index with neighbours := adj }) ?_) fun adj => ?_
  · exact fun index h => h.setNeighbours hnode hlayer hlist
  · exact meets_update fun index h => h

theorem tryAddNeighbour_meets (hnode : S nodeId)
    (hlayer : layer < cfg.maxLayers.toInt.toNat) (hid : S id) :
    Meets (On (Walkable (V := V) cfg P S)) (tryAddNeighbour nodeId layer id)
      (fun _ => On (Walkable cfg P S)) (Thrown cfg P) := by
  refine Meets.bind (meets_compute_ok (Q := fun adj index =>
    Walkable cfg P S index ∧
      Walkable cfg P S { index with neighbours := adj }) ?_) fun adj => ?_
  · intro index h
    obtain ⟨adj, hadd, hadj⟩ := h.addNeighbour hnode hlayer hid
    exact ⟨adj, hadd, h, hadj⟩
  · exact Meets.bind (meets_request fun s h => h.1.badAlloc rfl)
      fun _ => meets_update fun index h => h.2

theorem exhausted_of_neg (haccepted : Accepted cfg)
    (hneg : (layerM cfg layer).toInt < 0) : Exhausted cfg .lengthError := by
  refine Or.inr ⟨rfl, ?_⟩
  have hM := haccepted.M
  unfold layerM at hneg
  split_ifs at hneg
  · exact hneg
  · omega

theorem tryPruneConnections_meets (haccepted : Accepted cfg) (hnode : S nodeId)
    (hlayer : layer < cfg.maxLayers.toInt.toNat) :
    Meets (On (Walkable (V := V) cfg P S))
      (tryPruneConnections rt nodeId layer (layerM cfg layer))
      (fun _ => On (Walkable cfg P S)) (Thrown cfg P) := by
  refine Meets.bind (meets_compute_ok (Q := fun _ => Walkable cfg P S)
    fun index h => ⟨_, rfl, h⟩) fun nbrs => Meets.ite ?_ ?_
  · exact fun _ => meets_pure fun s h => h
  intro _
  refine Meets.bind (meets_request fun s h => h.badAlloc rfl) fun _ =>
    Meets.bind (meets_compute (Q := fun pruned index =>
      Walkable cfg P S { index with neighbours := pruned.neighbours })
      ?_ ?_) fun pruned => meets_update fun index h => h
  · intro index pruned h hok
    rcases h.pruneConnections rt hnode hlayer (layerM cfg layer) with
      ⟨adj, hprune, hadj⟩ | ⟨hprune, _⟩
    · rw [hprune] at hok
      cases hok
      exact hadj
    · rw [hprune] at hok
      cases hok
  · intro s e h herr
    rcases h.pruneConnections rt hnode hlayer (layerM cfg layer) with
      ⟨adj, hprune, _⟩ | ⟨hprune, hneg⟩
    · rw [hprune] at herr
      cases herr
    · rw [hprune] at herr
      cases herr
      exact ⟨exhausted_of_neg haccepted hneg, S, h⟩

theorem tryLinkBack_meets (haccepted : Accepted cfg) (hid : S id)
    (hlayer : layer < cfg.maxLayers.toInt.toNat) {nbrs : List ℕ}
    (hnbrs : ∀ j ∈ nbrs, S j) :
    Meets (On (Walkable (V := V) cfg P S))
      (tryLinkBack rt id layer (layerM cfg layer) nbrs)
      (fun _ => On (Walkable cfg P S)) (Thrown cfg P) := by
  induction nbrs with
  | nil => exact meets_pure fun s h => h
  | cons nbr nbrs ih =>
      rw [List.forall_mem_cons] at hnbrs
      exact (tryAddNeighbour_meets hnbrs.1 hlayer hid).bind fun _ =>
        (tryPruneConnections_meets rt haccepted hnbrs.1 hlayer).bind fun _ =>
          ih hnbrs.2

/-- One layer: whatever is found there can be walked through, and so can the
node that the next layer is entered at. -/
theorem tryLinkLayer_meets (haccepted : Accepted cfg) (vec : V) (hid : S id)
    (hep : S ep) (hlayer : layer < cfg.maxLayers.toInt.toNat) :
    Meets (On (Walkable (V := V) cfg P S)) (tryLinkLayer rt vec id ep layer)
      (fun next s => S next ∧ Walkable cfg P S s.obj) (Thrown cfg P) := by
  refine Meets.bind (meets_request fun s h => h.badAlloc rfl) fun _ =>
    Meets.bind (meets_compute_ok (Q := fun candidates index =>
      Candidates S candidates ∧ Walkable cfg P S index) ?_) fun candidates => ?_
  · intro index h
    obtain ⟨candidates, hsearch, hfound, _⟩ := searchLayer_ok rt
      (h.closed layer) (fun i hi => h.lt_nextId hi) hep vec
      index.cfg.efConstruction
    exact ⟨candidates, hsearch,
      ⟨hfound.ne_nil, fun r hr => (hfound.mem r hr).1⟩, h⟩
  refine meets_of_imp (fun s h => h.1) fun hcandidates => ?_
  refine Meets.bind (meets_compute_ok (Q := fun M index =>
    M = layerM cfg layer ∧ Walkable cfg P S index) ?_) fun M => ?_
  · exact fun index h => ⟨_, rfl, by rw [h.2.cfg_eq], h.2⟩
  refine meets_of_imp (fun s h => h.1) ?_
  rintro rfl
  refine Meets.bind (meets_compute (Q := fun selected index =>
    (∀ j ∈ selected, S j) ∧ Walkable cfg P S index) ?_ ?_) fun selected => ?_
  · intro index selected h hok
    rcases hcandidates.selectNeighbours (layerM cfg layer) with
      ⟨chosen, hselect, hchosen⟩ | ⟨hselect, _⟩
    · rw [hselect] at hok
      cases hok
      exact ⟨hchosen, h.2⟩
    · rw [hselect] at hok
      cases hok
  · intro s e h herr
    rcases hcandidates.selectNeighbours (layerM cfg layer) with
      ⟨chosen, hselect, _⟩ | ⟨hselect, hneg⟩
    · rw [hselect] at herr
      cases herr
    · rw [hselect] at herr
      cases herr
      exact ⟨exhausted_of_neg haccepted hneg, S, h.2⟩
  refine meets_of_imp (fun s h => h.1) fun hselected => ?_
  refine Meets.bind (meets_request (P := fun index =>
    (∀ j ∈ selected, S j) ∧ Walkable cfg P S index)
    fun s h => h.2.badAlloc rfl) fun _ => ?_
  refine ((trySetNeighbours_meets hid hlayer hselected).weaken
    (fun s h => h.2) fun _ s h => h).bind fun _ =>
    (tryLinkBack_meets rt haccepted hid hlayer hselected).bind fun _ => ?_
  obtain ⟨closest, rest, rfl⟩ := List.exists_cons_of_ne_nil hcandidates.1
  exact meets_pure fun s h => ⟨hcandidates.2 closest List.mem_cons_self, h⟩

theorem tryLinkLayers_meets (haccepted : Accepted cfg) (vec : V) (hid : S id)
    {layers : ℕ} (hlayers : layers ≤ cfg.maxLayers.toInt.toNat)
    (hep : S ep) :
    Meets (On (Walkable (V := V) cfg P S)) (tryLinkLayers rt vec id layers ep)
      (fun _ => On (Walkable cfg P S)) (Thrown cfg P) := by
  induction layers generalizing ep with
  | zero => exact meets_pure fun s h => h
  | succ layer ih =>
      refine (tryLinkLayer_meets rt haccepted vec hid hep hlayers).bind
        fun next => meets_of_imp (fun s h => h.1) fun hnext => ?_
      exact (ih (by omega) hnext).weaken (fun s h => h.2) fun _ s h => h

end Statements

/-! ## An insertion -/

section Slots

/-- The slots from `old` to `id` while they are filled; that of `id` is once
`c` holds. -/
structure Filling (cfg : HNSWConfig) (P : V → Prop) (S : ℕ → Prop)
    (old id : ℕ) (c : Prop) (index : HNSWIndex V) : Prop where
  walkable : Walkable cfg P S index
  stored : ∃ vec, index.vectors[id]? = some vec ∧ P vec
  length_eq : index.neighbours.length = id + 1
  empty : ∀ i k, old ≤ i → getNeighbours index.neighbours i k = []
  filled : c → index.neighbours.layerCount id = cfg.maxLayers.toInt.toNat

variable {old id : ℕ}

theorem getD_set {α : Type} {l : List α} {n : ℕ} (hn : n < l.length) (a : α)
    (i : ℕ) (d : α) : (l.set n a).getD i d = if i = n then a else l.getD i d := by
  by_cases hi : i = n
  · subst hi
    rw [if_pos rfl, List.getD_eq_getElem _ _ (by rwa [List.length_set]),
      List.getElem_set_self]
  · rw [if_neg hi, List.getD_eq_getElem?_getD,
      List.getElem?_set_ne fun h => hi h.symm, List.getD_eq_getElem?_getD]

theorem Filling.fill {c : Prop} (h : Filling cfg P S old id c index)
    (hS : ∀ i, S i → i < old) {i : ℕ} (hold : old ≤ i) (hi : i ≤ id) :
    Filling cfg P S old id (c ∨ id = i) { index with
      neighbours := index.neighbours.set i
        (List.replicate cfg.maxLayers.toInt.toNat []) } := by
  have hlt : i < index.neighbours.length := by
    rw [h.length_eq]
    omega
  have hcount : ∀ j, layerCount (index.neighbours.set i
      (List.replicate cfg.maxLayers.toInt.toNat [])) j =
        if j = i then cfg.maxLayers.toInt.toNat
        else index.neighbours.layerCount j := by
    intro j
    unfold layerCount
    rw [getD_set hlt]
    split_ifs
    · exact List.length_replicate
    · rfl
  have hlists : ∀ j k, getNeighbours (index.neighbours.set i
      (List.replicate cfg.maxLayers.toInt.toNat [])) j k =
        getNeighbours index.neighbours j k := by
    intro j k
    by_cases hj : j = i
    · rw [h.empty j k (hj ▸ hold)]
      unfold getNeighbours
      rw [getD_set hlt, if_pos hj, List.getD_eq_getElem?_getD,
        List.getElem?_replicate]
      split_ifs
      · rfl
      · rfl
    · unfold getNeighbours
      rw [getD_set hlt, if_neg hj]
  have hwalk := h.walkable
  exact {
    walkable := {
      cfg_eq := hwalk.cfg_eq
      stored := hwalk.stored
      slots := by
        intro j hj
        have hne : j ≠ i := by
          have := hS j hj
          omega
        rw [hcount, if_neg hne]
        exact hwalk.slots j hj
      links := by
        intro j k
        rw [hlists]
        exact hwalk.links j k
      entry := hwalk.entry
      maxLayer_lt := hwalk.maxLayer_lt
      vectors_le := hwalk.vectors_le
      lists_le := by
        rw [List.length_set]
        exact hwalk.lists_le }
    stored := h.stored
    length_eq := by rw [List.length_set, h.length_eq]
    empty := by
      intro j k hj
      rw [hlists]
      exact h.empty j k hj
    filled := by
      rintro (hc | rfl)
      · rw [hcount]
        split_ifs
        · rfl
        · exact h.filled hc
      · rw [hcount, if_pos rfl] }

theorem tryFillSlots_meets (hS : ∀ i, S i → i < old) {slots : List ℕ}
    (hslots : ∀ i ∈ slots, old ≤ i ∧ i ≤ id) (c : Prop) :
    Meets (On (Filling (V := V) cfg P S old id c))
      (tryFillSlots cfg.maxLayers slots)
      (fun _ => On (Filling cfg P S old id (c ∨ id ∈ slots)))
      (Thrown cfg P) := by
  induction slots generalizing c with
  | nil =>
      refine meets_pure fun s h => ?_
      simpa using h
  | cons i slots ih =>
      rw [List.forall_mem_cons] at hslots
      refine Meets.bind (meets_request fun s h => h.walkable.badAlloc rfl)
        fun _ => Meets.bind (meets_update
          fun index h => h.fill hS hslots.1.1 hslots.1.2) fun _ => ?_
      refine (ih hslots.2 (c ∨ id = i)).weaken (fun s h => h) fun _ s h => ?_
      simpa only [List.mem_cons, or_assoc] using h

/-- The store grows to the new node, and its slots are empty. -/
theorem Walkable.grown (h : Walkable cfg P S index) (hid : id < index.nextId)
    (hstored : ∃ vec, index.vectors[id]? = some vec ∧ P vec)
    (hS : ∀ i, S i → i < index.neighbours.length)
    (hold : index.neighbours.length ≤ id) :
    Filling cfg P S index.neighbours.length id False { index with
      neighbours := index.neighbours ++
        List.replicate (id + 1 - index.neighbours.length) [] } := by
  have hlength : (index.neighbours ++
      List.replicate (id + 1 - index.neighbours.length) []).length =
        id + 1 := by
    rw [List.length_append, List.length_replicate]
    omega
  have hnew : ∀ i, index.neighbours.length ≤ i → (index.neighbours ++
      List.replicate (id + 1 - index.neighbours.length) []).getD i [] = [] := by
    intro i hi
    rw [List.getD_append_right _ _ _ _ hi, List.getD_eq_getElem?_getD,
      List.getElem?_replicate]
    split_ifs
    · rfl
    · rfl
  have hsame : ∀ i, i < index.neighbours.length → (index.neighbours ++
      List.replicate (id + 1 - index.neighbours.length) []).getD i [] =
        index.neighbours.getD i [] :=
    fun i hi => List.getD_append _ _ _ _ hi
  exact {
    walkable := {
      cfg_eq := h.cfg_eq
      stored := h.stored
      slots := by
        intro i hi
        unfold layerCount
        rw [hsame i (hS i hi)]
        exact h.slots i hi
      links := by
        intro i k j hj
        unfold getNeighbours at hj
        by_cases hi : i < index.neighbours.length
        · rw [hsame i hi] at hj
          exact h.links i k j hj
        · rw [hnew i (not_lt.mp hi)] at hj
          simp at hj
      entry := h.entry
      maxLayer_lt := h.maxLayer_lt
      vectors_le := h.vectors_le
      lists_le := hlength.trans_le hid }
    stored := hstored
    length_eq := hlength
    empty := by
      intro i k hi
      unfold getNeighbours
      rw [hnew i hi]
      rfl
    filled := False.elim }

/-- A node that has its vector and its slots may be linked to. -/
theorem Filling.add (h : Filling cfg P S old id True index) :
    Walkable cfg P (fun i => S i ∨ i = id) index where
  cfg_eq := h.walkable.cfg_eq
  stored := by
    rintro i (hi | rfl)
    · exact h.walkable.stored i hi
    · exact h.stored
  slots := by
    rintro i (hi | rfl)
    · exact h.walkable.slots i hi
    · exact h.filled trivial
  links := fun i k j hj => Or.inl (h.walkable.links i k j hj)
  entry := fun hle => Or.inl (h.walkable.entry hle)
  maxLayer_lt := h.walkable.maxLayer_lt
  vectors_le := h.walkable.vectors_le
  lists_le := h.walkable.lists_le

/-- The index of an insertion that has stored its vector. -/
structure Placed (cfg : HNSWConfig) (P : V → Prop) (S : ℕ → Prop) (id : ℕ)
    (index : HNSWIndex V) : Prop where
  walkable : Walkable cfg P S index
  stored : ∃ vec, index.vectors[id]? = some vec ∧ P vec
  id_lt : id < index.nextId
  lists_le : index.neighbours.length ≤ id

theorem tryResize_meets (haccepted : Accepted cfg) :
    Meets (On (Placed (V := V) cfg P S id))
      (tryResize (id + 1) cfg.maxLayers)
      (fun _ => On (Walkable cfg P fun i => S i ∨ i = id))
      (Thrown cfg P) := by
  refine Meets.bind (meets_compute_ok (Q := fun old index =>
    old = index.neighbours.length ∧ Placed cfg P S id index)
    fun index h => ⟨_, rfl, rfl, h⟩) fun old => ?_
  refine meets_of_imp (c := (∀ i, S i → i < old) ∧ old ≤ id) ?_ ?_
  · rintro s ⟨rfl, h⟩
    refine ⟨fun i hi => ?_, h.lists_le⟩
    have hlayers := haccepted.maxLayers
    have hzero : 0 < layerCount s.obj.neighbours i := by
      rw [h.walkable.slots i hi]
      omega
    exact lt_length_of_layerCount hzero
  rintro ⟨hS, hold⟩
  refine Meets.ite (fun hle => absurd hle (by omega)) fun _ => ?_
  refine Meets.bind (meets_request (P := fun index =>
      old = index.neighbours.length ∧ Placed cfg P S id index)
      fun s h => h.2.walkable.badAlloc rfl) fun _ =>
    Meets.bind (meets_update (Q := Filling cfg P S old id False) ?_)
      fun _ => ?_
  · rintro index ⟨rfl, h⟩
    exact h.walkable.grown h.id_lt h.stored hS hold
  · refine (tryFillSlots_meets hS ?_ False).weaken (fun s h => h) ?_
    · intro i hi
      rw [List.mem_range'_1] at hi
      omega
    · intro _ s h
      have hmem : id ∈ List.range' old (id + 1 - old) := by
        rw [List.mem_range'_1]
        omega
      rw [On, eq_true (Or.inr hmem : False ∨ id ∈ _)] at h
      exact h.add

end Slots

section Insertion

variable (rt : Runtime V D) {id : ℕ}

theorem Walkable.setRng (h : Walkable cfg P S index) (rng : ℕ → ℕ) :
    Walkable cfg P S { index with rng := rng } :=
  ⟨h.cfg_eq, h.stored, h.slots, h.links, h.entry, h.maxLayer_lt,
    h.vectors_le, h.lists_le⟩

theorem Walkable.setEntry (h : Walkable cfg P S index) (hid : S id) {top : ℕ}
    (htop : (top : ℤ) < cfg.maxLayers.toInt) :
    Walkable cfg P S { index with entryPoint := id, maxLayer := top } :=
  ⟨h.cfg_eq, h.stored, h.slots, h.links, fun _ => hid, htop,
    h.vectors_le, h.lists_le⟩

/-- The vector goes behind the zeros of the ids that were lost. -/
theorem Walkable.place (h : Walkable cfg P S index) (hid : id < index.nextId)
    (hvectors : index.vectors.length ≤ id)
    (hlists : index.neighbours.length ≤ id) (zero : V) {vec : V}
    (hvec : P vec) :
    Placed cfg P S id { index with
      vectors := (index.vectors ++
        List.replicate (id - index.vectors.length) zero).take id ++ [vec] } := by
  have hlength : (index.vectors ++
      List.replicate (id - index.vectors.length) zero).length = id := by
    rw [List.length_append, List.length_replicate]
    omega
  rw [List.take_of_length_le hlength.le]
  have hold : ∀ i, i < index.vectors.length → (index.vectors ++
      List.replicate (id - index.vectors.length) zero ++ [vec])[i]? =
        index.vectors[i]? := by
    intro i hi
    rw [List.append_assoc, List.getElem?_append_left hi]
  exact {
    walkable := {
      cfg_eq := h.cfg_eq
      stored := by
        intro i hi
        dsimp only
        rw [hold i ((h.closed 0).stored i hi)]
        exact h.stored i hi
      slots := h.slots
      links := h.links
      entry := h.entry
      maxLayer_lt := h.maxLayer_lt
      vectors_le := by
        rw [List.length_append, hlength]
        exact hid
      lists_le := h.lists_le }
    stored := by
      refine ⟨vec, ?_, hvec⟩
      dsimp only
      rw [List.getElem?_append_right hlength.le, hlength, Nat.sub_self]
      rfl
    id_lt := hid
    lists_le := hlists }

theorem sampleLayer_lt (haccepted : Accepted cfg) (hcfg : index.cfg = cfg) :
    (index.sampleLayer : ℤ) < cfg.maxLayers.toInt := by
  have hmaxLayers := haccepted.maxLayers
  unfold sampleLayer
  rw [hcfg]
  omega

theorem tryLinkNew_meets (haccepted : Accepted cfg) (vec : V)
    (hid : id + 1 < 2 ^ 32) :
    Meets (On (Placed (V := V) cfg P S id)) (tryLinkNew rt vec id)
      (fun _ => On (Walks cfg P)) (Thrown cfg P) := by
  refine Meets.bind (meets_compute_ok (Q := fun maxLayers index =>
    maxLayers = cfg.maxLayers ∧ Placed cfg P S id index)
    fun index h => ⟨_, rfl, by rw [h.walkable.cfg_eq], h⟩) fun maxLayers => ?_
  refine meets_of_imp (fun s h => h.1) ?_
  rintro rfl
  rw [Nat.mod_eq_of_lt hid]
  refine ((tryResize_meets haccepted).weaken (fun s h => h.2)
    fun _ s h => h).bind fun _ => ?_
  obtain ⟨S', hself, hS'⟩ : ∃ S' : ℕ → Prop, S' id ∧
      S' = fun i => S i ∨ i = id := ⟨_, Or.inr rfl, rfl⟩
  rw [← hS']
  refine Meets.bind (meets_compute_ok (Q := fun (nodeLayer : ℕ) index =>
    (nodeLayer : ℤ) < cfg.maxLayers.toInt ∧ Walkable cfg P S' index)
    fun index h => ⟨_, rfl, sampleLayer_lt haccepted h.cfg_eq, h⟩)
    fun nodeLayer => meets_of_imp (fun s h => h.1) fun htop => ?_
  have henter : Meets (On (Walkable (V := V) cfg P S'))
      (do
        update fun index => { index with
          entryPoint := id
          maxLayer := nodeLayer }
        return id) (fun _ => On (Walks cfg P)) (Thrown cfg P) :=
    Meets.bind (meets_update fun index h => h.setEntry hself htop)
      fun _ => meets_pure fun s h => ⟨S', h⟩
  refine Meets.bind (meets_update (Q := Walkable cfg P S')
    fun index h => h.2.setRng _) fun _ => Meets.bind (meets_compute_ok
      (Q := fun curMax index => (curMax = index.maxLayer ∧
        curMax < cfg.maxLayers.toInt) ∧ Walkable cfg P S' index)
      fun index h => ⟨_, rfl, ⟨rfl, h.maxLayer_lt⟩, h⟩) fun curMax => ?_
  refine Meets.ite (fun _ => henter.weaken (fun s h => h.2) fun _ s h => h)
    fun hsome => ?_
  refine Meets.bind (meets_compute_ok (Q := fun ep index =>
    (S' ep ∧ curMax < cfg.maxLayers.toInt) ∧ Walkable cfg P S' index) ?_)
    fun ep => meets_of_imp (fun s h => h.1) fun hep => ?_
  · rintro index ⟨⟨rfl, hlt⟩, h⟩
    obtain ⟨ep, hdescent, hep⟩ := greedyDescent_holds rt vec h.closed
      (fun _ _ hi => hi) nodeLayer (index.maxLayer.toNat - nodeLayer)
      index.entryPoint (h.entry (not_lt.mp hsome))
    exact ⟨ep, hdescent, ⟨hep, hlt⟩, h⟩
  refine ((tryLinkLayers_meets rt haccepted vec hself (by omega)
    hep.1).weaken (fun s h => h.2) fun _ s h => h).bind fun _ => ?_
  exact Meets.ite (fun _ => henter) fun _ => meets_pure fun s h => ⟨S', h⟩

theorem tryLinkNew_eq_ok {vec : V} {id' : ℕ} {s t : Running (HNSWIndex V)}
    (hok : (tryLinkNew rt vec id).run s = .ok id' t) : id' = id := by
  obtain ⟨maxLayers, s₁, _, hok⟩ := bind_eq_ok.mp hok
  obtain ⟨_, s₂, _, hok⟩ := bind_eq_ok.mp hok
  obtain ⟨nodeLayer, s₃, _, hok⟩ := bind_eq_ok.mp hok
  obtain ⟨_, s₄, _, hok⟩ := bind_eq_ok.mp hok
  obtain ⟨curMax, s₅, _, hok⟩ := bind_eq_ok.mp hok
  by_cases hempty : curMax < 0
  · rw [if_pos hempty] at hok
    obtain ⟨_, s₆, _, hok⟩ := bind_eq_ok.mp hok
    cases hok
    rfl
  · rw [if_neg hempty] at hok
    obtain ⟨ep, s₆, _, hok⟩ := bind_eq_ok.mp hok
    obtain ⟨_, s₇, _, hok⟩ := bind_eq_ok.mp hok
    by_cases htop : curMax < nodeLayer
    · rw [if_pos htop] at hok
      obtain ⟨_, s₈, _, hok⟩ := bind_eq_ok.mp hok
      cases hok
      rfl
    · rw [if_neg htop] at hok
      cases hok
      rfl

/-- An insertion that has an id left returns, or throws what the memory or the
bound of the lists makes it throw; either way the index can be walked
through. -/
theorem tryInsert_meets (haccepted : Accepted cfg) (zero : V) {vec : V}
    (hvec : P vec) :
    Meets (On fun index => index.nextId + 1 < 2 ^ 32 ∧ Walks cfg P index)
      (tryInsert rt zero vec) (fun _ => On (Walks cfg P)) (Thrown cfg P) := by
  rw [tryInsert_eq]
  intro s hs
  obtain ⟨hid, S, hwalk⟩ := hs
  refine Meets.bind (P := On fun index =>
    (index.nextId + 1 < 2 ^ 32) ∧ Walkable cfg P S index)
    (meets_compute_ok (Q := fun id index =>
      (id = index.nextId ∧ id + 1 < 2 ^ 32) ∧ Walkable cfg P S index)
      fun index h => ⟨_, rfl, ⟨rfl, h.1⟩, h.2⟩) (fun id => ?_) s ⟨hid, hwalk⟩
  refine meets_of_imp (fun s h => h.1.2) fun hid => ?_
  refine Meets.bind (meets_update (Q := fun index => index.nextId = id + 1 ∧
      (index.vectors.length ≤ id ∧ index.neighbours.length ≤ id) ∧
        Walkable cfg P S index) ?_) fun _ =>
    Meets.bind (tryGrow_meets id fun s h => h.2.2.badAlloc rfl) fun _ =>
    Meets.bind (meets_update (Q := Placed cfg P S id) ?_)
      fun _ => tryLinkNew_meets rt haccepted vec hid
  · rintro index ⟨⟨rfl, _⟩, h⟩
    refine ⟨Nat.mod_eq_of_lt hid, ⟨h.vectors_le, h.lists_le⟩, ?_⟩
    have hle : index.nextId ≤ (index.nextId + 1) % 2 ^ 32 := by
      rw [Nat.mod_eq_of_lt hid]
      omega
    exact ⟨h.cfg_eq, h.stored, h.slots, h.links, h.entry, h.maxLayer_lt,
      h.vectors_le.trans hle, h.lists_le.trans hle⟩
  · rintro index ⟨hnext, ⟨hvectors, hlists⟩, h⟩
    exact h.place (by omega) hvectors hlists zero hvec

/-- The vectors of an insertion stand behind those of the index, and that of the
id it returns is the new one. -/
theorem tryInsert_stores (zero vec : V) (vecs : List V) :
    Meets (On fun index => index.vectors = vecs ∧
        vecs.length ≤ index.nextId)
      (tryInsert rt zero vec)
      (fun id => On fun index => vecs <+: index.vectors ∧
        index.vectors[id]? = some vec)
      (fun _ => On fun index => vecs <+: index.vectors) := by
  rw [tryInsert_eq]
  refine Meets.bind (meets_compute_ok (Q := fun id index =>
    vecs.length ≤ id ∧ index.vectors = vecs) ?_) fun id => ?_
  · rintro index ⟨rfl, hle⟩
    exact ⟨_, rfl, hle, rfl⟩
  refine meets_of_imp (fun s h => h.1) fun hid => ?_
  have hfree : GraphFree fun index : HNSWIndex V =>
      vecs <+: index.vectors ∧ index.vectors[id]? = some vec :=
    ⟨fun _ _ h => h, fun _ _ _ h => h, fun _ _ h => h⟩
  refine Meets.bind (meets_update (Q := fun index => index.vectors = vecs)
      fun index h => h.2) fun _ =>
    Meets.bind (tryGrow_meets id fun s h => (h : _ = vecs) ▸ List.prefix_rfl)
      fun _ => Meets.bind (meets_update (Q := fun index =>
        vecs <+: index.vectors ∧ index.vectors[id]? = some vec) ?_) fun _ => ?_
  · rintro index rfl
    have hlength : (index.vectors ++
        List.replicate (id - index.vectors.length) zero).length = id := by
      rw [List.length_append, List.length_replicate]
      omega
    dsimp only
    rw [List.take_of_length_le hlength.le]
    constructor
    · rw [List.append_assoc]
      exact List.prefix_append _ _
    · rw [List.getElem?_append_right hlength.le, hlength, Nat.sub_self]
      rfl
  · intro s hs
    have hends := (tryLinkNew_keeps rt hfree vec id).meets s hs
    constructor
    · intro id' t hok
      have hsame : id' = id := tryLinkNew_eq_ok rt hok
      rw [hsame]
      exact hends.1 id' t hok
    · exact fun e t herr => (hends.2 e t herr).1

/-! ## Insertions one after the other -/

/-- An index behind at most `n` insertions, some of which may have thrown: it
can be walked through, and `base` is where it was. -/
structure Grown (cfg : HNSWConfig) (P : V → Prop) (base : List V) (n : ℕ)
    (index : HNSWIndex V) : Prop where
  walks : Walks cfg P index
  nextId_le : index.nextId ≤ n
  prefix_vectors : base <+: index.vectors

theorem Grown.mono {base : List V} {n n' : ℕ} (h : Grown cfg P base n index)
    (hle : n ≤ n') : Grown cfg P base n' index :=
  ⟨h.walks, h.nextId_le.trans hle, h.prefix_vectors⟩

theorem Grown.tryInsert {base : List V} {n : ℕ} {s : Running (HNSWIndex V)}
    (h : Grown cfg P base n s.obj) (haccepted : Accepted cfg)
    (hn : n + 1 < 2 ^ 32) (zero : V) {vec : V} (hvec : P vec) :
    Grown cfg P base (n + 1)
      (after (HNSWIndex.tryInsert rt zero vec) s).obj := by
  have hnextId := h.nextId_le
  obtain ⟨S, hwalk⟩ := h.walks
  refine ⟨?_, ?_, ?_⟩
  · exact (tryInsert_meets rt haccepted zero hvec).after
      (fun _ _ hok => hok) (fun _ _ herr => herr.2) ⟨by omega, h.walks⟩
  · rw [after_tryInsert]
    exact (Nat.mod_le _ _).trans (by omega)
  · exact h.prefix_vectors.trans ((tryInsert_stores rt zero vec _).after
      (fun _ _ hok => hok.1) (fun _ _ herr => herr) ⟨rfl, hwalk.vectors_le⟩)

/-- A search returns nodes that were stored, each once and at its distance. -/
theorem Walks.search_ok (h : Walks cfg P index) (query : V)
    {topK : Int32} (htopK : 1 ≤ topK.toInt) (ef : Int32) :
    ∃ out, search rt index query topK ef = .ok out ∧ (ids out).Nodup ∧
      (out.length : ℤ) ≤ topK.toInt ∧
      ∀ r ∈ out, ∃ vec, index.vectors[r.nodeId]? = some vec ∧ P vec ∧
        r.dist = rt.l2sq vec query := by
  obtain ⟨S, hwalk⟩ := h
  unfold search
  by_cases hempty : index.maxLayer < 0
  · rw [if_pos hempty]
    exact ⟨[], rfl, List.nodup_nil, by simp; omega, by simp⟩
  · rw [if_neg hempty]
    obtain ⟨ep, hdescent, hep⟩ := greedyDescent_holds rt query hwalk.closed
      (fun _ _ hi => hi) 0 index.maxLayer.toNat index.entryPoint
      (hwalk.entry (not_lt.mp hempty))
    obtain ⟨out, hsearch, hfound, _⟩ := searchLayer_ok rt (hwalk.closed 0)
      (fun i hi => hwalk.lt_nextId hi) hep query
      (if ef < topK then topK else ef)
    have hresults : ∀ r ∈ out, ∃ vec, index.vectors[r.nodeId]? = some vec ∧
        P vec ∧ r.dist = rt.l2sq vec query := by
      intro r hr
      obtain ⟨hS, vec, hvec, hdist⟩ := hfound.mem r hr
      obtain ⟨other, hother, hP⟩ := hwalk.stored r.nodeId hS
      have hsame : other = vec := Option.some.inj (hother.symm.trans hvec)
      exact ⟨vec, hvec, hsame ▸ hP, hdist⟩
    dsimp only
    rw [hdescent, except_bind_ok, hsearch, except_bind_ok]
    by_cases hlong : topK.toInt < out.length
    · rw [if_pos hlong, if_neg (by omega)]
      refine ⟨_, rfl, hfound.nodup.sublist ((List.take_sublist _ _).map _), ?_,
        fun r hr => hresults r (List.mem_of_mem_take hr)⟩
      rw [List.length_take]
      omega
    · rw [if_neg hlong]
      exact ⟨out, rfl, hfound.nodup, not_lt.mp hlong, hresults⟩

end Insertion

end HNSWIndex

end VecDB
