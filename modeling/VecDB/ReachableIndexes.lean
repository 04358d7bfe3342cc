import VecDB.HnswBackLinks
import VecDB.HnswRecall
import VecDB.ShardIndexes
import VecDB.ShardTopK
import Mathlib.Tactic

/-!
# Links and searches of a running store

What holds of the graphs and of the searches of a sharded store at any point of
a run, whatever was saved, lost and replayed before.  Links are missing only
where a list is full of nearer nodes, a search returns as long as its candidates
can be counted, and while the shards are small it returns what a scan of all
vectors would.
-/

namespace VecDB

open HNSWIndex NeighbourStore LeastPrefix

/-! ## What a scan of the vectors returns -/

namespace HNSWIndex

variable {V D : Type} [LinearOrder D]

/-- The distances of all vectors of a shard, in node order. -/
def scan (rt : Runtime V D) (query : V) (vecs : List V) :
    List (HNSWSearchResult D) :=
  vecs.mapIdx fun i vec => ⟨rt.l2sq vec query, i⟩

variable {rt : Runtime V D} {query : V} {index : HNSWIndex V} {vecs : List V}
  {out : List (HNSWSearchResult D)}

theorem mem_scan {r : HNSWSearchResult D} :
    r ∈ scan rt query vecs ↔
      ∃ vec, vecs[r.nodeId]? = some vec ∧ r.dist = rt.l2sq vec query := by
  unfold scan
  rw [List.mem_mapIdx]
  constructor
  · rintro ⟨i, hi, rfl⟩
    exact ⟨vecs[i], List.getElem?_eq_getElem hi, rfl⟩
  · rintro ⟨vec, hvec, hdist⟩
    obtain ⟨hi, hget⟩ := List.getElem?_eq_some_iff.mp hvec
    exact ⟨r.nodeId, hi, by rw [hget, ← hdist]⟩

theorem scan_subperm (hdist : ∀ r ∈ out, DistOf rt index query r.nodeId r.dist)
    (hnodup : (ids out).Nodup) : out.Subperm (scan rt query index.vectors) :=
  List.subperm_of_subset (List.Nodup.of_map _ hnodup) fun r hr =>
    mem_scan.mpr (hdist r hr)

theorem nodup_scan : (scan rt query vecs).Nodup := by
  unfold scan
  rw [List.nodup_iff_injective_get]
  intro i j hij
  simp only [List.get_eq_getElem, List.getElem_mapIdx,
    HNSWSearchResult.mk.injEq] at hij
  exact Fin.ext hij.2

/-- The nearest of all nodes are the front of the sorted scan. -/
theorem Nearest.keepsLeast {k : ℕ}
    (h : Nearest rt index query (fun i => i < index.vectors.length) k out) :
    KeepsLeast HNSWSearchResult.dist k (scan rt query index.vectors) out := by
  obtain ⟨all, rfl, hnodup, hmem, hdist, hsorted⟩ := h
  have hall : all.Perm (scan rt query index.vectors) := by
    apply (List.perm_ext_iff_of_nodup (List.Nodup.of_map _ hnodup)
      nodup_scan).mpr
    intro r
    rw [mem_scan]
    refine ⟨hdist r, ?_⟩
    rintro ⟨vec, hvec, hr⟩
    obtain ⟨r', hr', hid⟩ := List.mem_map.mp
      ((hmem r.nodeId).mpr (List.getElem?_eq_some_iff.mp hvec).1)
    obtain ⟨vec', hvec', hdist'⟩ := hdist r' hr'
    rw [hid, hvec] at hvec'
    cases hvec'
    have hsame : r' = r := by
      cases r
      cases r'
      simp only [HNSWSearchResult.mk.injEq]
      exact ⟨hdist'.trans hr.symm, hid⟩
    rwa [← hsame]
  refine ⟨(List.take_sublist k all).subperm.trans hall.subperm, all.take k,
    all.drop k, by rwa [List.take_append_drop], ?_, ?_, List.Subperm.refl _⟩
  · rw [List.length_take, hall.length_eq]
  · intro a ha b hb
    rw [← List.take_append_drop k all] at hsorted
    exact (List.pairwise_append.mp hsorted).2.2 a ha b hb

end HNSWIndex

namespace Deployment

variable {D : Type} [LinearOrder D] {dep : Deployment D} {os : OS}
  {ps : PartialSorter (HNSWSearchResult D)} {events : List (Event dep.Dim)}
  {m : ShardManager dep.Dim}

theorem eventRun_calls (ops : List (ShardManager.Op dep.Dim))
    (m : ShardManager dep.Dim) :
    dep.eventRun os ps (ops.map .call) m = dep.run os ops m := by
  induction ops generalizing m with
  | nil => rfl
  | cons op ops ih =>
      rw [List.map_cons, eventRun, run]
      exact congrArg _ (funext ih)

/-- An insert that goes to a shard inserts into its index. -/
theorem insert_index {vectorId : UInt64} {vec : Vec dep.Dim} {out : ℕ × ℕ}
    {m m' : ShardManager dep.Dim} {s : ℕ} {ss : ShardState dep.Dim}
    (howner : m.ring.getShard vectorId = .ok s) (hss : m.shards[s]? = some ss)
    (hok : m.insert os dep.rt vectorId vec = .ok (out, m')) :
    m'.ring = m.ring ∧ ∃ ss', m'.shards[s]? = some ss' ∧
      ss'.healthy = ss.healthy ∧
      insertAll dep.rt [vec] ss.index = .ok ss'.index := by
  rw [ShardManager.insert, howner, except_bind_ok, hss] at hok
  obtain ⟨⟨nodeId, ss'⟩, hshard, hok⟩ := except_bind_eq_ok.mp hok
  cases hok
  refine ⟨rfl, ss',
    List.getElem?_set_self (List.getElem?_eq_some_iff.mp hss).1, ?_⟩
  unfold ShardState.insert at hshard
  cases hrun : (WAL.append os vectorId vec).run ss.wal with
  | error e wal =>
      rw [hrun] at hshard
      cases hshard
  | ok lsn wal =>
      rw [hrun] at hshard
      obtain ⟨⟨id, index⟩, hinsert, hshard⟩ := except_bind_eq_ok.mp hshard
      cases hshard
      refine ⟨rfl, ?_⟩
      rw [insertAll, hinsert]
      rfl

/-- Inserts that all go to one shard insert into its index. -/
theorem insertEach_insertAll {calls : List (UInt64 × Vec dep.Dim)}
    {outs : List (ℕ × ℕ)} {m m' : ShardManager dep.Dim} {s : ℕ}
    {ss : ShardState dep.Dim}
    (howner : ∀ call ∈ calls, m.ring.getShard call.1 = .ok s)
    (hss : m.shards[s]? = some ss)
    (hok : m.insertEach os dep.rt calls = .ok (outs, m')) :
    ∃ ss', m'.shards[s]? = some ss' ∧ ss'.healthy = ss.healthy ∧
      insertAll dep.rt (calls.map Prod.snd) ss.index = .ok ss'.index := by
  induction calls generalizing m ss outs with
  | nil =>
      cases hok
      exact ⟨ss, hss, rfl, rfl⟩
  | cons call calls ih =>
      obtain ⟨hfirst, hrest⟩ := List.forall_mem_cons.mp howner
      obtain ⟨out, rest, m₁, hinsert, hothers, rfl⟩ :=
        insertEach_cons_eq_ok hok
      obtain ⟨hring, ss₁, hss₁, hhealthy, hindex⟩ :=
        insert_index hfirst hss hinsert
      obtain ⟨ss', hss', hhealthy', hall⟩ :=
        ih (by rwa [hring]) hss₁ hothers
      refine ⟨ss', hss', hhealthy'.trans hhealthy, ?_⟩
      rw [List.map_cons, ← List.singleton_append, insertAll_append, hindex]
      exact hall

/-! ### Points in the only shard -/

def point (word : UInt8) : Vec oneShard.Dim :=
  Vec.ofBytes _ [word, 0, 0, 0]

def pointCalls (words : List UInt8) : List (UInt64 × Vec oneShard.Dim) :=
  words.map fun word => (word.toUInt64, point word)

def pointInserts (words : List UInt8) : List (Event oneShard.Dim) :=
  ((pointCalls words).map fun call => .insert call.1 call.2).map .call

theorem pointInserts_reached (words : List UInt8)
    (hfew : words.length < 2 ^ 32) : ∃ index₀ m ss,
    HNSWIndex.new smallConfig (fun _ => 0) = .ok index₀ ∧
    Reached oneShard OS.reliable (Sorter.insertion _).front
      (pointInserts words) m ∧
    m.shards = [ss] ∧ ss.healthy = true ∧
    vectorsOf m.ring (pointInserts words) 0 = words.map point ∧
    insertAll oneShard.rt (words.map point) index₀ = .ok ss.index := by
  obtain ⟨m₀, hstart⟩ := oneShard_start fun _ _ => 0
  have hrefines := start_fresh hstart
  obtain ⟨ss₀, hshards₀, hhealthy₀⟩ := oneShard_shards hstart
  have hss₀ : m₀.shards[0]? = some ss₀ := by
    rw [hshards₀]
    rfl
  have hlength : (pointCalls words).length = words.length :=
    List.length_map _
  obtain ⟨outs, m, hinserts⟩ := hrefines.insertEach_ok
    oneShard_entrySize (by decide) (pointCalls words)
    (fun s => by simpa [LoggedStore.empty, hlength] using hfew)
    (fun s => by
      simp only [LoggedStore.empty, hlength, List.length_nil]
      omega)
  have hreached : Reached oneShard OS.reliable (Sorter.insertion _).front
      (pointInserts words) m := by
    refine ⟨_, m₀, hstart, ?_⟩
    rw [pointInserts, eventRun_calls]
    exact insertEach_run hinserts
  obtain ⟨ss, hss, hhealthy, hindex⟩ := insertEach_insertAll
    (fun call _ => oneShard_getShard hrefines call.1) hss₀ hinserts
  obtain ⟨_, _, _, _, _, hnew⟩ := start_eq_ok hstart
  obtain ⟨index₀, wal, hindex₀, _, rfl⟩ :=
    ShardState.new_eq_ok.mp (hnew 0 ss₀ hss₀)
  have hvecs : (pointCalls words).map Prod.snd = words.map point := by
    rw [pointCalls, List.map_map]
    rfl
  rw [hvecs] at hindex
  refine ⟨index₀, m, ss, hindex₀, hreached, ?_, hhealthy, ?_, hindex⟩
  · obtain ⟨only, honly⟩ := List.length_eq_one_iff.mp hreached.refines.length_eq
    rw [honly] at hss
    cases hss
    exact honly
  · have hops : (pointInserts words).filterMap Event.op? =
        (pointCalls words).map fun call => .insert call.1 call.2 := by
      unfold pointInserts
      rw [List.filterMap_map]
      exact List.filterMap_some
    unfold vectorsOf history
    rw [hops, requests_inserts, oneShard_routedTo hreached.refines,
      (LoggedStore.serve_inserts ..).1]
    exact hvecs

/-! ## Links -/

theorem returnedInvariant (cfg : HNSWConfig)
    (rt : Runtime (Vec cfg.dim.toUInt32) D) :
    IndexInvariant cfg rt (AllReturned rt) where
  new := by
    intro rng index hnew layer i j hj
    have hlist := (new_repInv hnew).graph.list i layer
    exact absurd (hlist.members j hj).lt (Nat.not_lt_zero j)
  insert := by
    intro index vecs vec id index' hstores hreturned hok
    have hroom := hstores.storable_of_insert rt hok
    obtain ⟨layers, hrep⟩ := hstores.rep
    have hlength : layers.length = vecs.length := by
      rw [← hrep.vectors, hstores.vectors_eq]
    refine hrep.insert_returned rt (by rw [hlength]; exact hroom.1) ?_
      hreturned hok
    intro hlayers
    have hpos := List.length_pos_iff.mpr hlayers
    rw [hstores.cfg_eq]
    exact hroom.2 (by omega)
  reloaded := fun _ _ hreturned => hreturned

/-- A link that is not returned was cut: the list it is missing from is full,
and none of its links is longer. -/
theorem links_returned_unless_full (h : Reached dep os ps events m)
    {s : ℕ} {ss : ShardState dep.Dim} (hss : m.shards[s]? = some ss)
    {i j layer : ℕ} (hj : j ∈ getNeighbours ss.index.neighbours i layer) :
    i ∈ getNeighbours ss.index.neighbours j layer ∨
      (getNeighbours ss.index.neighbours j layer).length =
          (layerM dep.cfg layer).toInt.toNat ∧
        ∃ u v, (vectorsOf m.ring events s)[i]? = some u ∧
          (vectorsOf m.ring events s)[j]? = some v ∧
          ∀ k ∈ getNeighbours ss.index.neighbours j layer, ∃ w,
            (vectorsOf m.ring events s)[k]? = some w ∧
              dep.rt.l2sq v w ≤ dep.rt.l2sq v u := by
  have hreturned := h.index (returnedInvariant dep.cfg dep.rt)
    (List.mem_of_getElem? hss)
  have hstores := h.stores hss
  obtain ⟨layers, hrep⟩ := hstores.rep
  have hstored : ∀ k < layers.length, ∃ w,
      (vectorsOf m.ring events s)[k]? = some w ∧
        ∀ v, linkDist dep.rt ss.index.vectors v k = dep.rt.l2sq v w := by
    intro k hk
    have hlt : k < ss.index.vectors.length := by rwa [hrep.vectors]
    refine ⟨ss.index.vectors[k], ?_, fun v => ?_⟩
    · rw [← hstores.vectors_eq, List.getElem?_eq_getElem hlt]
    · unfold linkDist
      rw [List.getD_eq_getElem _ _ hlt]
  rcases hreturned layer i j hj with hback | ⟨v, hv, hcovers⟩
  · exact Or.inl hback
  · right
    have hlist := hrep.graph.list j layer
    obtain ⟨hfull, hnearer⟩ := Covers.full hcovers hlist.length_le
    rw [hstores.cfg_eq] at hfull
    have howner := (hrep.graph.list i layer).owner (List.ne_nil_of_mem hj)
    obtain ⟨u, hu, hudist⟩ := hstored i howner.lt
    refine ⟨hfull, u, v, hu, by rwa [← hstores.vectors_eq], ?_⟩
    intro k hk
    obtain ⟨w, hw, hwdist⟩ := hstored k (hlist.members k hk).lt
    refine ⟨w, hw, ?_⟩
    rw [← hwdist, ← hudist]
    exact hnearer k hk

/-- Of four points on a line, node 2 has cut its link to the far node 3. -/
theorem links_returned_unless_full_oneShard : ∃ m ss,
    Reached oneShard OS.reliable (Sorter.insertion _).front
      (pointInserts [0, 1, 2, 100]) m ∧
    m.shards[0]? = some ss ∧ 2 ∈ getNeighbours ss.index.neighbours 3 0 ∧
    3 ∉ getNeighbours ss.index.neighbours 2 0 ∧
    (getNeighbours ss.index.neighbours 2 0).length = 2 ∧
    ∃ u v, (vectorsOf m.ring (pointInserts [0, 1, 2, 100]) 0)[3]? = some u ∧
      (vectorsOf m.ring (pointInserts [0, 1, 2, 100]) 0)[2]? = some v ∧
      ∀ k ∈ getNeighbours ss.index.neighbours 2 0, ∃ w,
        (vectorsOf m.ring (pointInserts [0, 1, 2, 100]) 0)[k]? = some w ∧
          oneShard.rt.l2sq v w ≤ oneShard.rt.l2sq v u := by
  obtain ⟨index₀, m, ss, hnew, hreached, hshards, _, _, hindex⟩ :=
    pointInserts_reached [0, 1, 2, 100] (by decide)
  have hss : m.shards[0]? = some ss := by
    rw [hshards]
    rfl
  have hgraph : (do
      let index₀ ← HNSWIndex.new smallConfig fun _ => 0
      let index ← insertAll oneShard.rt ([0, 1, 2, 100].map point) index₀
      return (getNeighbours index.neighbours 3 0,
        getNeighbours index.neighbours 2 0)) =
      (.ok ([2, 1], [1, 0]) : Except Failure (List ℕ × List ℕ)) := by
    decide +kernel
  rw [hnew, except_bind_ok, hindex] at hgraph
  obtain ⟨hthree, htwo⟩ := Prod.mk.inj (Except.ok.inj hgraph)
  have hlink : 2 ∈ getNeighbours ss.index.neighbours 3 0 := by
    rw [hthree]
    decide
  have hcut : 3 ∉ getNeighbours ss.index.neighbours 2 0 := by
    rw [htwo]
    decide
  obtain ⟨hlength, u, v, hu, hv, hnearer⟩ :=
    (links_returned_unless_full hreached hss hlink).resolve_left hcut
  exact ⟨m, ss, hreached, hss, hlink, hcut, hlength, u, v, hu, hv, hnearer⟩

/-! ## Searches -/

/-- Layer 0 is whole while no list of it can overflow. -/
def WholeIfSmall {V : Type} (index : HNSWIndex V) : Prop :=
  index.vectors ≠ [] → index.vectors.length ≤ maxLinks index.cfg 0 + 1 →
    Whole index index.vectors.length

theorem wholeInvariant (cfg : HNSWConfig)
    (rt : Runtime (Vec cfg.dim.toUInt32) D) :
    IndexInvariant cfg rt WholeIfSmall where
  new := by
    intro rng index hnew hne
    exact absurd (new_stores hnew).vectors_eq hne
  insert := by
    intro index vecs vec id index' hstores hwhole hok hne hsmall
    obtain ⟨layers, hrep⟩ := hstores.rep
    have hroom := hstores.storable_of_insert rt hok
    obtain ⟨_, hstores'⟩ := hstores.insert_eq_ok rt hok
    have hlength : layers.length = vecs.length := by
      rw [← hrep.vectors, hstores.vectors_eq]
    rw [hstores'.vectors_eq, List.length_append, List.length_singleton,
      hstores'.cfg_eq] at hsmall
    rw [hstores'.vectors_eq, List.length_append, List.length_singleton,
      ← hlength]
    rw [← hlength] at hroom hsmall
    cases hlayers : layers with
    | nil =>
        obtain ⟨layers', hrep'⟩ := hstores'.rep
        have hone : layers'.length = 1 := by
          rw [← hrep'.vectors, hstores'.vectors_eq, List.length_append,
            ← hlength, hlayers]
          rfl
        obtain ⟨top, rfl⟩ := List.length_eq_one_iff.mp hone
        exact hrep'.whole_single
    | cons first rest =>
        rw [← hlayers]
        have hpos : layers.length ≠ 0 := by simp [hlayers]
        have hrun : HNSWIndex.insertAll rt [vec] index = .ok index' := by
          rw [HNSWIndex.insertAll, hok]
          rfl
        refine hrep.insertAll_whole rt hstores.cfg_eq (hroom.2 (by omega)) ?_
          [vec] hroom.1 hsmall hrun (Nat.succ_ne_zero _)
        intro _
        rw [← hrep.vectors]
        refine hwhole ?_ ?_
        · exact List.length_pos_iff.mp (by rw [hrep.vectors]; omega)
        · rw [hrep.vectors, hstores.cfg_eq]
          omega
  reloaded := fun _ _ hwhole hne hsmall =>
    ⟨(hwhole hne hsmall).symm, (hwhole hne hsmall).connected⟩

/-- What a shard adds to the answer of a search. -/
def asked (dep : Deployment D) (ring : ConsistentHashRing)
    (events : List (Event dep.Dim)) (query : Vec dep.Dim) (throws : ℕ → Bool)
    (ss : ShardState dep.Dim) : List (HNSWSearchResult D) :=
  if ss.healthy = true ∧ throws ss.shardId = false then
    scan dep.rt query (vectorsOf ring events ss.shardId)
  else []

variable {query : Vec dep.Dim} {topK ef : Int32} {throws : ℕ → Bool}

theorem contribution_of_asked {ss : ShardState dep.Dim}
    {answer : List (HNSWSearchResult D)}
    (hasked : ss.healthy = true ∧ throws ss.shardId = false)
    (hanswer : ss.index.search dep.rt query topK
      (ShardManager.efActual m.cfg ef) = .ok answer) :
    contribution (m.searchTasks dep.rt query topK ef throws) ss = answer := by
  unfold contribution ShardManager.searchTasks ShardState.searchTask
  rw [if_neg (by simp [hasked.1]), if_neg (by simp [hasked.2]), hanswer]

theorem contribution_of_not_asked {ss : ShardState dep.Dim}
    (hasked : ¬ (ss.healthy = true ∧ throws ss.shardId = false)) :
    contribution (m.searchTasks dep.rt query topK ef throws) ss = [] := by
  unfold contribution ShardManager.searchTasks ShardState.searchTask
  by_cases hhealthy : ss.healthy = false
  · rw [if_pos hhealthy]
  · rw [Bool.not_eq_false] at hhealthy
    have hthrows : throws ss.shardId = true := by
      rw [← Bool.not_eq_false]
      exact fun hnot => hasked ⟨hhealthy, hnot⟩
    rw [if_neg (by simp [hhealthy]), if_pos hthrows]

/-- What a shard returns was stored there, and is at the distance it says. -/
theorem Reached.contribution_subperm (h : Reached dep os ps events m)
    (query : Vec dep.Dim) (topK ef : Int32) (throws : ℕ → Bool) {s : ℕ}
    {ss : ShardState dep.Dim} (hss : m.shards[s]? = some ss) :
    (contribution (m.searchTasks dep.rt query topK ef throws) ss).Subperm
      (asked dep m.ring events query throws ss) := by
  have hstores := h.stores hss
  obtain ⟨layers, hrep⟩ := hstores.rep
  have hid := (h.refines.shard s ss hss).2
  unfold asked
  by_cases hasked : ss.healthy = true ∧ throws ss.shardId = false
  · rw [if_pos hasked, hid, ← hstores.vectors_eq]
    obtain ⟨hdist, hnodup⟩ := contribution_hits m query topK ef throws hrep
    exact scan_subperm hdist hnodup
  · rw [if_neg hasked, contribution_of_not_asked hasked]

theorem flatten_subperm {α : Type} {parts wholes : List (List α)}
    (h : List.Forall₂ List.Subperm parts wholes) :
    parts.flatten.Subperm wholes.flatten := by
  induction h with
  | nil => exact List.Subperm.refl _
  | cons hfirst _ ih => exact hfirst.append ih

theorem Reached.contribution_eq_nil_iff (h : Reached dep os ps events m)
    (htopK : 1 ≤ topK.toInt) (query : Vec dep.Dim) (ef : Int32)
    (throws : ℕ → Bool) {s : ℕ} {ss : ShardState dep.Dim}
    (hss : m.shards[s]? = some ss) :
    contribution (m.searchTasks dep.rt query topK ef throws) ss = [] ↔
      asked dep m.ring events query throws ss = [] := by
  constructor
  · intro hnone
    unfold asked
    by_cases hasked : ss.healthy = true ∧ throws ss.shardId = false
    · rw [if_pos hasked, (h.refines.shard s ss hss).2]
      have hstores := h.stores hss
      obtain ⟨layers, hrep⟩ := hstores.rep
      by_contra hsome
      have hlayers : layers ≠ [] := by
        rintro rfl
        have hvectors := List.length_eq_zero_iff.mp hrep.vectors
        rw [hstores.vectors_eq] at hvectors
        rw [hvectors] at hsome
        exact hsome rfl
      obtain ⟨out, hout⟩ | ⟨hneg, _⟩ := hrep.search_returns dep.rt query topK
        (ShardManager.efActual m.cfg ef)
      · rw [contribution_of_asked hasked hout] at hnone
        exact hrep.search_ne_nil hlayers htopK hout hnone
      · omega
    · rw [if_neg hasked]
  · intro hnone
    have hsub := h.contribution_subperm query topK ef throws hss
    rw [hnone] at hsub
    exact List.subperm_nil.mp hsub

/-- As long as the `int` that counts the candidates is not cut, a search
returns, whatever was lost and replayed before.  It returns vectors that are
stored on the shards that answer, at their distances, in order, each at most
once and never more than `topK`; and some if there are any. -/
theorem search_sound (h : Reached dep os ps events m)
    (htopK : 1 ≤ topK.toInt)
    (hcounts : CountsEnough (m.partials dep.rt query topK ef throws) topK) :
    ∃ result m', m.search dep.rt ps query topK ef throws = (.ok result, m') ∧
      result.results.Subperm
        (m.shards.flatMap (asked dep m.ring events query throws)) ∧
      (result.results.Pairwise fun a b => a.dist ≤ b.dist) ∧
      (result.results.length : ℤ) ≤ topK.toInt ∧
      (result.results = [] ↔
        m.shards.flatMap (asked dep m.ring events query throws) = []) := by
  obtain ⟨result, hsearch⟩ := ShardManager.search_ok dep.rt ps
    (by omega : 0 ≤ topK.toInt) hcounts
  obtain ⟨hmerge, _⟩ := ShardManager.search_eq_ok hsearch
  have hleast := mergeResults_leastOf hcounts hmerge
  have hlength := hleast.length_eq
  obtain ⟨rest, hperm, _⟩ := hleast.rest
  refine ⟨result, _, hsearch, ?_, hleast.sorted, by omega, ?_⟩
  · refine ((List.sublist_append_left _ rest).subperm.trans
      hperm.subperm).trans ?_
    rw [List.flatMap_def]
    apply flatten_subperm
    unfold ShardManager.partials
    rw [List.forall₂_map_left_iff, List.forall₂_map_right_iff,
      List.forall₂_same]
    intro ss hss
    obtain ⟨s, hs⟩ := List.mem_iff_getElem?.mp hss
    exact h.contribution_subperm query topK ef throws hs
  · have hparts : result.results = [] ↔
        (m.partials dep.rt query topK ef throws).flatten = [] := by
      rw [← List.length_eq_zero_iff, ← List.length_eq_zero_iff]
      omega
    unfold ShardManager.partials at hparts
    rw [hparts, List.flatten_eq_nil_iff, List.flatMap_eq_nil_iff,
      List.forall_mem_map]
    refine forall_congr' fun ss => forall_congr' fun hss => ?_
    obtain ⟨s, hs⟩ := List.mem_iff_getElem?.mp hss
    exact h.contribution_eq_nil_iff htopK query ef throws hs

theorem asked_points (words : List UInt8) {m : ShardManager oneShard.Dim}
    {ss : ShardState oneShard.Dim}
    (hreached : Reached oneShard OS.reliable (Sorter.insertion _).front
      (pointInserts words) m) (hshards : m.shards = [ss])
    (hhealthy : ss.healthy = true)
    (hvectors : vectorsOf m.ring (pointInserts words) 0 = words.map point)
    (query : Vec oneShard.Dim) :
    m.shards.flatMap (asked oneShard m.ring (pointInserts words) query
        fun _ => false) = scan oneShard.rt query (words.map point) := by
  have hid : ss.shardId = 0 := (hreached.refines.shard 0 ss (by
    rw [hshards]
    rfl)).2
  rw [hshards, List.flatMap_singleton, asked, if_pos ⟨hhealthy, rfl⟩, hid,
    hvectors]

theorem countsEnough_oneShard {m : ShardManager oneShard.Dim}
    {ss : ShardState oneShard.Dim} (hshards : m.shards = [ss])
    (query : Vec oneShard.Dim) {topK : Int32} (htopK : 1 ≤ topK.toInt)
    (ef : Int32) (throws : ℕ → Bool) :
    CountsEnough (m.partials oneShard.rt query topK ef throws) topK := by
  apply ShardManager.countsEnough_of_shards _ _ (by omega)
  have hlt := topK.toInt_lt
  rw [hshards, List.length_singleton]
  omega

/-- Four vectors are stored, and the far one has lost its links. -/
theorem search_sound_oneShard : ∃ m result m',
    Reached oneShard OS.reliable (Sorter.insertion _).front
      (pointInserts [0, 1, 2, 100]) m ∧
    m.search oneShard.rt (Sorter.insertion _).front (point 100) 2 0
      (fun _ => false) = (.ok result, m') ∧
    result.results ≠ [] ∧ (result.results.length : ℤ) ≤ 2 ∧
    result.results.Subperm
      (scan oneShard.rt (point 100) ([0, 1, 2, 100].map point)) := by
  obtain ⟨_, m, ss, _, hreached, hshards, hhealthy, hvectors, _⟩ :=
    pointInserts_reached [0, 1, 2, 100] (by decide)
  have htopK : 1 ≤ (2 : Int32).toInt := by decide
  obtain ⟨result, m', hsearch, hsub, _, hlength, hnone⟩ :=
    search_sound hreached htopK
      (countsEnough_oneShard hshards (point 100) htopK 0 fun _ => false)
  have hasked := asked_points [0, 1, 2, 100] hreached hshards hhealthy
    hvectors (point 100)
  rw [hasked] at hsub hnone
  exact ⟨m, result, m', hreached, hsearch, mt hnone.mp (by decide), hlength,
    hsub⟩

/-! ### Small shards -/

theorem Reached.contribution_keepsLeast (h : Reached dep os ps events m)
    (htopK : 1 ≤ topK.toInt) (query : Vec dep.Dim) (throws : ℕ → Bool) {s : ℕ}
    {ss : ShardState dep.Dim} (hss : m.shards[s]? = some ss)
    (hsmall : ((vectorsOf m.ring events s).length : ℤ) ≤
      dep.cfg.Mmax0.toInt + 1)
    (hef : ((vectorsOf m.ring events s).length : ℤ) ≤
      (ShardManager.efActual dep.cfg ef).toInt) :
    KeepsLeast HNSWSearchResult.dist topK.toInt.toNat
      (asked dep m.ring events query throws ss)
      (contribution (m.searchTasks dep.rt query topK ef throws) ss) := by
  unfold asked
  by_cases hasked : ss.healthy = true ∧ throws ss.shardId = false
  · have hstores := h.stores hss
    have hvectors := hstores.vectors_eq
    have hwhole := h.index (wholeInvariant dep.cfg dep.rt)
      (List.mem_of_getElem? hss)
    obtain ⟨layers, hrep⟩ := hstores.rep
    rw [if_pos hasked, (h.refines.shard s ss hss).2]
    rw [← h.refines.cfg_eq] at hef
    rw [← hvectors] at hsmall hef ⊢
    by_cases hlayers : layers = []
    · have hempty := hrep.empty hlayers
      have hnone : ss.index.vectors = [] := by
        rw [← List.length_eq_zero_iff, hrep.vectors, hlayers]
        rfl
      have hanswer : ss.index.search dep.rt query topK
          (ShardManager.efActual m.cfg ef) = .ok [] := by
        rw [search, if_pos (by omega)]
        rfl
      rw [contribution_of_asked hasked hanswer, hnone]
      exact keepsLeast_of_length_le (Nat.zero_le _)
    · obtain ⟨ep, out, _, hep, hsearch, hnearest⟩ := hrep.search_nearest dep.rt
        hlayers query htopK (by rwa [← hrep.vectors])
      have hsome : ss.index.vectors ≠ [] := by
        rw [← List.length_pos_iff, hrep.vectors]
        exact List.length_pos_iff.mpr hlayers
      have hconnected := (hwhole hsome (by
        have hmaxLinks : maxLinks ss.index.cfg 0 =
            dep.cfg.Mmax0.toInt.toNat := by
          rw [hstores.cfg_eq]
          rfl
        rw [hmaxLinks]
        omega)).connected
      have hclosed := hrep.closed ss.index hrep.vectors.ge (fun _ _ => rfl) 0
      have hall := hnearest.congr (T := fun i => i < ss.index.vectors.length)
        fun i => by
          rw [hrep.vectors]
          refine ⟨fun hreach => (hclosed.reachable hep hreach).lt, fun hi => ?_⟩
          apply hconnected ep i
          · rw [hrep.vectors]
            exact hep.lt
          · rwa [hrep.vectors]
      rw [contribution_of_asked hasked hsearch]
      exact hall.keepsLeast
  · rw [if_neg hasked, contribution_of_not_asked hasked]
    exact keepsLeast_of_length_le (Nat.zero_le _)

/-- While no shard is larger than a list of layer 0 and one vector more, `ef`
covers the shards and the candidates can be counted, a search returns what a
scan of all vectors would. -/
theorem search_scans_small_shards (h : Reached dep os ps events m)
    (htopK : 1 ≤ topK.toInt)
    (hsmall : ∀ s < dep.shardCount.toNat,
      ((vectorsOf m.ring events s).length : ℤ) ≤ dep.cfg.Mmax0.toInt + 1)
    (hef : ∀ s < dep.shardCount.toNat,
      ((vectorsOf m.ring events s).length : ℤ) ≤
        (ShardManager.efActual dep.cfg ef).toInt)
    (hcounts : CountsEnough (m.partials dep.rt query topK ef throws) topK) :
    ∃ result m', m.search dep.rt ps query topK ef throws = (.ok result, m') ∧
      LeastOf HNSWSearchResult.dist topK.toInt.toNat
        (m.shards.flatMap (asked dep m.ring events query throws))
        result.results := by
  obtain ⟨result, hsearch⟩ := ShardManager.search_ok dep.rt ps
    (by omega : 0 ≤ topK.toInt) hcounts
  obtain ⟨hmerge, _⟩ := ShardManager.search_eq_ok hsearch
  have hparts : List.Forall₂
      (KeepsLeast HNSWSearchResult.dist topK.toInt.toNat)
      (m.shards.map (asked dep m.ring events query throws))
      (m.partials dep.rt query topK ef throws) := by
    unfold ShardManager.partials
    rw [List.forall₂_map_left_iff, List.forall₂_map_right_iff,
      List.forall₂_same]
    intro ss hss
    obtain ⟨s, hs⟩ := List.mem_iff_getElem?.mp hss
    have hlt := h.refines.lt_shardCount hs
    exact h.contribution_keepsLeast htopK query throws hs (hsmall s hlt)
      (hef s hlt)
  obtain ⟨dropped, hall, hcovers⟩ := covers_flatten hparts
  refine ⟨result, _, hsearch, ?_⟩
  rw [List.flatMap_def]
  exact (mergeResults_leastOf hcounts hmerge).of_covers hall hcovers

theorem search_scans_small_shards_oneShard : ∃ m result m',
    Reached oneShard OS.reliable (Sorter.insertion _).front
      (pointInserts [5, 1, 9]) m ∧
    m.search oneShard.rt (Sorter.insertion _).front (point 3) 2 3
      (fun _ => false) = (.ok result, m') ∧
    LeastOf HNSWSearchResult.dist 2
      (scan oneShard.rt (point 3) ([5, 1, 9].map point)) result.results := by
  obtain ⟨_, m, ss, _, hreached, hshards, hhealthy, hvectors, _⟩ :=
    pointInserts_reached [5, 1, 9] (by decide)
  have htopK : 1 ≤ (2 : Int32).toInt := by decide
  have hall : ∀ s < oneShard.shardCount.toNat,
      ((vectorsOf m.ring (pointInserts [5, 1, 9]) s).length : ℤ) = 3 := by
    intro s hs
    have hcount : oneShard.shardCount.toNat = 1 := rfl
    obtain rfl : s = 0 := by omega
    rw [hvectors]
    rfl
  obtain ⟨result, m', hsearch, hleast⟩ := search_scans_small_shards hreached
    htopK (fun s hs => by rw [hall s hs]; decide)
    (fun s hs => by rw [hall s hs]; decide : ∀ s < oneShard.shardCount.toNat,
      _ ≤ (ShardManager.efActual oneShard.cfg 3).toInt)
    (countsEnough_oneShard hshards (point 3) htopK 3 fun _ => false)
  rw [asked_points [5, 1, 9] hreached hshards hhealthy hvectors] at hleast
  exact ⟨m, result, m', hreached, hsearch, hleast⟩

end Deployment
end VecDB
