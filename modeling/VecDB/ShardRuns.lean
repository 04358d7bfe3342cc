import VecDB.ShardRefinement
import Mathlib.Tactic

/-!
# Runs of a sharded store

A manager is started on a data directory and serves calls one after another;
a restart builds a new one on what the old one left, with or without loading.
On every shard such a run is a run of the logged store over the requests that
concern the shard.
-/

namespace VecDB

open LoggedStore

/-! ## Loops over the shards -/

theorem mapM_eq_ok {ε α β : Type} {f : α → Except ε β} {l : List α}
    {l' : List β} (hok : l.mapM f = .ok l') :
    l'.length = l.length ∧ ∀ (i : ℕ) (b : β), l'[i]? = some b →
      ∃ a : α, l[i]? = some a ∧ f a = .ok b := by
  induction l generalizing l' with
  | nil =>
      cases hok
      simp
  | cons a l ih =>
      rw [List.mapM_cons, except_bind_eq_ok] at hok
      obtain ⟨b, hb, hok⟩ := hok
      rw [except_bind_eq_ok] at hok
      obtain ⟨rest, hrest, hok⟩ := hok
      cases hok
      obtain ⟨hlength, hall⟩ := ih hrest
      refine ⟨by simp [hlength], ?_⟩
      intro i c hc
      cases i with
      | zero =>
          simp only [List.getElem?_cons_zero, Option.some.injEq] at hc ⊢
          exact ⟨a, rfl, by rwa [← hc]⟩
      | succ i =>
          simp only [List.getElem?_cons_succ] at hc ⊢
          exact hall i c hc

theorem mapM_ok {ε α β : Type} {f : α → Except ε β} {l : List α}
    (hf : ∀ a ∈ l, ∃ b, f a = .ok b) : ∃ l', l.mapM f = .ok l' := by
  induction l with
  | nil => exact ⟨[], rfl⟩
  | cons a l ih =>
      obtain ⟨b, hb⟩ := hf a (by simp)
      obtain ⟨rest, hrest⟩ := ih fun c hc => hf c (by simp [hc])
      refine ⟨b :: rest, ?_⟩
      rw [List.mapM_cons, hb, except_bind_ok, hrest]
      rfl

/-! ## Deployments and their runs -/

/-- What is the same at every start of the process. -/
structure Deployment (D : Type) [LT D] [DecidableLT D] where
  cfg : HNSWConfig
  shardCount : UInt32
  dataDir : String
  virtualNodes : UInt32
  sorter : Sorter VNode
  rt : Runtime (Vec cfg.dim.toUInt32) D

/-- A call, or the end of the process and its next start. -/
inductive ShardManager.Op (dim : UInt32) where
  | insert (vectorId : UInt64) (vec : Vec dim)
  | snapshotAll (ns : ℕ → ℕ)
  | restart (load : Bool) (rngs : ℕ → ℕ → ℕ)

namespace Deployment

section Model

variable {D : Type} [Preorder D] [DecidableLT D] (dep : Deployment D)

abbrev Dim : UInt32 := dep.cfg.dim.toUInt32

def start (os : OS) (rngs : ℕ → ℕ → ℕ) (disk : ℕ → ShardFiles) :
    Except Failure (ShardManager dep.Dim) :=
  ShardManager.new os dep.sorter dep.cfg dep.shardCount dep.dataDir
    dep.virtualNodes rngs disk

/-- A new process on the data directory of `m`. -/
def restart (os : OS) (load : Bool) (rngs : ℕ → ℕ → ℕ)
    (m : ShardManager dep.Dim) : Except Failure (ShardManager dep.Dim) := do
  let m ← dep.start os rngs m.close
  if load then m.loadAll os dep.rt else return m

def step (os : OS) : ShardManager.Op dep.Dim → ShardManager dep.Dim →
    Except Failure (ShardManager dep.Dim)
  | .insert vectorId vec, m => do
      let (_, m) ← m.insert os dep.rt vectorId vec
      return m
  | .snapshotAll ns, m => m.snapshotAll os ns
  | .restart load rngs, m => dep.restart os load rngs m

def run (os : OS) : List (ShardManager.Op dep.Dim) → ShardManager dep.Dim →
    Except Failure (ShardManager dep.Dim)
  | [], m => .ok m
  | op :: ops, m => dep.step os op m >>= run os ops

/-- A run from an empty data directory. -/
def runFresh (os : OS) (rngs : ℕ → ℕ → ℕ)
    (ops : List (ShardManager.Op dep.Dim)) :
    Except Failure (ShardManager dep.Dim) :=
  dep.start os rngs (fun _ => ShardState.noFiles) >>= dep.run os ops

theorem run_append (os : OS) (before after : List (ShardManager.Op dep.Dim))
    (m : ShardManager dep.Dim) :
    dep.run os (before ++ after) m =
      dep.run os before m >>= dep.run os after := by
  induction before generalizing m with
  | nil => rfl
  | cons op before ih =>
      rw [List.cons_append, run, run]
      cases dep.step os op m with
      | error e => rfl
      | ok next => exact ih next

@[simp] theorem runFresh_nil (os : OS) (rngs : ℕ → ℕ → ℕ) :
    dep.runFresh os rngs [] =
      dep.start os rngs (fun _ => ShardState.noFiles) := by
  unfold runFresh
  cases dep.start os rngs fun _ => ShardState.noFiles with
  | error e => rfl
  | ok m => rfl

theorem runFresh_append (os : OS) (rngs : ℕ → ℕ → ℕ)
    (before after : List (ShardManager.Op dep.Dim)) :
    dep.runFresh os rngs (before ++ after) =
      dep.runFresh os rngs before >>= dep.run os after := by
  unfold runFresh
  cases dep.start os rngs fun _ => ShardState.noFiles with
  | error e => rfl
  | ok m => exact dep.run_append os before after m

end Model

/-! ## The abstract run of a shard -/

section Requests

variable {dim : UInt32} (ring : ConsistentHashRing) (s : ℕ)

/-- What a call asks of shard `s`. -/
def request : ShardManager.Op dim → Option (Request (UInt64 × Vec dim))
  | .insert vectorId vec =>
      if ring.getShard vectorId = .ok s then some (.insert (vectorId, vec))
      else none
  | .snapshotAll _ => some .compact
  | .restart load _ => some (.restart load)

def requests (ops : List (ShardManager.Op dim)) :
    List (Request (UInt64 × Vec dim)) :=
  ops.filterMap (request ring s)

theorem requests_append (before after : List (ShardManager.Op dim)) :
    requests ring s (before ++ after) =
      requests ring s before ++ requests ring s after :=
  List.filterMap_append

/-- The shard after these requests. -/
def history (ops : List (ShardManager.Op dim)) : Stored dim :=
  serve 1000 Prod.snd (requests ring s ops) empty

theorem history_append (before after : List (ShardManager.Op dim)) :
    history ring s (before ++ after) =
      serve 1000 Prod.snd (requests ring s after)
        (history ring s before) := by
  unfold history
  rw [requests_append, serve_append]

/-! ### The inserts of a run -/

/-- The calls whose id shard `s` owns. -/
def routedTo (calls : List (UInt64 × Vec dim)) : List (UInt64 × Vec dim) :=
  calls.filter fun call => decide (ring.getShard call.1 = .ok s)

theorem routedTo_append (before after : List (UInt64 × Vec dim)) :
    routedTo ring s (before ++ after) =
      routedTo ring s before ++ routedTo ring s after :=
  List.filter_append ..

def insertCall : ShardManager.Op dim → Option (UInt64 × Vec dim)
  | .insert vectorId vec => some (vectorId, vec)
  | _ => none

/-- The calls of `insert` in a run, in order. -/
def insertCalls (ops : List (ShardManager.Op dim)) :
    List (UInt64 × Vec dim) :=
  ops.filterMap insertCall

theorem inserted_requests (ops : List (ShardManager.Op dim)) :
    inserted (requests ring s ops) = routedTo ring s (insertCalls ops) := by
  unfold inserted requests insertCalls routedTo
  rw [List.filterMap_filterMap, List.filter_filterMap]
  apply List.filterMap_congr
  intro op _
  cases op with
  | insert vectorId vec =>
      by_cases howns : ring.getShard vectorId = .ok s
      · simp [request, howns, insertCall, Request.entry?, Option.filter]
      · simp [request, howns, insertCall, Option.filter]
  | snapshotAll ns => rfl
  | restart load rngs => rfl

theorem requests_inserts (calls : List (UInt64 × Vec dim)) :
    requests ring s (calls.map fun call => .insert call.1 call.2) =
      (routedTo ring s calls).map .insert := by
  unfold requests routedTo
  rw [List.filterMap_map]
  induction calls with
  | nil => rfl
  | cons call calls ih =>
      by_cases howns : ring.getShard call.1 = .ok s
      · rw [List.filterMap_cons_some (b := .insert call)
          (by simp [request, howns]), ih,
          List.filter_cons_of_pos (by simpa using howns), List.map_cons]
      · rw [List.filterMap_cons_none (by simp [request, howns]), ih,
          List.filter_cons_of_neg (by simpa using howns)]

end Requests

/-! ## Refinement -/

section Refinement

variable {D : Type} [Preorder D] [DecidableLT D] {dep : Deployment D}
  {os : OS} {ring : ConsistentHashRing} {states : ℕ → Stored dep.Dim}
  {m m' : ShardManager dep.Dim}

/-- Every shard of the manager represents its logged store. -/
structure Refines (dep : Deployment D) (ring : ConsistentHashRing)
    (states : ℕ → Stored dep.Dim) (m : ShardManager dep.Dim) : Prop where
  ring_new : ConsistentHashRing.new dep.sorter dep.shardCount
    dep.virtualNodes = .ok ring
  ring_eq : m.ring = ring
  cfg_eq : m.cfg = dep.cfg
  shardCount_eq : m.shardCount = dep.shardCount
  dataDir_eq : m.dataDir = dep.dataDir
  length_eq : m.shards.length = dep.shardCount.toNat
  shard : ∀ (s : ℕ) ss, m.shards[s]? = some ss →
    Represents dep.cfg (states s) ss ∧ ss.shardId = s

theorem step_insert {vectorId : UInt64} {vec : Vec dep.Dim} {out : ℕ × ℕ}
    (hinsert : m.insert os dep.rt vectorId vec = .ok (out, m')) :
    dep.step os (.insert vectorId vec) m = .ok m' := by
  rw [step, hinsert]
  rfl

theorem start_eq_ok {rngs : ℕ → ℕ → ℕ} {disk : ℕ → ShardFiles}
    (hstart : dep.start os rngs disk = .ok m) :
    ConsistentHashRing.new dep.sorter dep.shardCount dep.virtualNodes =
        .ok m.ring ∧
      m.cfg = dep.cfg ∧ m.shardCount = dep.shardCount ∧
      m.dataDir = dep.dataDir ∧ m.shards.length = dep.shardCount.toNat ∧
      ∀ s ss, m.shards[s]? = some ss →
        ShardState.new os dep.cfg (rngs s) (disk s) s = .ok ss := by
  unfold start ShardManager.new at hstart
  rw [except_bind_eq_ok] at hstart
  obtain ⟨ring, hring, hstart⟩ := hstart
  have hcount := (ConsistentHashRing.new_eq_ok hring).1
  rw [if_neg hcount] at hstart
  simp only [except_bind_eq_ok] at hstart
  obtain ⟨shards, hshards, hstart⟩ := hstart
  cases hstart
  obtain ⟨hlength, hall⟩ := mapM_eq_ok hshards
  refine ⟨hring, rfl, rfl, rfl, by simpa using hlength, ?_⟩
  intro s ss hss
  obtain ⟨t, ht, hnew⟩ := hall s ss hss
  obtain ⟨_, hts⟩ := List.getElem?_eq_some_iff.mp ht
  rw [List.getElem_range] at hts
  rwa [← hts] at hnew

theorem start_ok
    (hring : ConsistentHashRing.new dep.sorter dep.shardCount
      dep.virtualNodes = .ok ring)
    {rngs : ℕ → ℕ → ℕ} {disk : ℕ → ShardFiles}
    (hnew : ∀ s < dep.shardCount.toNat, ∃ ss,
      ShardState.new os dep.cfg (rngs s) (disk s) s = .ok ss) :
    ∃ m, dep.start os rngs disk = .ok m := by
  have hcount := (ConsistentHashRing.new_eq_ok hring).1
  obtain ⟨shards, hshards⟩ := mapM_ok fun s hs => hnew s (List.mem_range.mp hs)
  unfold start ShardManager.new
  rw [hring, except_bind_ok, if_neg hcount]
  simp only [hshards, except_bind_ok]
  exact ⟨_, rfl⟩

theorem loadAll_shards (hload : m.loadAll os dep.rt = .ok m') :
    m' = { m with shards := m'.shards } ∧
      m'.shards.length = m.shards.length ∧
      ∀ (s : ℕ) ss', m'.shards[s]? = some ss' → ∃ ss,
        m.shards[s]? = some ss ∧ ss.load os dep.rt m.dataDir = .ok ss' := by
  rw [ShardManager.loadAll, except_bind_eq_ok] at hload
  obtain ⟨shards, hshards, hload⟩ := hload
  cases hload
  exact ⟨rfl, mapM_eq_ok hshards⟩

theorem loadAll_of_shards
    (hload : ∀ (s : ℕ) ss, m.shards[s]? = some ss → ∃ ss',
      ss.load os dep.rt m.dataDir = .ok ss') :
    ∃ m', m.loadAll os dep.rt = .ok m' := by
  obtain ⟨shards, hshards⟩ := mapM_ok fun ss hss =>
    (List.mem_iff_getElem?.mp hss).elim fun s hs => hload s ss hs
  rw [ShardManager.loadAll, hshards]
  exact ⟨_, rfl⟩

theorem start_fresh {rngs : ℕ → ℕ → ℕ}
    (hstart : dep.start os rngs (fun _ => ShardState.noFiles) = .ok m) :
    Refines dep m.ring (fun _ => empty) m := by
  obtain ⟨hring, hcfg, hcount, hdir, hlength, hshard⟩ := start_eq_ok hstart
  exact ⟨hring, rfl, hcfg, hcount, hdir, hlength,
    fun s ss hss => Represents.fresh (hshard s ss hss)⟩

namespace Refines

theorem getElem? (h : Refines dep ring states m) {s : ℕ}
    (hs : s < dep.shardCount.toNat) : ∃ ss, m.shards[s]? = some ss :=
  ⟨_, List.getElem?_eq_getElem (by rwa [h.length_eq])⟩

theorem lt_shardCount (h : Refines dep ring states m) {s : ℕ}
    {ss : ShardState dep.Dim} (hss : m.shards[s]? = some ss) :
    s < dep.shardCount.toNat := by
  rw [← h.length_eq]
  exact (List.getElem?_eq_some_iff.mp hss).1

theorem withShards (h : Refines dep ring states m)
    {shards : List (ShardState dep.Dim)} {states' : ℕ → Stored dep.Dim}
    (hlength : shards.length = m.shards.length)
    (hshard : ∀ (s : ℕ) ss, shards[s]? = some ss →
      Represents dep.cfg (states' s) ss ∧ ss.shardId = s) :
    Refines dep ring states' { m with shards := shards } where
  ring_new := h.ring_new
  ring_eq := h.ring_eq
  cfg_eq := h.cfg_eq
  shardCount_eq := h.shardCount_eq
  dataDir_eq := h.dataDir_eq
  length_eq := hlength.trans h.length_eq
  shard := hshard

theorem setShard (h : Refines dep ring states m) {s : ℕ}
    {ss ss' : ShardState dep.Dim} (hss : m.shards[s]? = some ss)
    (hid : ss'.shardId = ss.shardId) {states' : ℕ → Stored dep.Dim}
    (hself : Represents dep.cfg (states' s) ss')
    (hothers : ∀ t, t ≠ s → states' t = states t) :
    Refines dep ring states' { m with shards := m.shards.set s ss' } := by
  have hlt := (List.getElem?_eq_some_iff.mp hss).1
  apply h.withShards (List.length_set ..)
  intro t st hst
  by_cases hts : s = t
  · subst hts
    rw [List.getElem?_set_self hlt] at hst
    cases hst
    exact ⟨hself, hid.trans (h.shard s ss hss).2⟩
  · rw [List.getElem?_set_ne hts] at hst
    rw [hothers t (Ne.symm hts)]
    exact h.shard t st hst

theorem insert_eq_ok (h : Refines dep ring states m) {vectorId : UInt64}
    {vec : Vec dep.Dim} {out : ℕ × ℕ}
    (hok : m.insert os dep.rt vectorId vec = .ok (out, m')) :
    ring.getShard vectorId = .ok out.1 ∧
      out.2 = (states out.1).live.length ∧
      Refines dep ring (fun s => serve 1000 Prod.snd
        (request ring s (.insert vectorId vec)).toList (states s)) m' := by
  rw [ShardManager.insert, except_bind_eq_ok] at hok
  obtain ⟨s, hs, hok⟩ := hok
  rw [h.ring_eq] at hs
  cases hss : m.shards[s]? with
  | none =>
      rw [hss] at hok
      cases hok
  | some ss =>
      simp only [hss, except_bind_eq_ok] at hok
      obtain ⟨⟨nodeId, ss'⟩, hinsert, hok⟩ := hok
      cases hok
      obtain ⟨hnode, hrep, hid⟩ :=
        (h.shard s ss hss).1.insert_eq_ok hinsert
      refine ⟨hs, hnode, h.setShard hss hid ?_ ?_⟩
      · simpa only [request, hs, if_true, Option.toList_some,
          serve_insert] using hrep
      · intro t hts
        have hne : ring.getShard vectorId ≠ .ok t := by
          rw [hs]
          simpa using Ne.symm hts
        simp only [request, hne, if_false, Option.toList_none, serve_nil]

theorem snapshotAll_eq_ok (h : Refines dep ring states m) {ns : ℕ → ℕ}
    (hok : m.snapshotAll os ns = .ok m') :
    Refines dep ring (fun s => serve 1000 Prod.snd [.compact] (states s)) m' ∧
      ∀ (s : ℕ) ss', m'.shards[s]? = some ss' → ∃ ss, m.shards[s]? = some ss ∧
        Storage.Saved ss'.files ss.index := by
  rw [ShardManager.snapshotAll, except_bind_eq_ok] at hok
  obtain ⟨shards, hshards, hok⟩ := hok
  cases hok
  obtain ⟨hlength, hall⟩ := mapM_eq_ok hshards
  constructor
  · apply h.withShards hlength
    intro s ss' hss'
    obtain ⟨ss, hss, hsnap⟩ := hall s ss' hss'
    obtain ⟨hrep, hid⟩ := h.shard s ss hss
    obtain ⟨hrep', _, hid'⟩ := hrep.snapshot_eq_ok hsnap
    exact ⟨hrep', hid'.trans hid⟩
  · intro s ss' hss'
    obtain ⟨ss, hss, hsnap⟩ := hall s ss' hss'
    exact ⟨ss, hss, ((h.shard s ss hss).1.snapshot_eq_ok hsnap).2.1⟩

theorem start_eq_ok (h : Refines dep ring states m) {rngs : ℕ → ℕ → ℕ}
    (hstart : dep.start os rngs m.close = .ok m') :
    Refines dep ring (fun s => (states s).reopen) m' ∧
      ∀ s ss', m'.shards[s]? = some ss' →
        HNSWIndex.new dep.cfg (rngs s) = .ok ss'.index := by
  obtain ⟨hring, hcfg, hcount, hdir, hlength, hshard⟩ :=
    Deployment.start_eq_ok hstart
  have hreopen : ∀ s ss', m'.shards[s]? = some ss' →
      (Represents dep.cfg (states s).reopen ss' ∧ ss'.shardId = s) ∧
        HNSWIndex.new dep.cfg (rngs s) = .ok ss'.index := by
    intro s ss' hss'
    have hs : s < dep.shardCount.toNat := by
      rw [← hlength]
      exact (List.getElem?_eq_some_iff.mp hss').1
    obtain ⟨ss, hss⟩ := h.getElem? hs
    have hnew := hshard s ss' hss'
    rw [ShardManager.close, hss] at hnew
    obtain ⟨hrep, hindex, _, hid⟩ :=
      (h.shard s ss hss).1.reopen_eq_ok hnew
    exact ⟨⟨hrep, hid⟩, hindex⟩
  rw [h.ring_new] at hring
  exact ⟨⟨h.ring_new, (Except.ok.inj hring).symm, hcfg, hcount, hdir, hlength,
    fun s ss' hss' => (hreopen s ss' hss').1⟩,
    fun s ss' hss' => (hreopen s ss' hss').2⟩

theorem loadAll_eq_ok (h : Refines dep ring states m) {rngs : ℕ → ℕ → ℕ}
    (hfresh : ∀ s ss, m.shards[s]? = some ss →
      HNSWIndex.new dep.cfg (rngs s) = .ok ss.index)
    (hload : m.loadAll os dep.rt = .ok m') :
    Refines dep ring (fun s => (states s).load Prod.snd) m' := by
  obtain ⟨hm', hlength, hall⟩ := loadAll_shards hload
  rw [hm']
  apply h.withShards hlength
  intro s ss' hss'
  obtain ⟨ss, hss, hone⟩ := hall s ss' hss'
  obtain ⟨hrep, hid⟩ := h.shard s ss hss
  obtain ⟨hrep', hid'⟩ := hrep.load_eq_ok (hfresh s ss hss) hone
  exact ⟨hrep', hid'.trans hid⟩

theorem restart_eq_ok (h : Refines dep ring states m) {load : Bool}
    {rngs : ℕ → ℕ → ℕ} (hok : dep.restart os load rngs m = .ok m') :
    Refines dep ring
      (fun s => serve 1000 Prod.snd [.restart load] (states s)) m' := by
  rw [restart, except_bind_eq_ok] at hok
  obtain ⟨m₁, hstart, hok⟩ := hok
  obtain ⟨h₁, hfresh⟩ := h.start_eq_ok hstart
  cases load with
  | false =>
      cases hok
      exact h₁
  | true => exact h₁.loadAll_eq_ok hfresh hok

theorem step_eq_ok (h : Refines dep ring states m)
    {op : ShardManager.Op dep.Dim} (hok : dep.step os op m = .ok m') :
    Refines dep ring (fun s => serve 1000 Prod.snd
      (request ring s op).toList (states s)) m' := by
  cases op with
  | insert vectorId vec =>
      rw [step, except_bind_eq_ok] at hok
      obtain ⟨⟨out, m₁⟩, hinsert, hok⟩ := hok
      cases hok
      exact (h.insert_eq_ok hinsert).2.2
  | snapshotAll ns => exact (h.snapshotAll_eq_ok hok).1
  | restart load rngs => exact h.restart_eq_ok hok

theorem run_eq_ok {ops : List (ShardManager.Op dep.Dim)}
    (h : Refines dep ring states m) (hok : dep.run os ops m = .ok m') :
    Refines dep ring (fun s => serve 1000 Prod.snd
      (requests ring s ops) (states s)) m' := by
  induction ops generalizing m states with
  | nil =>
      cases hok
      exact h
  | cons op ops ih =>
      rw [run, except_bind_eq_ok] at hok
      obtain ⟨m₁, hstep, hok⟩ := hok
      have hrest := ih (h.step_eq_ok hstep) hok
      have hserve : ∀ s, serve 1000 Prod.snd (requests ring s (op :: ops))
          (states s) = serve 1000 Prod.snd (requests ring s ops)
            (serve 1000 Prod.snd (request ring s op).toList (states s)) := by
        intro s
        rw [← serve_append, requests, requests, List.filterMap_cons]
        cases request ring s op with
        | none => rfl
        | some r => rfl
      simpa only [hserve] using hrest

/-! ### Totals -/

theorem getShard_lt (h : Refines dep ring states m) (vectorId : UInt64) :
    ∃ s, ring.getShard vectorId = .ok s ∧ s < dep.shardCount.toNat :=
  ConsistentHashRing.getShard_lt h.ring_new vectorId

theorem sum_routedTo (h : Refines dep ring states m)
    (calls : List (UInt64 × Vec dep.Dim)) :
    ((List.range dep.shardCount.toNat).map fun s =>
      (routedTo ring s calls).length).sum = calls.length := by
  induction calls with
  | nil => simp [routedTo]
  | cons call calls ih =>
      obtain ⟨t, ht, hlt⟩ := h.getShard_lt call.1
      have hone : ∀ s, (routedTo ring s (call :: calls)).length =
          (routedTo ring s calls).length + if t = s then 1 else 0 := by
        intro s
        by_cases hts : t = s
        · simp [routedTo, ht, hts]
        · simp [routedTo, ht, hts]
      have hsum : ((List.range dep.shardCount.toNat).map fun s =>
          if t = s then 1 else 0).sum =
          ∑ s ∈ Finset.range dep.shardCount.toNat, if t = s then 1 else 0 :=
        rfl
      rw [Finset.sum_ite_eq, if_pos (Finset.mem_range.mpr hlt)] at hsum
      simp only [hone, List.sum_map_add, ih, hsum, List.length_cons]

theorem totalVectors_eq (h : Refines dep ring states m)
    {calls : List (UInt64 × Vec dep.Dim)}
    (hlive : ∀ s < dep.shardCount.toNat,
      (states s).live.length = (routedTo ring s calls).length) :
    m.totalVectors = calls.length := by
  have hsizes : (m.shards.map fun ss => ss.index.size) =
      (List.range dep.shardCount.toNat).map fun s =>
        (routedTo ring s calls).length := by
    apply List.ext_getElem
    · simp [h.length_eq]
    · intro s hs hs'
      have hlt : s < m.shards.length := by simpa using hs
      have hrep := (h.shard s _ (List.getElem?_eq_getElem hlt)).1
      rw [List.getElem_map, List.getElem_map, List.getElem_range,
        hrep.index.size_eq, hlive s (by rwa [← h.length_eq])]
  rw [ShardManager.totalVectors, hsizes, h.sum_routedTo]

/-! ### Calls that the system grants -/

theorem insert_ok (h : Refines dep ring states m)
    (hentry : WAL.entrySize dep.Dim ≤ WAL.growSize) {vectorId : UInt64}
    {s : ℕ} (hs : ring.getShard vectorId = .ok s)
    (hlog : (states s).log.length < 2 ^ 33)
    (hroom : HNSWIndex.Storable dep.cfg ((states s).live.length + 1))
    (vec : Vec dep.Dim) :
    ∃ m', m.insert OS.reliable dep.rt vectorId vec =
      .ok ((s, (states s).live.length), m') := by
  obtain ⟨t, ht, hlt⟩ := h.getShard_lt vectorId
  rw [hs] at ht
  cases ht
  obtain ⟨ss, hss⟩ := h.getElem? hlt
  obtain ⟨ss', hinsert⟩ := (h.shard s ss hss).1.insert_ok dep.rt hentry hlog
    hroom vectorId vec
  rw [ShardManager.insert, h.ring_eq, hs, except_bind_ok]
  simp only [hss, hinsert, except_bind_ok]
  exact ⟨_, rfl⟩

theorem snapshotAll_ok (h : Refines dep ring states m)
    (hrow : dep.Dim.toNat * 4 ≤ MmapStore.growBytes) (ns : ℕ → ℕ) :
    ∃ m', m.snapshotAll OS.reliable ns = .ok m' := by
  have hsnap : ∀ ss ∈ m.shards, ∃ ss', ShardState.snapshot OS.reliable
      m.dataDir (ns ss.shardId) ss = .ok ss' := by
    intro ss hmem
    obtain ⟨s, hss⟩ := List.mem_iff_getElem?.mp hmem
    exact (h.shard s ss hss).1.snapshot_ok hrow m.dataDir (ns ss.shardId)
  obtain ⟨shards, hshards⟩ := mapM_ok hsnap
  rw [ShardManager.snapshotAll, hshards]
  exact ⟨_, rfl⟩

theorem start_ok (h : Refines dep ring states m) (rngs : ℕ → ℕ → ℕ) :
    ∃ m', dep.start OS.reliable rngs m.close = .ok m' := by
  apply Deployment.start_ok h.ring_new
  intro s hs
  obtain ⟨ss, hss⟩ := h.getElem? hs
  rw [ShardManager.close, hss]
  exact (h.shard s ss hss).1.reopen_ok (rngs s) s

theorem loadAll_ok (h : Refines dep ring states m) {rngs : ℕ → ℕ → ℕ}
    (hfresh : ∀ s ss, m.shards[s]? = some ss →
      HNSWIndex.new dep.cfg (rngs s) = .ok ss.index)
    (hroom : ∀ s < dep.shardCount.toNat, ∀ vecs,
      (states s).saved = some vecs →
      HNSWIndex.Storable dep.cfg (vecs.length + (states s).log.length)) :
    ∃ m', m.loadAll OS.reliable dep.rt = .ok m' := by
  apply loadAll_of_shards
  intro s ss hss
  exact (h.shard s ss hss).1.load_ok dep.rt (hfresh s ss hss) m.dataDir
    (hroom s (h.lt_shardCount hss))

/-- A restart comes up unless the vectors on disk do not fit. -/
theorem restart_ok (h : Refines dep ring states m) (load : Bool)
    (rngs : ℕ → ℕ → ℕ)
    (hroom : ∀ s < dep.shardCount.toNat, ∀ vecs,
      (states s).saved = some vecs →
      HNSWIndex.Storable dep.cfg (vecs.length + (states s).log.length)) :
    ∃ m', dep.restart OS.reliable load rngs m = .ok m' := by
  obtain ⟨m₁, hstart⟩ := h.start_ok rngs
  obtain ⟨h₁, hfresh⟩ := h.start_eq_ok hstart
  rw [restart, hstart, except_bind_ok]
  cases load with
  | false => exact ⟨m₁, rfl⟩
  | true => exact h₁.loadAll_ok hfresh hroom

end Refines

/-- A run from an empty directory refines the histories of its shards. -/
theorem runFresh_eq_ok {rngs : ℕ → ℕ → ℕ}
    {ops : List (ShardManager.Op dep.Dim)}
    (hok : dep.runFresh os rngs ops = .ok m) :
    Refines dep m.ring (fun s => history m.ring s ops) m := by
  rw [runFresh, except_bind_eq_ok] at hok
  obtain ⟨m₀, hstart, hrun⟩ := hok
  have h := (start_fresh hstart).run_eq_ok hrun
  rw [← h.ring_eq] at h
  exact h

end Refinement

end Deployment
end VecDB
