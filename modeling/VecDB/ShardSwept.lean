import VecDB.ShardRuns
import VecDB.WalSwept
import Mathlib.Tactic

/-!
# Shards with swept logs

A shard whose log has torn bytes in its next slot takes the steps of the shard
with that slot swept, and so does a manager.  What is proved of a manager with
clean logs holds of one that was left by a crash.
-/

namespace VecDB

open LoggedStore

/-- Two functions in step take the elements of two lists in step, and what
holds of each answer holds of all. -/
theorem mapM_eq_ok_map {ε α β γ δ : Type} {f : α → Except ε β}
    {f' : γ → Except ε δ} {p : α → γ} {g : β → δ} {Q : β → Prop} {l : List α}
    {l' : List β} (hok : l.mapM f = .ok l')
    (hf : ∀ a ∈ l, ∀ b, f a = .ok b → f' (p a) = .ok (g b) ∧ Q b) :
    (l.map p).mapM f' = .ok (l'.map g) ∧ ∀ b ∈ l', Q b := by
  induction l generalizing l' with
  | nil =>
      cases hok
      exact ⟨rfl, by simp⟩
  | cons a l ih =>
      rw [List.mapM_cons, except_bind_eq_ok] at hok
      obtain ⟨b, hb, hok⟩ := hok
      rw [except_bind_eq_ok] at hok
      obtain ⟨rest, hrest, hok⟩ := hok
      cases hok
      obtain ⟨hhead, hQ⟩ := hf a List.mem_cons_self b hb
      obtain ⟨htail, hall⟩ := ih hrest fun c hc =>
        hf c (List.mem_cons_of_mem _ hc)
      constructor
      · rw [List.map_cons, List.mapM_cons, hhead, except_bind_ok, htail]
        rfl
      · exact List.forall_mem_cons.mpr ⟨hQ, hall⟩

/-! ## Swept shards -/

namespace ShardState

section Steps

variable {dim : UInt32} {D : Type} [Preorder D] [DecidableLT D]
  {ss ss' : ShardState dim} {os : OS}

def swept (ss : ShardState dim) : ShardState dim :=
  { ss with wal := ss.wal.swept }

/-- The log of the shard may have been left by a crash. -/
def Sweepable (ss : ShardState dim) : Prop :=
  ∃ entries, WAL.Crashed entries ss.wal

theorem insert_swept (h : ss.Sweepable) {rt : Runtime (Vec dim) D}
    {vectorId : UInt64} {vec : Vec dim} {nodeId : ℕ}
    (hok : ss.insert os rt vectorId vec = .ok (nodeId, ss')) :
    ss.swept.insert os rt vectorId vec = .ok (nodeId, ss'.swept) ∧
      ss'.Sweepable := by
  obtain ⟨entries, hlog⟩ := h
  rw [insert_eq, except_bind_eq_ok] at hok
  obtain ⟨ss₁, happend, hindex⟩ := hok
  unfold appendStep at happend
  cases hrun : (WAL.append os vectorId vec).run ss.wal with
  | error e w => simp [hrun] at happend
  | ok lsn w =>
      rw [hrun] at happend
      cases happend
      obtain ⟨hswept, hclean⟩ := hlog.append_swept hrun
      rw [indexStep, except_bind_eq_ok] at hindex
      obtain ⟨⟨id, index⟩, hinsert, hindex⟩ := hindex
      cases hindex
      refine ⟨?_, _, hclean.crashed⟩
      have happend : ss.swept.appendStep os vectorId vec =
          .ok { ss with wal := w } := by
        unfold appendStep
        rw [show (WAL.append os vectorId vec).run ss.swept.wal = _ from hswept]
        rfl
      rw [insert_eq, happend, except_bind_ok, indexStep, hinsert,
        except_bind_ok]
      unfold swept
      rw [show WAL.swept _ = w from hclean.swept]
      rfl

theorem snapshot_swept (h : ss.Sweepable) {dataDir : String} {ns : ℕ}
    (hok : ss.snapshot os dataDir ns = .ok ss') :
    ss.swept.snapshot os dataDir ns = .ok ss'.swept ∧ ss'.Sweepable := by
  obtain ⟨entries, hlog⟩ := h
  rw [snapshot_eq, except_bind_eq_ok] at hok
  obtain ⟨ss₁, hsave, htruncate⟩ := hok
  rw [saveStep, except_bind_eq_ok] at hsave
  obtain ⟨files, hsave, hfiles⟩ := hsave
  cases hfiles
  unfold truncateStep at htruncate
  cases hrun : (WAL.truncate os ss.wal.nextLsn).run ss.wal with
  | error e w => simp [hrun] at htruncate
  | ok u w =>
      simp only [hrun] at htruncate
      cases htruncate
      obtain ⟨hswept, hleft⟩ := hlog.truncate_swept hrun
      refine ⟨?_, hleft⟩
      have hsaved : ss.swept.saveStep os dataDir ns =
          .ok { ss.swept with files := files } := by
        rw [saveStep, show Storage.save os (makePaths dataDir ss.swept.shardId)
          ns ss.swept.index = _ from hsave]
        rfl
      rw [snapshot_eq, hsaved, except_bind_ok]
      unfold truncateStep
      rw [show (WAL.truncate os ss.swept.wal.nextLsn).run ss.swept.wal = _ from
        hswept]
      rfl

theorem load_swept (h : ss.Sweepable) {rt : Runtime (Vec dim) D}
    {dataDir : String} (hok : ss.load os rt dataDir = .ok ss') :
    ss.swept.load os rt dataDir = .ok ss'.swept ∧ ss'.Sweepable := by
  obtain ⟨entries, hlog⟩ := h
  have hreplay : ss.swept.wal.replay = ss.wal.replay := hlog.replay_swept
  have hfiles : ss.swept.files = ss.files := rfl
  unfold load at hok ⊢
  rw [hfiles, hreplay]
  split_ifs at hok ⊢ with hmissing
  · cases hok
    exact ⟨rfl, entries, hlog⟩
  · rw [except_bind_eq_ok] at hok
    obtain ⟨restored, hrestore, hok⟩ := hok
    rw [except_bind_eq_ok] at hok
    obtain ⟨index, hinsert, hok⟩ := hok
    cases hok
    refine ⟨?_, entries, hlog⟩
    rw [show Storage.load os (makePaths dataDir ss.swept.shardId) ss.files
      ss.swept.index = _ from hrestore, except_bind_ok, hinsert]
    rfl

theorem load_of_swept (h : ss.Sweepable) {rt : Runtime (Vec dim) D}
    {dataDir : String} (hok : ss.swept.load os rt dataDir = .ok ss') :
    ∃ ss', ss.load os rt dataDir = .ok ss' := by
  obtain ⟨entries, hlog⟩ := h
  have hreplay : ss.swept.wal.replay = ss.wal.replay := hlog.replay_swept
  have hfiles : ss.swept.files = ss.files := rfl
  unfold load at hok ⊢
  rw [hfiles, hreplay] at hok
  split_ifs at hok ⊢ with hmissing
  · exact ⟨_, rfl⟩
  · rw [except_bind_eq_ok] at hok
    obtain ⟨restored, hrestore, hok⟩ := hok
    rw [except_bind_eq_ok] at hok
    obtain ⟨index, hinsert, _⟩ := hok
    rw [show Storage.load os (makePaths dataDir ss.shardId) ss.files ss.index =
      _ from hrestore, except_bind_ok, hinsert]
    exact ⟨_, rfl⟩

end Steps

theorem new_of_swept {cfg : HNSWConfig} {ss : ShardState cfg.dim.toUInt32}
    {a : Stored cfg.dim.toUInt32} (h : ss.Sweepable)
    (hrep : Represents cfg a ss.swept) (rng : ℕ → ℕ) (shardId : ℕ) :
    ∃ ss', ShardState.new OS.reliable cfg rng ss.close shardId = .ok ss' := by
  obtain ⟨entries, hlog⟩ := h
  obtain ⟨layers, hindex⟩ := hrep.index.rep
  have haccepted := hindex.accepted
  rw [hrep.index.cfg_eq] at haccepted
  obtain ⟨index, hindex⟩ := haccepted.new_ok rng
  obtain ⟨wal, hwal⟩ := hlog.toDusty.new_ok 1000
  exact ⟨_, new_eq_ok.mpr ⟨index, wal, hindex, hwal, rfl⟩⟩

theorem new_swept {cfg : HNSWConfig} {os : OS} {rng : ℕ → ℕ} {shardId : ℕ}
    {ss ss' : ShardState cfg.dim.toUInt32} (h : ss.Sweepable)
    (hnew : ShardState.new os cfg rng ss.close shardId = .ok ss') :
    ShardState.new os cfg rng ss.swept.close shardId = .ok ss'.swept ∧
      ss'.Sweepable := by
  obtain ⟨entries, hlog⟩ := h
  obtain ⟨index, wal, hindex, hwal, rfl⟩ := new_eq_ok.mp hnew
  obtain ⟨hswept, hleft⟩ := hlog.new_swept hwal
  exact ⟨new_eq_ok.mpr ⟨index, _, hindex, hswept, rfl⟩, entries, hleft⟩

end ShardState

/-! ## Swept managers -/

namespace ShardManager

variable {dim : UInt32}

def swept (m : ShardManager dim) : ShardManager dim :=
  { m with shards := m.shards.map ShardState.swept }

def Sweepable (m : ShardManager dim) : Prop := ∀ ss ∈ m.shards, ss.Sweepable

theorem swept_getElem? {m : ShardManager dim} {s : ℕ} {ss : ShardState dim}
    (hss : m.shards[s]? = some ss) : m.swept.shards[s]? = some ss.swept := by
  unfold swept
  rw [List.getElem?_map, hss]
  rfl

section Steps

variable {D : Type} [Preorder D] [DecidableLT D] {m m' : ShardManager dim}
  {os : OS} {rt : Runtime (Vec dim) D}

theorem Sweepable.set (h : m.Sweepable) {s : ℕ} {ss : ShardState dim}
    (hss : ss.Sweepable) :
    ShardManager.Sweepable { m with shards := m.shards.set s ss } := by
  intro other hother
  rcases List.mem_or_eq_of_mem_set hother with hold | rfl
  · exact h other hold
  · exact hss

theorem swept_set (m : ShardManager dim) (s : ℕ) (ss : ShardState dim) :
    swept { m with shards := m.shards.set s ss } =
      { m.swept with shards := m.swept.shards.set s ss.swept } := by
  unfold swept
  rw [List.map_set]

theorem insert_swept (h : m.Sweepable) {vectorId : UInt64} {vec : Vec dim}
    {out : ℕ × ℕ} (hok : m.insert os rt vectorId vec = .ok (out, m')) :
    m.swept.insert os rt vectorId vec = .ok (out, m'.swept) ∧
      m'.Sweepable := by
  rw [insert, except_bind_eq_ok] at hok
  obtain ⟨s, hs, hok⟩ := hok
  cases hss : m.shards[s]? with
  | none =>
      rw [hss] at hok
      cases hok
  | some ss =>
      simp only [hss, except_bind_eq_ok] at hok
      obtain ⟨⟨nodeId, ss'⟩, hinsert, hok⟩ := hok
      cases hok
      obtain ⟨hswept, hleft⟩ :=
        ShardState.insert_swept (h ss (List.mem_of_getElem? hss)) hinsert
      refine ⟨?_, h.set hleft⟩
      rw [insert, show m.swept.ring.getShard vectorId = _ from hs,
        except_bind_ok]
      simp only [swept_getElem? hss, hswept, except_bind_ok, swept_set]
      rfl

theorem snapshotAll_swept (h : m.Sweepable) {ns : ℕ → ℕ}
    (hok : m.snapshotAll os ns = .ok m') :
    m.swept.snapshotAll os ns = .ok m'.swept ∧ m'.Sweepable := by
  rw [snapshotAll, except_bind_eq_ok] at hok
  obtain ⟨shards, hshards, hok⟩ := hok
  cases hok
  have hswept : m.swept.shards.mapM (fun ss =>
      ss.snapshot os m.swept.dataDir (ns ss.shardId)) =
        .ok (shards.map ShardState.swept) ∧ ∀ ss' ∈ shards, ss'.Sweepable :=
    mapM_eq_ok_map hshards fun ss hss ss' hok =>
      ShardState.snapshot_swept (h ss hss) hok
  constructor
  · rw [snapshotAll, hswept.1]
    rfl
  · exact hswept.2

theorem loadAll_swept (h : m.Sweepable) (hok : m.loadAll os rt = .ok m') :
    m.swept.loadAll os rt = .ok m'.swept ∧ m'.Sweepable := by
  rw [loadAll, except_bind_eq_ok] at hok
  obtain ⟨shards, hshards, hok⟩ := hok
  cases hok
  have hswept : m.swept.shards.mapM (fun ss =>
      ss.load os rt m.swept.dataDir) =
        .ok (shards.map ShardState.swept) ∧ ∀ ss' ∈ shards, ss'.Sweepable :=
    mapM_eq_ok_map hshards fun ss hss ss' hok =>
      ShardState.load_swept (h ss hss) hok
  constructor
  · rw [loadAll, hswept.1]
    rfl
  · exact hswept.2

end Steps

end ShardManager

namespace Deployment

section Steps

variable {D : Type} [Preorder D] [DecidableLT D] {dep : Deployment D}
  {m m' : ShardManager dep.Dim} {os : OS}

theorem start_swept (h : m.Sweepable)
    (hlength : m.shards.length = dep.shardCount.toNat) {rngs : ℕ → ℕ → ℕ}
    (hok : dep.start os rngs m.close = .ok m') :
    dep.start os rngs m.swept.close = .ok m'.swept ∧ m'.Sweepable := by
  have hreopen : ∀ s ss', s < dep.shardCount.toNat →
      ShardState.new os dep.cfg (rngs s) (m.close s) s = .ok ss' →
      ShardState.new os dep.cfg (rngs s) (m.swept.close s) s =
        .ok ss'.swept ∧ ss'.Sweepable := by
    intro s ss' hs hnew
    have hlt : s < m.shards.length := by rwa [hlength]
    have hss : m.shards[s]? = some m.shards[s] := List.getElem?_eq_getElem hlt
    rw [ShardManager.close, hss] at hnew
    rw [ShardManager.close, ShardManager.swept_getElem? hss]
    exact ShardState.new_swept (h _ (List.mem_of_getElem? hss)) hnew
  unfold start ShardManager.new at hok ⊢
  rw [except_bind_eq_ok] at hok
  obtain ⟨ring, hring, hok⟩ := hok
  have hcount := (ConsistentHashRing.new_eq_ok hring).1
  rw [if_neg hcount] at hok
  simp only [except_bind_eq_ok] at hok
  obtain ⟨shards, hshards, hok⟩ := hok
  cases hok
  have hswept : ((List.range dep.shardCount.toNat).map id).mapM (fun s =>
      ShardState.new os dep.cfg (rngs s) (m.swept.close s) s) =
        .ok (shards.map ShardState.swept) ∧ ∀ ss' ∈ shards, ss'.Sweepable :=
    mapM_eq_ok_map hshards fun s hs ss' hnew =>
      hreopen s ss' (List.mem_range.mp hs) hnew
  rw [List.map_id] at hswept
  constructor
  · rw [hring, except_bind_ok, if_neg hcount]
    simp only [hswept.1, except_bind_ok]
    rfl
  · exact hswept.2

theorem restart_swept (h : m.Sweepable)
    (hlength : m.shards.length = dep.shardCount.toNat) {load : Bool}
    {rngs : ℕ → ℕ → ℕ} (hok : dep.restart os load rngs m = .ok m') :
    dep.restart os load rngs m.swept = .ok m'.swept ∧ m'.Sweepable := by
  rw [restart, except_bind_eq_ok] at hok
  obtain ⟨m₁, hstart, hok⟩ := hok
  obtain ⟨hswept, h₁⟩ := start_swept h hlength hstart
  rw [restart, hswept, except_bind_ok]
  cases load with
  | false =>
      cases hok
      exact ⟨rfl, h₁⟩
  | true => exact ShardManager.loadAll_swept h₁ hok

theorem restart_congr {load : Bool} {rngs : ℕ → ℕ → ℕ}
    (hclose : m.close = m'.close) :
    dep.restart os load rngs m = dep.restart os load rngs m' := by
  unfold restart
  rw [hclose]

variable {ring : ConsistentHashRing} {states : ℕ → Stored dep.Dim}

theorem Refines.swept_eq
    (h : Refines dep ring states m) : m.swept = m ∧ m.Sweepable := by
  have hclean : ∀ ss ∈ m.shards, ss.swept = ss ∧ ss.Sweepable := by
    intro ss hmem
    obtain ⟨s, hss⟩ := List.mem_iff_getElem?.mp hmem
    have hlog := (h.shard s ss hss).1.log
    refine ⟨?_, _, hlog.crashed⟩
    unfold ShardState.swept
    rw [hlog.swept]
  constructor
  · unfold ShardManager.swept
    rw [List.map_congr_left fun ss hss => (hclean ss hss).1, List.map_id']
  · exact fun ss hss => (hclean ss hss).2

/-- A start on what is on disk comes up unless the vectors there do not fit. -/
theorem Refines.restart_of_swept
    (h : Refines dep ring states m.swept) (hsweepable : m.Sweepable)
    (hlength : m.shards.length = dep.shardCount.toNat) (load : Bool)
    (rngs : ℕ → ℕ → ℕ)
    (hroom : ∀ s < dep.shardCount.toNat, ∀ vecs,
      (states s).saved = some vecs →
      HNSWIndex.Storable dep.cfg (vecs.length + (states s).log.length)) :
    ∃ m', dep.restart OS.reliable load rngs m = .ok m' := by
  have hshard : ∀ s < dep.shardCount.toNat, ∃ ss, m.shards[s]? = some ss :=
    fun s hs => ⟨_, List.getElem?_eq_getElem (by rwa [hlength])⟩
  obtain ⟨m₁, hstart⟩ : ∃ m₁, dep.start OS.reliable rngs m.close = .ok m₁ := by
    apply Deployment.start_ok h.ring_new
    intro s hs
    obtain ⟨ss, hss⟩ := hshard s hs
    rw [ShardManager.close, hss]
    exact ShardState.new_of_swept (hsweepable ss (List.mem_of_getElem? hss))
      (h.shard s _ (ShardManager.swept_getElem? hss)).1 (rngs s) s
  obtain ⟨hswept, hsweepable₁⟩ := start_swept hsweepable hlength hstart
  obtain ⟨h₁, hfresh⟩ := h.start_eq_ok hswept
  rw [restart, hstart, except_bind_ok]
  cases load with
  | false => exact ⟨m₁, rfl⟩
  | true =>
      apply loadAll_of_shards
      intro s ss hss
      have hss' := ShardManager.swept_getElem? hss
      obtain ⟨_, hload⟩ := (h₁.shard s _ hss').1.load_ok dep.rt
        (hfresh s _ hss') m₁.dataDir (hroom s (h₁.lt_shardCount hss'))
      exact ShardState.load_of_swept
        (hsweepable₁ ss (List.mem_of_getElem? hss)) hload

end Steps

end Deployment
end VecDB
