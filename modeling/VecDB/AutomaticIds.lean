import VecDB.HttpInserts
import Mathlib.Data.UInt
import Mathlib.Tactic

/-!
# Ids that are assigned

`handle_insert` gives a vector without an id the number of vectors there are.
A history of requests counts a vector more with every insert, so that no two
assigned ids are equal; an id that a client chose may be the next number.
-/

namespace VecDB

open StateRules Running

/-! ## Totals -/

namespace ShardManager

variable {dim : UInt32} {m : ShardManager dim} {ss : ShardState dim}

/-- The number of shards and their node ids are 32-bit values. -/
structure Fits (m : ShardManager dim) : Prop where
  shards : m.shards.length < 2 ^ 32
  ids : ∀ ss ∈ m.shards, ss.index.size < 2 ^ 32

theorem Fits.totalVectors_lt (h : m.Fits) : m.totalVectors < 2 ^ 64 := by
  have hsum : m.totalVectors ≤
      (m.shards.map fun ss => ss.index.size).length * (2 ^ 32 - 1) := by
    apply List.sum_le_card_nsmul
    intro size hsize
    obtain ⟨ss, hss, rfl⟩ := List.mem_map.mp hsize
    have hlt := h.ids ss hss
    omega
  have hlength := h.shards
  rw [List.length_map] at hsum
  omega

theorem Fits.set (h : m.Fits) (hss : ss.index.size < 2 ^ 32) (s : ℕ) :
    Fits { m with shards := m.shards.set s ss } where
  shards := by
    rw [List.length_set]
    exact h.shards
  ids := by
    intro other hother
    rcases List.mem_or_eq_of_mem_set hother with hold | rfl
    · exact h.ids other hold
    · exact hss

/-- The shard that owns the id has an id left for a node. -/
def HasId (m : ShardManager dim) (vectorId : UInt64) : Prop :=
  ∀ shardId ss, m.Owns vectorId shardId ss → ss.index.size + 1 < 2 ^ 32

variable {D : Type} [Preorder D] [DecidableLT D] {os : OS}
  {rt : Runtime (Vec dim) D} {vectorId : UInt64} {vec : Vec dim}
  {s s' : Running (ShardManager dim)} {out : ℕ × ℕ}

theorem Fits.tryInsert (h : s.obj.Fits)
    (hok : (tryInsert os rt vectorId vec).run s = .ok out s') :
    s'.obj.Fits := by
  obtain ⟨ss, t, _, hshard, rfl⟩ := tryInsert_eq_ok hok
  obtain ⟨hentered, _⟩ := ShardState.tryInsert_eq_ok hshard
  apply h.set
  change t.obj.index.nextId < 2 ^ 32
  rw [hentered.nextId]
  exact Nat.mod_lt _ (by norm_num)

theorem tryInsert_totalVectors (hid : s.obj.HasId vectorId)
    (hok : (tryInsert os rt vectorId vec).run s = .ok out s') :
    s'.obj.totalVectors = s.obj.totalVectors + 1 := by
  obtain ⟨ss, howns, htotal⟩ := VectorDBService.returned_totalVectors hok
  rw [Nat.mod_eq_of_lt (hid _ ss howns)] at htotal
  omega

end ShardManager

section Refines

variable {D : Type} [Preorder D] [DecidableLT D] {dep : Deployment D}
  {ring : ConsistentHashRing} {states : ℕ → Stored dep.Dim}
  {m : ShardManager dep.Dim}

theorem Deployment.Refines.fits (h : dep.Refines ring states m) : m.Fits where
  shards := by
    rw [h.length_eq]
    exact dep.shardCount.toNat_lt
  ids := by
    intro ss hss
    obtain ⟨s, hs⟩ := List.mem_iff_getElem?.mp hss
    have hindex := (h.shard s ss hs).1.index
    rw [hindex.size_eq]
    exact hindex.storable.1

theorem Deployment.Refines.hasId (h : dep.Refines ring states m)
    (hlive : ∀ s, (states s).live.length + 1 < 2 ^ 32) (vectorId : UInt64) :
    m.HasId vectorId := by
  intro s ss howns
  rw [(h.shard s ss howns.2).1.index.size_eq]
  exact hlive s

end Refines

/-! ## Histories -/

namespace HttpApi

/-- A request, with the system it finds and its latency. -/
structure InsertCall where
  os : OS
  us : ℕ
  body : List Char

/-- The request has no id that `handle_insert` takes. -/
def isAutomatic (body : List Char) : Bool :=
  parseInt64Field body "vector_id" (-1) < 0

/-- An insert that returned, and the manager that it found. -/
structure Inserted (dim : UInt32) where
  automatic : Bool
  vectorId : UInt64
  found : ShardManager dim

section History

variable {dim : UInt32} {D : Type} [Preorder D] [DecidableLT D]
  (convert : List Char → Option UInt32) (rt : Runtime (Vec dim) D)

/-- The inserts of requests that are handled one after another.  One that
throws ends the server. -/
def inserts : List InsertCall → Running (ShardManager dim) →
    List (Inserted dim)
  | [], _ => []
  | call :: calls, s =>
      match (handleInsert convert call.os rt call.us call.body).run s with
      | .error _ _ => []
      | .ok _ s' =>
          match readVector convert dim "vector" call.body with
          | .error _ => inserts calls s'
          | .ok _ =>
              { automatic := isAutomatic call.body
                vectorId := (insertId call.body s.obj).toUInt64
                found := s.obj } :: inserts calls s'

/-- No insert that comes before has the id that the later one was given. -/
def Fresh (x y : Inserted dim) : Prop :=
  y.automatic = true → x.vectorId ≠ y.vectorId

/-- The same, but a client may have chosen that id. -/
def FreshUnlessChosen (x y : Inserted dim) : Prop :=
  y.automatic = true → x.vectorId = y.vectorId → x.automatic = false

/-! ## What a history counts -/

variable {convert rt} {calls : List InsertCall}
  {s : Running (ShardManager dim)}

theorem insertId_of_isAutomatic {body : List Char} {m : ShardManager dim}
    (hauto : isAutomatic body = true) :
    (insertId body m).toUInt64 = UInt64.ofNat m.totalVectors := by
  have hneg := of_decide_eq_true hauto
  unfold insertId
  dsimp only
  rw [if_pos hneg]
  rfl

theorem inserts_cons {call : InsertCall} {vec : Vec dim} {out : ℕ × ℕ}
    {s' : Running (ShardManager dim)}
    (hread : readVector convert dim "vector" call.body = .ok vec)
    (hinsert : (ShardManager.tryInsert call.os rt
      (insertId call.body s.obj).toUInt64 vec).run s = .ok out s') :
    inserts convert rt (call :: calls) s =
      { automatic := isAutomatic call.body
        vectorId := (insertId call.body s.obj).toUInt64
        found := s.obj } :: inserts convert rt calls s' := by
  rw [inserts, handleInsert_of_insert hread hinsert]
  dsimp only
  rw [hread]

/-- An insert found the vectors that there were when the history began, and
those of the inserts before it. -/
structure Counted (start : ℕ) (x : Inserted dim) : Prop where
  start_le : start ≤ x.found.totalVectors
  fits : x.found.Fits
  assigned : x.automatic = true →
    x.vectorId = UInt64.ofNat x.found.totalVectors

theorem Counted.mono {start before : ℕ} {x : Inserted dim}
    (h : Counted start x) (hle : before ≤ start) : Counted before x :=
  ⟨hle.trans h.start_le, h.fits, h.assigned⟩

theorem inserts_counted (calls : List InsertCall) (hfits : s.obj.Fits)
    (hids : ∀ x ∈ inserts convert rt calls s, x.found.HasId x.vectorId) :
    (∀ x ∈ inserts convert rt calls s, Counted s.obj.totalVectors x) ∧
      (inserts convert rt calls s).Pairwise fun x y =>
        x.found.totalVectors < y.found.totalVectors := by
  induction calls generalizing s with
  | nil => exact ⟨fun x hx => absurd hx List.not_mem_nil, List.Pairwise.nil⟩
  | cons call calls ih =>
      rw [inserts] at hids ⊢
      cases hrun : (handleInsert convert call.os rt call.us call.body).run s with
      | error e s' => exact ⟨fun x hx => absurd hx List.not_mem_nil,
          List.Pairwise.nil⟩
      | ok text s' =>
          rw [hrun] at hids
          cases hread : readVector convert dim "vector" call.body with
          | error refusal =>
              rw [handleInsert_refused hread] at hrun
              cases hrun
              rw [hread] at hids
              exact ih hfits hids
          | ok vec =>
              rw [hread] at hids
              obtain ⟨out, hinsert, -⟩ := handleInsert_eq_ok hread hrun
              rw [List.forall_mem_cons] at hids
              have htotal := ShardManager.tryInsert_totalVectors hids.1 hinsert
              obtain ⟨hcounted, hpairs⟩ := ih (hfits.tryInsert hinsert) hids.2
              rw [htotal] at hcounted
              refine ⟨List.forall_mem_cons.mpr ⟨⟨le_rfl, hfits,
                insertId_of_isAutomatic⟩, fun x hx => ?_⟩,
                List.pairwise_cons.mpr ⟨fun x hx => ?_, hpairs⟩⟩
              · exact (hcounted x hx).mono (Nat.le_succ _)
              · exact (hcounted x hx).start_le

/-- As long as no shard runs out of node ids, an assigned id is the number of
vectors there are, and an insert before has it only if a client chose it. -/
theorem automatic_ids_fresh (calls : List InsertCall) (hfits : s.obj.Fits)
    (hids : ∀ x ∈ inserts convert rt calls s, x.found.HasId x.vectorId) :
    (∀ x ∈ inserts convert rt calls s, x.automatic = true →
        x.vectorId.toNat = x.found.totalVectors) ∧
      (inserts convert rt calls s).Pairwise FreshUnlessChosen := by
  obtain ⟨hcounted, hpairs⟩ := inserts_counted calls hfits hids
  have hassigned : ∀ x ∈ inserts convert rt calls s, x.automatic = true →
      x.vectorId.toNat = x.found.totalVectors := by
    intro x hx hauto
    rw [(hcounted x hx).assigned hauto]
    exact UInt64.toNat_ofNat_of_lt' (hcounted x hx).fits.totalVectors_lt
  refine ⟨hassigned, hpairs.imp_of_mem fun {x y} hx hy hlt hauto hsame => ?_⟩
  by_contra hchosen
  have hfirst := hassigned x hx (by simpa using hchosen)
  have hsecond := hassigned y hy hauto
  rw [hsame] at hfirst
  omega

end History

/-! ## A number that is chosen before -/

section Chosen

open Deployment

/-- The system grants what it is asked for. -/
def granted (body : List Char) : InsertCall where
  os := .reliable
  us := 0
  body := body

theorem oneShard_inserts_cons {ring : ConsistentHashRing}
    {states : ℕ → Stored oneShard.Dim} {m : ShardManager oneShard.Dim}
    (h : oneShard.Refines ring states m)
    (hlive : ∀ s, (states s).live.length + 1 < 2 ^ 32)
    (hlog : ∀ s, (states s).log.length < 2 ^ 33) {body : List Char}
    {vec : Vec oneShard.Dim}
    (hread : readVector digitFloat oneShard.Dim "vector" body = .ok vec)
    (calls : List InsertCall) :
    ∃ m', inserts digitFloat oneShard.rt (granted body :: calls) ⟨m, ample⟩ =
        { automatic := isAutomatic body
          vectorId := (insertId body m).toUInt64
          found := m } :: inserts digitFloat oneShard.rt calls ⟨m', ample⟩ ∧
      m'.totalVectors = m.totalVectors + 1 ∧
      oneShard.Refines ring (fun t => LoggedStore.serve 1000 Prod.snd
        (request ring t (.insert (insertId body m).toUInt64 vec)).toList
          (states t)) m' := by
  have hshard := oneShard_getShard h (insertId body m).toUInt64
  obtain ⟨m', hinsert, hnext⟩ := h.tryInsert_ok oneShard_entrySize hshard
    (hlog 0) ⟨hlive 0, fun _ => by decide⟩ vec
  have hids := h.hasId hlive (insertId body m).toUInt64
  have hcons : inserts digitFloat oneShard.rt (granted body :: calls)
      ⟨m, ample⟩ = _ := inserts_cons hread hinsert
  exact ⟨m', hcons, ShardManager.tryInsert_totalVectors hids hinsert, hnext⟩

def chooseOne : List Char := "\x7b\"vector\":[1],\"vector_id\":1\x7d".toList

def chooseNone : List Char := "\x7b\"vector\":[1]\x7d".toList

theorem exists_vector {body : List Char}
    (hread : (readVector digitFloat oneShard.Dim "vector"
      body).toOption.isSome = true) :
    ∃ vec, readVector digitFloat oneShard.Dim "vector" body = .ok vec := by
  cases hvec : readVector digitFloat oneShard.Dim "vector" body with
  | error text =>
      rw [hvec] at hread
      cases hread
  | ok vec => exact ⟨vec, rfl⟩

theorem chooseOne_vector :
    ∃ vec, readVector digitFloat oneShard.Dim "vector" chooseOne = .ok vec :=
  exists_vector (by decide)

theorem chooseNone_vector :
    ∃ vec, readVector digitFloat oneShard.Dim "vector" chooseNone = .ok vec :=
  exists_vector (by decide)

theorem chooseOne_insertId (m : ShardManager oneShard.Dim) :
    insertId chooseOne m = 1 := by
  have hread : parseInt64Field chooseOne "vector_id" (-1) = 1 := by decide
  unfold insertId
  rw [hread]
  rfl

/-- What the two requests do to a store that starts. -/
theorem inserts_chosen : ∃ m m₁,
    oneShard.start OS.reliable (fun _ i => i) (fun _ => ShardState.noFiles) =
        .ok m ∧
      m.Fits ∧ m.HasId 1 ∧ m₁.HasId 1 ∧
      inserts digitFloat oneShard.rt [granted chooseOne, granted chooseNone]
        ⟨m, ample⟩ = [⟨false, 1, m⟩, ⟨true, 1, m₁⟩] := by
  obtain ⟨m, hstart⟩ := oneShard_start fun _ i => i
  obtain ⟨vec, hvec⟩ := chooseOne_vector
  obtain ⟨vec₁, hvec₁⟩ := chooseNone_vector
  have hfresh := start_fresh hstart
  obtain ⟨m₁, hcons, htotal, hnext⟩ := oneShard_inserts_cons hfresh
    (fun s => by simp [LoggedStore.empty])
    (fun s => by simp [LoggedStore.empty]) hvec [granted chooseNone]
  have hgrows := fun s => serve_insert_length m.ring s
    (insertId chooseOne m).toUInt64 vec LoggedStore.empty
  have hlive := fun s => lt_of_le_of_lt (Nat.succ_le_succ (hgrows s).1)
    (show _ < 2 ^ 32 by simp [LoggedStore.empty])
  have hlog := fun s => lt_of_le_of_lt (hgrows s).2
    (show _ < 2 ^ 33 by simp [LoggedStore.empty])
  obtain ⟨m₂, hcons₁, _⟩ := oneShard_inserts_cons hnext hlive hlog hvec₁ []
  have hauto : isAutomatic chooseNone = true := by decide
  have hassigned : (insertId chooseNone m₁).toUInt64 = 1 := by
    rw [insertId_of_isAutomatic hauto, htotal, (start_owns hstart 0).1]
    rfl
  refine ⟨m, m₁, hstart, hfresh.fits,
    hfresh.hasId (fun s => by simp [LoggedStore.empty]) 1,
    hnext.hasId hlive 1, ?_⟩
  rw [hcons, hcons₁, hassigned, chooseOne_insertId, hauto]
  rfl

theorem automatic_ids_fresh_chosen : ∃ m,
    oneShard.start OS.reliable (fun _ i => i) (fun _ => ShardState.noFiles) =
        .ok m ∧
      (inserts digitFloat oneShard.rt [granted chooseOne, granted chooseNone]
        ⟨m, ample⟩).Pairwise FreshUnlessChosen := by
  obtain ⟨m, m₁, hstart, hfits, hids, hids₁, hinserts⟩ := inserts_chosen
  refine ⟨m, hstart, (automatic_ids_fresh _ hfits ?_).2⟩
  rw [hinserts]
  exact List.forall_mem_cons.mpr ⟨hids, List.forall_mem_cons.mpr
    ⟨hids₁, List.forall_mem_nil _⟩⟩

/-- A client chooses 1 for the first vector, and the second is given 1. -/
theorem chosen_id_assigned : ∃ m,
    oneShard.start OS.reliable (fun _ i => i) (fun _ => ShardState.noFiles) =
        .ok m ∧
      ¬ (inserts digitFloat oneShard.rt [granted chooseOne, granted chooseNone]
        ⟨m, ample⟩).Pairwise Fresh := by
  obtain ⟨m, m₁, hstart, _, _, _, hinserts⟩ := inserts_chosen
  refine ⟨m, hstart, fun hpairs => ?_⟩
  rw [hinserts] at hpairs
  have hfresh := (List.pairwise_cons.mp hpairs).1 ⟨true, 1, m₁⟩ (by simp)
  exact hfresh rfl rfl

end Chosen

end HttpApi
end VecDB
