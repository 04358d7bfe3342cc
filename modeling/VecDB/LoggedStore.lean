import Mathlib.Tactic

/-!
# A store in memory with a snapshot and a log

Values live in memory and are lost when the store is reopened.  Every value is
logged before it is added, a save replaces the snapshot by what is in memory,
and a truncation discards the log unless its mark is at the end.  The mark
moves there every `period` entries.  Loading needs a snapshot, and replays the
whole log behind it.

Two fields are history: the entries that were on disk when the store was
opened and have not been loaded, and those that the last truncation kept.
-/

structure LoggedStore (E V : Type) where
  live : List V
  saved : Option (List V)
  log : List E
  mark : ℕ
  since : ℕ
  unread : List E
  stale : List E

namespace LoggedStore

variable {E V : Type}

def empty : LoggedStore E V where
  live := []
  saved := none
  log := []
  mark := 0
  since := 0
  unread := []
  stale := []

/-! ## Actions -/

inductive Action (E V : Type) where
  | append (entry : E)
  | add (value : V)
  | save
  | truncate
  | reopen
  | load

section Step

variable (period : ℕ) (payload : E → V)

def append (entry : E) (a : LoggedStore E V) : LoggedStore E V :=
  if 0 < period ∧ period ≤ a.since + 1 then
    { a with
      log := a.log ++ [entry]
      mark := a.log.length + 1
      since := 0 }
  else { a with log := a.log ++ [entry], since := a.since + 1 }

def add (value : V) (a : LoggedStore E V) : LoggedStore E V :=
  { a with live := a.live ++ [value] }

def save (a : LoggedStore E V) : LoggedStore E V :=
  { a with saved := some a.live }

def truncate (a : LoggedStore E V) : LoggedStore E V :=
  if a.mark < a.log.length then
    { a with log := [], mark := 0, since := 0, unread := [], stale := [] }
  else { a with stale := a.log }

def reopen (a : LoggedStore E V) : LoggedStore E V :=
  { a with live := [], since := 0, unread := a.log }

def load (a : LoggedStore E V) : LoggedStore E V :=
  match a.saved with
  | none => a
  | some values =>
      { a with live := values ++ a.log.map payload, unread := [] }

def Action.apply : Action E V → LoggedStore E V → LoggedStore E V
  | .append entry => LoggedStore.append period entry
  | .add value => LoggedStore.add value
  | .save => LoggedStore.save
  | .truncate => LoggedStore.truncate
  | .reopen => LoggedStore.reopen
  | .load => LoggedStore.load payload

def run (actions : List (Action E V)) (a : LoggedStore E V) :
    LoggedStore E V :=
  actions.foldl (fun a action => action.apply period payload a) a

theorem run_append (before after : List (Action E V)) (a : LoggedStore E V) :
    run period payload (before ++ after) a =
      run period payload after (run period payload before a) :=
  List.foldl_append

@[simp] theorem run_singleton (action : Action E V) (a : LoggedStore E V) :
    run period payload [action] a = action.apply period payload a := rfl

end Step

section Fields

variable {period : ℕ} {payload : E → V} {a : LoggedStore E V}

@[simp] theorem append_live (entry : E) :
    (a.append period entry).live = a.live := by
  unfold append
  split_ifs <;> rfl

@[simp] theorem append_saved (entry : E) :
    (a.append period entry).saved = a.saved := by
  unfold append
  split_ifs <;> rfl

@[simp] theorem append_log (entry : E) :
    (a.append period entry).log = a.log ++ [entry] := by
  unfold append
  split_ifs <;> rfl

@[simp] theorem append_unread (entry : E) :
    (a.append period entry).unread = a.unread := by
  unfold append
  split_ifs <;> rfl

@[simp] theorem append_stale (entry : E) :
    (a.append period entry).stale = a.stale := by
  unfold append
  split_ifs <;> rfl

@[simp] theorem truncate_live : a.truncate.live = a.live := by
  unfold truncate
  split_ifs <;> rfl

@[simp] theorem truncate_saved : a.truncate.saved = a.saved := by
  unfold truncate
  split_ifs <;> rfl

@[simp] theorem load_saved : (a.load payload).saved = a.saved := by
  unfold load
  split <;> rfl

@[simp] theorem load_log : (a.load payload).log = a.log := by
  unfold load
  split <;> rfl

@[simp] theorem load_stale : (a.load payload).stale = a.stale := by
  unfold load
  split <;> rfl

theorem load_of_none (hsaved : a.saved = none) : a.load payload = a := by
  unfold load
  rw [hsaved]

theorem load_of_some {values : List V} (hsaved : a.saved = some values) :
    a.load payload =
      { a with live := values ++ a.log.map payload, unread := [] } := by
  unfold load
  rw [hsaved]

end Fields

/-! ## Overlapping insertions -/

def Action.entry? : Action E V → Option E
  | .append entry => some entry
  | _ => none

def Action.value? : Action E V → Option V
  | .add value => some value
  | _ => none

/-- A step of an insertion. -/
def Action.Inserts (action : Action E V) : Prop :=
  (∃ entry, action = .append entry) ∨ ∃ value, action = .add value

/-- However insertions overlap, the log has their entries in the order of the
one step, and memory their values in the order of the other. -/
theorem run_inserts (period : ℕ) (payload : E → V)
    {actions : List (Action E V)}
    (hinserts : ∀ action ∈ actions, action.Inserts)
    (a : LoggedStore E V) :
    (run period payload actions a).live =
        a.live ++ actions.filterMap Action.value? ∧
      (run period payload actions a).log =
        a.log ++ actions.filterMap Action.entry? ∧
      (run period payload actions a).saved = a.saved := by
  induction actions using List.reverseRecOn with
  | nil => simp [run]
  | append_singleton actions action ih =>
      obtain ⟨hlive, hlog, hsaved⟩ :=
        ih fun b hb => hinserts b (by simp [hb])
      rw [run_append, List.filterMap_append, List.filterMap_append]
      rcases hinserts action (by simp) with ⟨entry, rfl⟩ | ⟨value, rfl⟩
      · simp [Action.apply, Action.value?, Action.entry?, hlive, hlog, hsaved]
      · simp [Action.apply, Action.value?, Action.entry?, add, hlive, hlog,
          hsaved]

/-! ## Requests -/

/-- What a client does when one action sequence follows another. -/
inductive Request (E : Type) where
  | insert (entry : E)
  | compact
  | restart (load : Bool)

def Request.actions (payload : E → V) : Request E → List (Action E V)
  | .insert entry => [.append entry, .add (payload entry)]
  | .compact => [.save, .truncate]
  | .restart true => [.reopen, .load]
  | .restart false => [.reopen]

section Requests

variable (period : ℕ) (payload : E → V)

def serve (requests : List (Request E)) (a : LoggedStore E V) :
    LoggedStore E V :=
  run period payload (requests.flatMap (Request.actions payload)) a

@[simp] theorem serve_nil (a : LoggedStore E V) :
    serve period payload [] a = a := rfl

theorem serve_append (before after : List (Request E))
    (a : LoggedStore E V) :
    serve period payload (before ++ after) a =
      serve period payload after (serve period payload before a) := by
  unfold serve
  rw [List.flatMap_append, run_append]

@[simp] theorem serve_insert (entry : E) (a : LoggedStore E V) :
    serve period payload [.insert entry] a =
      (a.append period entry).add (payload entry) := rfl

@[simp] theorem serve_compact (a : LoggedStore E V) :
    serve period payload [.compact] a = a.save.truncate := rfl

@[simp] theorem serve_restart_load (a : LoggedStore E V) :
    serve period payload [.restart true] a = a.reopen.load payload := rfl

@[simp] theorem serve_restart (a : LoggedStore E V) :
    serve period payload [.restart false] a = a.reopen := rfl

def Request.entry? : Request E → Option E
  | .insert entry => some entry
  | _ => none

/-- The entries that were inserted, in order. -/
def inserted (requests : List (Request E)) : List E :=
  requests.filterMap Request.entry?

theorem inserted_append (before after : List (Request E)) :
    inserted (before ++ after) = inserted before ++ inserted after :=
  List.filterMap_append

@[simp] theorem inserted_insert (entry : E) :
    inserted [.insert entry] = [entry] := rfl

@[simp] theorem inserted_compact :
    inserted ([.compact] : List (Request E)) = [] := rfl

@[simp] theorem inserted_restart (load : Bool) :
    inserted ([.restart load] : List (Request E)) = [] := rfl

theorem serve_inserts (entries : List E) (a : LoggedStore E V) :
    (serve period payload (entries.map .insert) a).live =
        a.live ++ entries.map payload ∧
      (serve period payload (entries.map .insert) a).log = a.log ++ entries ∧
      (serve period payload (entries.map .insert) a).saved = a.saved := by
  induction entries using List.reverseRecOn with
  | nil => simp
  | append_singleton entries entry ih =>
      obtain ⟨hlive, hlog, hsaved⟩ := ih
      rw [List.map_append, List.map_singleton, serve_append, serve_insert]
      refine ⟨?_, ?_, ?_⟩
      · simp [add, hlive]
      · simp [add, hlog]
      · simp [add, hsaved]

theorem serve_inserts_mark (hperiod : 0 < period) (entries : List E) :
    (serve period payload (entries.map .insert)
        (empty : LoggedStore E V)).mark =
        period * (entries.length / period) ∧
      (serve period payload (entries.map .insert)
        (empty : LoggedStore E V)).since = entries.length % period := by
  induction entries using List.reverseRecOn with
  | nil => simp [empty]
  | append_singleton entries entry ih =>
      obtain ⟨hmark, hsince⟩ := ih
      have hlog := (serve_inserts period payload entries empty).2.1
      rw [List.map_append, List.map_singleton, serve_append, serve_insert,
        List.length_append, List.length_singleton]
      have hlt := Nat.mod_lt entries.length hperiod
      have hdiv := Nat.div_add_mod entries.length period
      unfold add append
      rw [hsince, hlog]
      split_ifs with hfull
      · have hlast : entries.length + 1 =
            period * (entries.length / period + 1) := by
          rw [Nat.mul_add, Nat.mul_one]
          omega
        rw [hlast, Nat.mul_div_cancel_left _ hperiod, Nat.mul_mod_right]
        simp only [empty, List.nil_append]
        exact ⟨hlast, trivial⟩
      · have hroom : entries.length % period + 1 < period := by omega
        have hsplit : entries.length + 1 =
            entries.length % period + 1 + period * (entries.length / period) := by
          omega
        rw [hsplit, Nat.add_mul_div_left _ _ hperiod,
          Nat.div_eq_of_lt hroom, Nat.zero_add, Nat.add_mul_mod_self_left,
          Nat.mod_eq_of_lt hroom]
        exact ⟨hmark, rfl⟩

/-! ## Without insertions -/

/-- Nothing is in memory, in a snapshot or in the log. -/
structure Blank (a : LoggedStore E V) : Prop where
  live : a.live = []
  saved : ∀ values ∈ a.saved, values = []
  log : a.log = []

theorem blank_empty : Blank (empty : LoggedStore E V) where
  live := rfl
  saved := by simp [empty]
  log := rfl

theorem serve_blank {requests : List (Request E)}
    (hnone : inserted requests = []) {a : LoggedStore E V} (h : Blank a) :
    Blank (serve period payload requests a) := by
  induction requests using List.reverseRecOn with
  | nil => exact h
  | append_singleton requests request ih =>
      rw [inserted_append, List.append_eq_nil_iff] at hnone
      obtain ⟨hlive, hsaved, hlog⟩ := ih hnone.1
      rw [serve_append]
      generalize serve period payload requests a = b at hlive hsaved hlog
      cases request with
      | insert entry => simp at hnone
      | compact =>
          refine ⟨by simp [save, hlive], by simp [save, hlive], ?_⟩
          rw [serve_compact, truncate]
          split_ifs
          · rfl
          · exact hlog
      | restart load =>
          cases load with
          | false => exact ⟨rfl, hsaved, hlog⟩
          | true =>
              refine ⟨?_, by simpa [reopen] using hsaved, by
                simpa [reopen] using hlog⟩
              cases hb : b.saved with
              | none =>
                  rw [serve_restart_load, load_of_none (by simp [reopen, hb])]
                  rfl
              | some values =>
                  rw [serve_restart_load,
                    load_of_some (by simp [reopen, hb] : _ = some values),
                    hsaved values hb]
                  simp [reopen, hlog]

/-! ## Without a snapshot -/

theorem serve_saved_isSome {requests : List (Request E)}
    (hcompact : .compact ∈ requests) (a : LoggedStore E V) :
    (serve period payload requests a).saved.isSome = true := by
  induction requests using List.reverseRecOn with
  | nil => simp at hcompact
  | append_singleton requests request ih =>
      rw [serve_append]
      cases request with
      | insert entry => simpa [add] using ih (by simpa using hcompact)
      | compact => simp [save]
      | restart load =>
          have hbefore := ih (by simpa using hcompact)
          cases load with
          | true => simpa [reopen] using hbefore
          | false => simpa [reopen] using hbefore

/-! ## Entries that are kept although they are saved -/

/-- Memory holds the snapshot and what was logged behind the kept entries. -/
structure Synced (values : List V) (a : LoggedStore E V) : Prop where
  live : a.live = values
  split : ∃ recent, a.log = a.stale ++ recent ∧
    values = a.saved.getD [] ++ recent.map payload

variable {period payload}

theorem Synced.insert {values : List V} {a : LoggedStore E V}
    (h : Synced payload values a) (entry : E) :
    Synced payload (values ++ [payload entry])
      (serve period payload [.insert entry] a) := by
  obtain ⟨recent, hlog, hvalues⟩ := h.split
  constructor
  · simp [add, h.live]
  · refine ⟨recent ++ [entry], ?_, ?_⟩
    · simp [add, hlog]
    · simp [add, hvalues]

theorem Synced.compact {values : List V} {a : LoggedStore E V}
    (h : Synced payload values a) :
    Synced payload values (serve period payload [.compact] a) := by
  constructor
  · simp [save, h.live]
  · refine ⟨[], ?_, ?_⟩
    · rw [serve_compact, List.append_nil]
      unfold truncate
      split_ifs <;> rfl
    · simp [save, h.live]

/-- A restart duplicates exactly the kept entries. -/
theorem Synced.restart_live {values : List V} {a : LoggedStore E V}
    (h : Synced payload values a) (hsaved : a.saved.isSome = true) :
    (serve period payload [.restart true] a).live = values ↔
      a.stale = [] := by
  obtain ⟨recent, hlog, hvalues⟩ := h.split
  obtain ⟨old, hold⟩ := Option.isSome_iff_exists.mp hsaved
  rw [serve_restart_load, load_of_some (show a.reopen.saved = some old from hold)]
  rw [hold, Option.getD_some] at hvalues
  simp only [reopen, hlog, List.map_append, hvalues]
  constructor
  · intro heq
    have hlength := congrArg List.length heq
    simp only [List.length_append, List.length_map] at hlength
    exact List.length_eq_zero_iff.mp (by omega)
  · intro hstale
    rw [hstale]
    rfl

theorem Synced.restart {values : List V} {a : LoggedStore E V}
    (h : Synced payload values a) (hsaved : a.saved.isSome = true)
    (hstale : a.stale = []) :
    Synced payload values (serve period payload [.restart true] a) where
  live := (h.restart_live hsaved).mpr hstale
  split := by
    obtain ⟨recent, hlog, hvalues⟩ := h.split
    exact ⟨recent, by simpa [reopen] using hlog,
      by simpa [reopen] using hvalues⟩

/-- Every restart loads, and finds a snapshot. -/
def Guarded (requests : List (Request E)) : Prop :=
  ∀ before load after, requests = before ++ .restart load :: after →
    load = true ∧ .compact ∈ before

/-- Every restart brings back what was inserted before. -/
def Exact (period : ℕ) (payload : E → V) (requests : List (Request E)) :
    Prop :=
  ∀ before after, requests = before ++ .restart true :: after →
    (serve period payload (before ++ [.restart true]) empty).live =
      (inserted before).map payload

/-- No restart finds an entry that was kept although it was saved. -/
def NoneStale (period : ℕ) (payload : E → V) (requests : List (Request E)) :
    Prop :=
  ∀ before after, requests = before ++ .restart true :: after →
    (serve period payload before (empty : LoggedStore E V)).stale = []

theorem Guarded.init {requests : List (Request E)} {request : Request E}
    (h : Guarded (requests ++ [request])) : Guarded requests := by
  intro before load after hsplit
  apply h before load (after ++ [request])
  simp [hsplit]

theorem Exact.init {requests : List (Request E)} {request : Request E}
    (h : Exact period payload (requests ++ [request])) :
    Exact period payload requests := by
  intro before after hsplit
  apply h before (after ++ [request])
  simp [hsplit]

theorem NoneStale.init {requests : List (Request E)} {request : Request E}
    (h : NoneStale period payload (requests ++ [request])) :
    NoneStale period payload requests := by
  intro before after hsplit
  apply h before (after ++ [request])
  simp [hsplit]

/-- Without stale entries at the restarts, memory and disk stay in step. -/
theorem NoneStale.synced {requests : List (Request E)}
    (hguarded : Guarded requests) (h : NoneStale period payload requests) :
    Synced payload ((inserted requests).map payload)
      (serve period payload requests empty) := by
  induction requests using List.reverseRecOn with
  | nil => exact ⟨rfl, [], rfl, rfl⟩
  | append_singleton requests request ih =>
      have hbefore := ih hguarded.init h.init
      rw [serve_append, inserted_append, List.map_append]
      cases request with
      | insert entry => exact hbefore.insert entry
      | compact =>
          have hcompact : Synced payload ((inserted requests).map payload)
              (serve period payload [.compact] _) := hbefore.compact
          simpa using hcompact
      | restart load =>
          obtain ⟨rfl, hcompact⟩ := hguarded requests load [] rfl
          have hsaved := serve_saved_isSome period payload hcompact empty
          have hrestart : Synced payload ((inserted requests).map payload)
              (serve period payload [.restart true] _) :=
            hbefore.restart hsaved (h requests [] rfl)
          simpa using hrestart

/-- The restarts are exact when none of them finds a stale entry. -/
theorem exact_iff {requests : List (Request E)} (hguarded : Guarded requests) :
    Exact period payload requests ↔ NoneStale period payload requests := by
  have hrestart : ∀ before after,
      requests = before ++ .restart true :: after →
      NoneStale period payload before →
      ((serve period payload (before ++ [.restart true]) empty).live =
          (inserted before).map payload ↔
        (serve period payload before
          (empty : LoggedStore E V)).stale = []) := by
    intro before after hsplit hstale
    have hbefore : Guarded before := by
      intro first load rest hfirst
      apply hguarded first load (rest ++ .restart true :: after)
      simp [hsplit, hfirst]
    have hcompact := (hguarded before true after hsplit).2
    have hsaved := serve_saved_isSome period payload hcompact empty
    rw [serve_append]
    exact (hstale.synced hbefore).restart_live hsaved
  constructor
  · intro hexact
    -- up to each restart there is none that duplicates
    induction requests using List.reverseRecOn with
    | nil =>
        intro before after hsplit
        simp at hsplit
    | append_singleton requests request ih =>
        have hinit := ih hguarded.init (fun before after hsplit =>
          hrestart before (after ++ [request]) (by simp [hsplit])) hexact.init
        intro before after hsplit
        rcases List.eq_nil_or_concat after with rfl | ⟨rest, last, rfl⟩
        · have hlast := List.append_inj' hsplit rfl
          obtain ⟨rfl, _⟩ := hlast
          exact (hrestart requests [] hsplit hinit).mp (hexact requests [] hsplit)
        · apply hinit before rest
          rw [List.concat_eq_append, ← List.cons_append,
            ← List.append_assoc] at hsplit
          exact (List.append_inj' hsplit rfl).1
  · intro hstale before after hsplit
    have hbefore : NoneStale period payload before := by
      intro first rest hfirst
      apply hstale first (rest ++ .restart true :: after)
      simp [hsplit, hfirst]
    exact (hrestart before after hsplit hbefore).mpr
      (hstale before after hsplit)

theorem serve_stale {requests : List (Request E)}
    (hcompact : .compact ∉ requests) (a : LoggedStore E V) :
    (serve period payload requests a).stale = a.stale := by
  induction requests using List.reverseRecOn with
  | nil => rfl
  | append_singleton requests request ih =>
      have hbefore := ih (by simp_all)
      rw [serve_append, ← hbefore]
      cases request with
      | insert entry => simp [add]
      | compact => simp at hcompact
      | restart load => cases load <;> simp [reopen]

theorem compact_stale (a : LoggedStore E V) :
    (serve period payload [.compact] a).stale = [] ↔
      a.log = [] ∨ a.mark < a.log.length := by
  simp only [serve_compact, truncate, save]
  split_ifs with hcut
  · simp [hcut]
  · simp [hcut]

/-! ## Entries that were never loaded -/

/-- Whatever is logged was added, or was on disk already and never loaded. -/
structure Covered (payload : E → V) (a : LoggedStore E V) : Prop where
  unread : ∀ entry ∈ a.unread, entry ∈ a.log
  logged : ∀ entry ∈ a.log, entry ∈ a.unread ∨ payload entry ∈ a.live

theorem covered_empty : Covered payload (empty : LoggedStore E V) where
  unread := by simp [empty]
  logged := by simp [empty]

theorem Covered.serve {requests : List (Request E)} {a : LoggedStore E V}
    (h : Covered payload a) :
    Covered payload (serve period payload requests a) := by
  induction requests using List.reverseRecOn with
  | nil => exact h
  | append_singleton requests request ih =>
      rw [serve_append]
      generalize LoggedStore.serve period payload requests a = b at ih
      cases request with
      | insert entry =>
          constructor
          · intro e he
            have hold := ih.unread e (by simpa [add] using he)
            simp [add, hold]
          · intro e he
            simp only [serve_insert, add, append_log, append_unread,
              append_live, List.mem_append, List.mem_singleton] at he ⊢
            rcases he with hold | rfl
            · rcases ih.logged e hold with hunread | hlive
              · exact Or.inl hunread
              · exact Or.inr (Or.inl hlive)
            · exact Or.inr (Or.inr rfl)
      | compact =>
          rw [serve_compact]
          unfold truncate
          split_ifs
          · exact ⟨by simp, by simp⟩
          · exact ⟨ih.unread, ih.logged⟩
      | restart load =>
          have hreopen : Covered payload b.reopen :=
            ⟨fun e he => he, fun e he => Or.inl he⟩
          cases load with
          | false => exact hreopen
          | true =>
              rw [serve_restart_load]
              cases hsaved : b.reopen.saved with
              | none => rwa [load_of_none hsaved]
              | some values =>
                  rw [load_of_some hsaved]
                  constructor
                  · simp
                  · intro e he
                    exact Or.inr (List.mem_append_right _
                      (List.mem_map_of_mem he))

theorem Covered.log_live {a : LoggedStore E V} (h : Covered payload a) :
    (∀ entry ∈ a.log, payload entry ∈ a.live) ↔
      ∀ entry ∈ a.unread, payload entry ∈ a.live := by
  constructor
  · intro hlog entry hentry
    exact hlog entry (h.unread entry hentry)
  · intro hunread entry hentry
    rcases h.logged entry hentry with hold | hlive
    · exact hunread entry hold
    · exact hlive

end Requests

end LoggedStore
