import VecDB.LoggedStore
import Mathlib.Tactic

/-!
# A logged store that is killed

A process that is killed while it logs leaves the entry in the log, or not.
What was answered is in memory, what is in memory is on disk, and what is on
disk was asked for; a restart that loads brings back what is on disk.  If no
truncation keeps entries that are saved, memory and disk are the same list,
and a restart only adds entries behind it.
-/

namespace LoggedStore

variable {E V : Type}

/-- The values that a load brings back. -/
def onDisk (payload : E → V) (a : LoggedStore E V) : List V :=
  a.saved.getD [] ++ a.log.map payload

/-- The process ended with `more` entries logged and nothing else done. -/
def tear (more : List E) (a : LoggedStore E V) : LoggedStore E V :=
  { a with log := a.log ++ more }

/-- A truncation that finds the log empty, or entries behind its mark. -/
def Cuts (a : LoggedStore E V) : Prop :=
  a.log = [] ∨ a.mark < a.log.length

section Values

variable {period : ℕ} {payload : E → V} {a : LoggedStore E V}

@[simp] theorem tear_nil (a : LoggedStore E V) : a.tear [] = a := by
  unfold tear
  rw [List.append_nil]

@[simp] theorem onDisk_tear (more : List E) :
    (a.tear more).onDisk payload = a.onDisk payload ++ more.map payload := by
  simp [onDisk, tear]

@[simp] theorem onDisk_insert (entry : E) :
    (serve period payload [.insert entry] a).onDisk payload =
      a.onDisk payload ++ [payload entry] := by
  simp [onDisk, add]

theorem onDisk_compact :
    (serve period payload [.compact] a).onDisk payload =
      a.live ++ (serve period payload [.compact] a).log.map payload := by
  simp [onDisk, save]

theorem compact_log (h : a.Cuts) :
    (serve period payload [.compact] a).log = [] := by
  rw [serve_compact, truncate]
  split_ifs with hcut
  · rfl
  · exact h.resolve_right hcut

theorem compact_log_subset {entry : E}
    (hentry : entry ∈ (serve period payload [.compact] a).log) :
    entry ∈ a.log := by
  rw [serve_compact, truncate] at hentry
  split_ifs at hentry with hcut
  · simp at hentry
  · exact hentry

@[simp] theorem insert_live (entry : E) :
    (serve period payload [.insert entry] a).live =
      a.live ++ [payload entry] := by
  simp [add]

@[simp] theorem compact_live :
    (serve period payload [.compact] a).live = a.live := by
  simp [save]

theorem restart_saved (load : Bool) (more : List E) :
    (serve period payload [.restart load] (a.tear more)).saved = a.saved := by
  cases load with
  | true => simp [reopen, tear]
  | false => rfl

/-- Whatever part of an insertion a kill leaves in the log. -/
theorem restart_tear (hsaved : a.saved.isSome = true) (more : List E) :
    (serve period payload [.restart true] (a.tear more)).live =
        a.onDisk payload ++ more.map payload ∧
      (serve period payload [.restart true] (a.tear more)).onDisk payload =
        a.onDisk payload ++ more.map payload := by
  obtain ⟨values, hvalues⟩ := Option.isSome_iff_exists.mp hsaved
  have hreopen : (a.tear more).reopen.saved = some values := hvalues
  rw [← onDisk_tear, serve_restart_load, load_of_some hreopen]
  unfold onDisk reopen
  rw [show (a.tear more).saved = some values from hvalues]
  exact ⟨rfl, rfl⟩

end Values

/-! ## Nothing is lost -/

/-- What is done is in memory, memory is on disk, and the disk holds nothing
that was not offered. -/
structure Safe (payload : E → V) (done offered : List E)
    (a : LoggedStore E V) : Prop where
  live : (done.map payload).Sublist a.live
  disk : a.live.Sublist (a.onDisk payload)
  offered : ∀ value ∈ a.onDisk payload, value ∈ offered.map payload

namespace Safe

variable {period : ℕ} {payload : E → V} {done offered : List E}
  {a : LoggedStore E V}

theorem empty : Safe payload [] [] (empty : LoggedStore E V) where
  live := List.Sublist.refl _
  disk := List.Sublist.refl _
  offered := by simp [onDisk, LoggedStore.empty]

theorem insert (h : Safe payload done offered a) (entry : E) :
    Safe payload (done ++ [entry]) (offered ++ [entry])
      (serve period payload [.insert entry] a) where
  live := by
    rw [List.map_append, List.map_singleton, insert_live]
    exact h.live.append (List.Sublist.refl _)
  disk := by
    rw [insert_live, onDisk_insert]
    exact h.disk.append (List.Sublist.refl _)
  offered := by
    intro value hvalue
    rw [onDisk_insert] at hvalue
    rw [List.map_append]
    exact List.mem_append.mpr
      ((List.mem_append.mp hvalue).imp (h.offered value) id)

theorem compact (h : Safe payload done offered a) :
    Safe payload done offered (serve period payload [.compact] a) where
  live := by
    rw [compact_live]
    exact h.live
  disk := by
    rw [compact_live, onDisk_compact]
    exact List.sublist_append_left _ _
  offered := by
    intro value hvalue
    rw [onDisk_compact] at hvalue
    apply h.offered
    rcases List.mem_append.mp hvalue with hlive | hlog
    · exact h.disk.subset hlive
    · obtain ⟨entry, hentry, rfl⟩ := List.mem_map.mp hlog
      exact List.mem_append_right _
        (List.mem_map_of_mem (compact_log_subset hentry))

theorem restart (h : Safe payload done offered a)
    (hsaved : a.saved.isSome = true) (more : List E) :
    Safe payload done (offered ++ more)
      (serve period payload [.restart true] (a.tear more)) := by
  obtain ⟨hlive, hdisk⟩ := restart_tear hsaved more
  constructor
  · rw [hlive]
    exact (h.live.trans h.disk).trans (List.sublist_append_left _ _)
  · rw [hlive, hdisk]
  · intro value hvalue
    rw [hdisk] at hvalue
    rw [List.map_append]
    exact List.mem_append.mpr
      ((List.mem_append.mp hvalue).imp (h.offered value) id)

theorem mono (h : Safe payload done offered a) {more : List E}
    (hsub : offered.Sublist more) : Safe payload done more a where
  live := h.live
  disk := h.disk
  offered := fun value hvalue =>
    (hsub.map payload).subset (h.offered value hvalue)

end Safe

/-! ## Nothing is duplicated -/

/-- Memory and disk are the same list, of values that were offered in this
order. -/
structure Tight (payload : E → V) (offered : List E)
    (a : LoggedStore E V) : Prop where
  disk : a.live = a.onDisk payload
  offered : a.live.Sublist (offered.map payload)

namespace Tight

variable {period : ℕ} {payload : E → V} {offered : List E}
  {a : LoggedStore E V}

theorem empty : Tight payload [] (empty : LoggedStore E V) where
  disk := rfl
  offered := List.Sublist.refl _

theorem insert (h : Tight payload offered a) (entry : E) :
    Tight payload (offered ++ [entry])
      (serve period payload [.insert entry] a) where
  disk := by
    rw [insert_live, onDisk_insert, h.disk]
  offered := by
    rw [insert_live, List.map_append]
    exact h.offered.append (List.Sublist.refl _)

theorem compact (h : Tight payload offered a) (hcuts : a.Cuts) :
    Tight payload offered (serve period payload [.compact] a) where
  disk := by
    rw [compact_live, onDisk_compact, compact_log hcuts]
    simp
  offered := by
    rw [compact_live]
    exact h.offered

theorem restart_live (h : Tight payload offered a)
    (hsaved : a.saved.isSome = true) (more : List E) :
    (serve period payload [.restart true] (a.tear more)).live =
      a.live ++ more.map payload := by
  rw [(restart_tear hsaved more).1, h.disk]

theorem restart (h : Tight payload offered a)
    (hsaved : a.saved.isSome = true) (more : List E) :
    Tight payload (offered ++ more)
      (serve period payload [.restart true] (a.tear more)) where
  disk := by
    obtain ⟨hlive, hdisk⟩ := restart_tear hsaved more
    rw [hlive, hdisk]
  offered := by
    rw [h.restart_live hsaved, List.map_append]
    exact h.offered.append (List.Sublist.refl _)

theorem mono (h : Tight payload offered a) {more : List E}
    (hsub : offered.Sublist more) : Tight payload more a where
  disk := h.disk
  offered := h.offered.trans (hsub.map payload)

end Tight

end LoggedStore
