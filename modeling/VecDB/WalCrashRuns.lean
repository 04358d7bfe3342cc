import VecDB.WalPrefix
import Mathlib.Tactic

/-!
# Any number of crashes

A process may be killed inside one append after another, with restarts,
checkpoints and truncations in between.  The next slot then holds what is left
of several torn entries, and nothing else is behind the log.  The log stays a
list in which every completed entry is found, and of a torn entry all or
nothing.
-/

namespace VecDB
namespace WAL

open LittleEndian

variable {dim : UInt32}

/-! ## The slot behind the log -/

/-- The slot fails the test on its dimension or its checksum. -/
def Unfilled (dim : UInt32) (file : ByteFile) (lsn : ℕ) : Prop :=
  ¬ (storedDim dim file lsn = dim.toNat ∧
    storedCrc dim file lsn = (crc32 (storedPayload dim file lsn)).toNat)

namespace Unfilled

variable {file other : ByteFile} {lsn : ℕ}

theorem not_slotValid (h : Unfilled dim file lsn) (mapSize : ℕ) :
    ¬ SlotValid dim file mapSize lsn :=
  fun hvalid => h hvalid.2.2

/-- The number and the id of an entry come before the fields of the test. -/
theorem congr (h : Unfilled dim file lsn)
    (hbyte : ∀ i, entryPtr dim lsn + dimOff ≤ i →
      i < entryPtr dim lsn + entrySize dim → other.byte i = file.byte i) :
    Unfilled dim other lsn := by
  have hread : ∀ offset count, dimOff ≤ offset →
      offset + count ≤ entrySize dim →
      other.read (entryPtr dim lsn + offset) count =
        file.read (entryPtr dim lsn + offset) count := by
    intro offset count hlo hhi
    exact ByteFile.read_congr fun i _ _ => hbyte i (by omega) (by omega)
  unfold Unfilled storedDim storedCrc storedPayload at h ⊢
  rwa [hread dimOff 4 le_rfl (by unfold dimOff entrySize fixedHdr; omega),
    hread crcOff 4 (by decide) (by unfold crcOff entrySize fixedHdr; omega),
    hread dataOff (dim.toNat * 4) (by decide)
      (by unfold dataOff entrySize fixedHdr; omega)]

theorem of_zero (hdim : dim ≠ 0)
    (hzero : ∀ i, entryPtr dim lsn ≤ i → file.byte i = 0) :
    Unfilled dim file lsn := by
  rintro ⟨hstored, _⟩
  unfold storedDim at hstored
  rw [ByteFile.read_eq_replicate_zero fun i hlo _ => hzero i (by omega),
    decode_replicate_zero] at hstored
  exact hdim (UInt32.toNat_inj.mp (by simpa using hstored.symm))

end Unfilled

/-- A log whose unused space is zero but for an unfilled slot. -/
structure Dusty (entries : List (UInt64 × Vec dim)) (w : WAL dim) : Prop where
  dim_ne_zero : dim ≠ 0
  holds : Holds w entries
  slot : Unfilled dim w.file entries.length
  tail : ∀ i, entryPtr dim (entries.length + 1) ≤ i → w.file.byte i = 0

theorem Clean.dusty {w : WAL dim} {entries : List (UInt64 × Vec dim)}
    (h : Clean entries w) : Dusty entries w where
  dim_ne_zero := h.dim_ne_zero
  holds := h.holds
  slot := Unfilled.of_zero h.dim_ne_zero h.tail
  tail := fun i hi => h.tail i
    ((entryPtr_mono dim (Nat.le_add_right entries.length 1)).trans hi)

namespace Dusty

variable {w w' : WAL dim} {entries : List (UInt64 × Vec dim)}

theorem replay (h : Dusty entries w) :
    w.replay = (numbered entries, entries.length) :=
  h.holds.replay (h.slot.not_slotValid _)

/-- A change of the header, or of the bookkeeping. -/
theorem of_body (h : Dusty entries w) (hholds : Holds w' entries)
    (hbyte : ∀ i, headerSize ≤ i → w'.file.byte i = w.file.byte i) :
    Dusty entries w' where
  dim_ne_zero := h.dim_ne_zero
  holds := hholds
  slot := h.slot.congr fun i hi _ =>
    hbyte i (by have := headerSize_le_entryPtr dim entries.length; omega)
  tail := fun i hi => (hbyte i
    ((headerSize_le_entryPtr dim _).trans hi)).trans (h.tail i hi)

theorem checkpointed (h : Dusty entries w) :
    Dusty entries (checkpointed w) :=
  h.of_body h.holds.checkpointed fun _ => checkpointFile_byte

theorem reserved (h : Dusty entries w)
    (hlt : (WAL.reserved w).mapSize < 2 ^ 63) :
    Dusty entries (WAL.reserved w) :=
  h.of_body (h.holds.reserved hlt) fun i _ =>
    congrFun (reserved_byte h.holds.mapSize_eq) i

/-- An append fills the slot, whatever was left in it. -/
theorem appended (h : Dusty entries w)
    (hlt : (WAL.reserved w).mapSize < 2 ^ 63)
    (hfits : entryPtr dim (w.nextLsn + 1) ≤ (WAL.reserved w).mapSize)
    (vectorId : UInt64) (vec : Vec dim) :
    Dusty (entries ++ [(vectorId, vec)]) (appended w vectorId vec) := by
  have hzero : ∀ i, entryPtr dim (entries.length + 1) ≤ i →
      (WAL.appended w vectorId vec).file.byte i = 0 := by
    intro i hi
    have hhead := headerSize_le_entryPtr dim (entries.length + 1)
    rw [appended_byte h.holds.mapSize_eq vectorId vec (by omega)
      (Or.inr (by rwa [h.holds.next]))]
    exact h.tail i hi
  refine ⟨h.dim_ne_zero, h.holds.appended hlt hfits vectorId vec, ?_, ?_⟩
  · rw [List.length_append, List.length_singleton]
    exact Unfilled.of_zero h.dim_ne_zero hzero
  · intro i hi
    rw [List.length_append, List.length_singleton] at hi
    exact hzero i ((entryPtr_mono dim (Nat.le_add_right _ 1)).trans hi)

/-- A truncation that is not skipped cuts the slot off. -/
theorem kept (h : Dusty entries w) (keep : ℕ) :
    Dusty (entries.drop keep) (kept w keep) := by
  have hzero : ∀ i, entryPtr dim (entries.drop keep).length ≤ i →
      (WAL.kept w keep).file.byte i = 0 := by
    intro i hi
    have hhead := headerSize_le_entryPtr dim (entries.drop keep).length
    rw [List.length_drop, ← h.holds.next] at hi hhead
    unfold WAL.kept
    dsimp only
    rw [headerImage_byte (by omega), cutFile_byte_of_ge hi]
  exact ⟨h.dim_ne_zero, h.holds.kept, Unfilled.of_zero h.dim_ne_zero hzero,
    fun i hi => hzero i
      ((entryPtr_mono dim (Nat.le_add_right _ 1)).trans hi)⟩

theorem new_eq_ok (h : Dusty entries w) {os : OS} {checkpointEvery : ℕ}
    (hnew : new os dim checkpointEvery (some w.file) = .ok w') :
    Dusty entries w' := by
  obtain ⟨_, _, ckptLsn, hheader, rfl⟩ := new_some_eq_ok hnew
  rw [h.holds.opened_file, h.holds.header] at hheader
  cases hheader
  rw [h.holds.reopened_close checkpointEvery (h.slot.not_slotValid _)]
  exact h.of_body (h.holds.bookkeeping checkpointEvery 0) fun _ _ => rfl

theorem new_ok (h : Dusty entries w) (checkpointEvery : ℕ) :
    ∃ w', new OS.reliable dim checkpointEvery (some w.file) = .ok w' := by
  have hlt := h.holds.mapSize_lt
  exact ⟨_, h.holds.new_close checkpointEvery h.dim_ne_zero
    (h.slot.not_slotValid _) (by simpa [OS.reliable] using hlt)
    (by simpa [OS.reliable] using hlt)⟩

/-- A torn entry leaves a log of the entries before it, or of these and the
entry. -/
theorem torn (h : Dusty entries w)
    (hfits : entryPtr dim (w.nextLsn + 1) ≤ w.mapSize) (vectorId : UInt64)
    (vec : Vec dim) (count : ℕ)
    (hcrc : NoCollision dim (torn w vectorId vec count).file w.nextLsn vec) :
    Dusty entries (torn w vectorId vec count) ∨
      Dusty (entries ++ [(vectorId, vec)])
        { WAL.torn w vectorId vec count with
          nextLsn := entries.length + 1 } := by
  have hnext := h.holds.next
  have htorn := h.holds.torn vectorId vec count
  have htail : ∀ i, entryPtr dim (entries.length + 1) ≤ i →
      (WAL.torn w vectorId vec count).file.byte i = 0 := by
    intro i hi
    rw [torn_byte_of_not_mem w vectorId vec count
      (Or.inr (Or.inr (by rwa [hnext])))]
    exact h.tail i hi
  by_cases hslot : Unfilled dim (WAL.torn w vectorId vec count).file
      entries.length
  · exact Or.inl ⟨h.dim_ne_zero, htorn, hslot, htail⟩
  · right
    -- a stop before the dimension field leaves the fields of the test alone
    have hcount : dimOff ≤ count := by
      by_contra hearly
      refine hslot (h.slot.congr fun i hi _ => ?_)
      exact torn_byte_of_not_mem w vectorId vec count
        (Or.inr (Or.inl (by rw [hnext]; omega)))
    obtain ⟨hdim, hfit⟩ := not_not.mp hslot
    rw [hnext] at hcrc
    obtain ⟨_, hpayload⟩ := hcrc hfit
    have hpast : vidOff ≤ count := le_trans (by decide) hcount
    have hlsn := h.holds.torn_lsn vectorId vec hpast hfits
    have hentry : entryAt dim (WAL.torn w vectorId vec count).file
        entries.length = ⟨entries.length, vectorId, dim.toNat, vec⟩ := by
      unfold entryAt
      rw [h.holds.torn_vectorId vectorId vec hcount hfits, hdim, hpayload,
        Vec.ofBytes_bytes]
    have hvalid : SlotValid dim (WAL.torn w vectorId vec count).file
        (WAL.torn w vectorId vec count).mapSize entries.length := by
      refine ⟨?_, hlsn, hdim, hfit⟩
      rw [← entryPtr_succ, ← hnext]
      exact hfits
    refine ⟨h.dim_ne_zero, htorn.extend vectorId vec hvalid hentry, ?_, ?_⟩
    · rw [List.length_append, List.length_singleton]
      exact Unfilled.of_zero h.dim_ne_zero htail
    · intro i hi
      rw [List.length_append, List.length_singleton] at hi
      exact htail i ((entryPtr_mono dim (Nat.le_add_right _ 1)).trans hi)

end Dusty

/-! ## Runs -/

/-- A call that returns, a restart, or a process that is killed with `count`
bytes of an entry stored and started again. -/
inductive LogEvent (dim : UInt32) where
  | append (vectorId : UInt64) (vec : Vec dim)
  | checkpoint
  | truncate (keepFromLsn : ℕ)
  | reopen (checkpointEvery : ℕ)
  | crash (vectorId : UInt64) (vec : Vec dim) (count : ℕ)
      (checkpointEvery : ℕ)

/-- What the append of an entry leaves on disk when it is killed there. -/
def crashImage (w : WAL dim) (vectorId : UInt64) (vec : Vec dim)
    (count : ℕ) : ByteFile :=
  w.file.applyAll ((entryEffects w.nextLsn vectorId vec).take count)

/-- The runs of a log from a file that does not exist, in which no checksum fits
a torn entry by accident. -/
inductive LogRun (os : OS) : List (LogEvent dim) → WAL dim → Prop
  | created {checkpointEvery : ℕ} {w : WAL dim}
      (hnew : new os dim checkpointEvery none = .ok w) : LogRun os [] w
  | append {events : List (LogEvent dim)} {w w' : WAL dim} {lsn : ℕ}
      {vectorId : UInt64} {vec : Vec dim} (hrun : LogRun os events w)
      (happend : (append os vectorId vec).run w = .ok lsn w') :
      LogRun os (events ++ [.append vectorId vec]) w'
  | checkpoint {events : List (LogEvent dim)} {w w' : WAL dim}
      (hrun : LogRun os events w)
      (hcheckpoint : checkpoint.run w = .ok () w') :
      LogRun os (events ++ [.checkpoint]) w'
  | truncate {events : List (LogEvent dim)} {w w' : WAL dim}
      {keepFromLsn : ℕ} (hrun : LogRun os events w)
      (htruncate : (truncate os keepFromLsn).run w = .ok () w') :
      LogRun os (events ++ [.truncate keepFromLsn]) w'
  | reopen {events : List (LogEvent dim)} {w w' : WAL dim}
      {checkpointEvery : ℕ} (hrun : LogRun os events w)
      (hnew : new os dim checkpointEvery (some w.close) = .ok w') :
      LogRun os (events ++ [.reopen checkpointEvery]) w'
  | crash {events : List (LogEvent dim)} {w r w' : WAL dim}
      {vectorId : UInt64} {vec : Vec dim} {count checkpointEvery : ℕ}
      (hrun : LogRun os events w) (hreserve : (reserve os).run w = .ok () r)
      (hcrc : NoCollision dim (crashImage r vectorId vec count) r.nextLsn vec)
      (hnew : new os dim checkpointEvery
        (some (crashImage r vectorId vec count)) = .ok w') :
      LogRun os (events ++ [.crash vectorId vec count checkpointEvery]) w'

namespace LogEvent

/-- The entry of an append that returned. -/
def completed? : LogEvent dim → Option (UInt64 × Vec dim)
  | .append vectorId vec => some (vectorId, vec)
  | _ => none

/-- The entry of an append that returned or was killed. -/
def offered? : LogEvent dim → Option (UInt64 × Vec dim)
  | .append vectorId vec => some (vectorId, vec)
  | .crash vectorId vec _ _ => some (vectorId, vec)
  | _ => none

end LogEvent

/-- The list of a run.  An event adds its entry if it completed, and its entry
or nothing if it was killed; a truncation may drop a prefix. -/
inductive ListRun : List (LogEvent dim) → List (UInt64 × Vec dim) → Prop
  | created : ListRun [] []
  | extend {events : List (LogEvent dim)} {event : LogEvent dim}
      {entries more : List (UInt64 × Vec dim)} (hrun : ListRun events entries)
      (hall : event.completed?.toList.Sublist more)
      (hmore : more.Sublist event.offered?.toList) :
      ListRun (events ++ [event]) (entries ++ more)
  | truncate {events : List (LogEvent dim)} {entries : List (UInt64 × Vec dim)}
      (hrun : ListRun events entries) (keepFromLsn : ℕ) :
      ListRun (events ++ [.truncate keepFromLsn]) (entries.drop keepFromLsn)

namespace ListRun

variable {events : List (LogEvent dim)} {event : LogEvent dim}
  {entries : List (UInt64 × Vec dim)}

theorem unchanged (h : ListRun events entries)
    (hnone : event.completed? = none) : ListRun (events ++ [event]) entries := by
  have hextend : ListRun (events ++ [event]) (entries ++ []) :=
    h.extend (by rw [hnone]; exact List.Sublist.refl _) (List.nil_sublist _)
  rwa [List.append_nil] at hextend

/-- Without truncations no completed entry is lost, and nothing is made up. -/
theorem between (h : ListRun events entries)
    (hkeeps : ∀ keepFromLsn, .truncate keepFromLsn ∉ events) :
    (events.filterMap LogEvent.completed?).Sublist entries ∧
      entries.Sublist (events.filterMap LogEvent.offered?) := by
  induction h with
  | created => exact ⟨List.Sublist.refl _, List.Sublist.refl _⟩
  | @extend events event entries more hrun hall hmore ih =>
      obtain ⟨hcompleted, hoffered⟩ := ih fun keep hmem =>
        hkeeps keep (List.mem_append_left _ hmem)
      have hlast (f : LogEvent dim → Option (UInt64 × Vec dim)) :
          [event].filterMap f = (f event).toList := by
        cases hf : f event <;> simp [hf]
      rw [List.filterMap_append, List.filterMap_append, hlast, hlast]
      exact ⟨hcompleted.append hall, hoffered.append hmore⟩
  | truncate hrun keepFromLsn =>
      exact absurd (List.mem_append_right _ (List.mem_singleton_self _))
        (hkeeps keepFromLsn)

end ListRun

/-! ### The log is the list -/

section Runs

variable {w w' : WAL dim} {entries : List (UInt64 × Vec dim)}

theorem crashImage_eq (w : WAL dim) (vectorId : UInt64) (vec : Vec dim)
    (count : ℕ) :
    crashImage w vectorId vec count = (torn w vectorId vec count).file :=
  applyAll_take_entryEffects w.file w.nextLsn vectorId vec count

theorem Dusty.crash (h : Dusty entries w) {os : OS}
    (hentry : entrySize dim ≤ growSize) {r : WAL dim}
    (hreserve : (reserve os).run w = .ok () r) {vectorId : UInt64}
    {vec : Vec dim} {count : ℕ}
    (hcrc : NoCollision dim (crashImage r vectorId vec count) r.nextLsn vec) :
    ∃ entries' file, (entries' = entries ∨
        entries' = entries ++ [(vectorId, vec)]) ∧
      Dusty entries' file ∧ file.file = crashImage r vectorId vec count := by
  have hfits := entryPtr_le_reserved hentry (h.holds.next ▸ h.holds.fits)
  obtain ⟨rfl, hlt⟩ := reserve_eq_ok h.holds.mapped h.holds.mapSize_lt hreserve
  rw [← reserved_nextLsn] at hfits
  rw [crashImage_eq] at hcrc ⊢
  rcases (h.reserved hlt).torn hfits vectorId vec count hcrc with
    hlost | hsaved
  · exact ⟨_, _, Or.inl rfl, hlost, rfl⟩
  · exact ⟨_, _, Or.inr rfl, hsaved, rfl⟩

theorem LogRun.dusty {os : OS} (hentry : entrySize dim ≤ growSize)
    {events : List (LogEvent dim)} (h : LogRun os events w) :
    ∃ entries, ListRun events entries ∧ Dusty entries w := by
  induction h with
  | created hnew =>
      obtain rfl := new_none_eq_ok hnew
      exact ⟨[], .created, (Clean.created (new_dim_ne_zero hnew) _).dusty⟩
  | append hrun happend ih =>
      obtain ⟨entries, hlist, hdusty⟩ := ih
      obtain ⟨_, rfl, hlt, hfits⟩ := hdusty.holds.append_eq_ok happend
      exact ⟨_, hlist.extend (List.Sublist.refl _) (List.Sublist.refl _),
        hdusty.appended hlt hfits _ _⟩
  | checkpoint hrun hcheckpoint ih =>
      obtain ⟨entries, hlist, hdusty⟩ := ih
      rw [hdusty.holds.checkpoint_run] at hcheckpoint
      cases hcheckpoint
      exact ⟨entries, hlist.unchanged rfl, hdusty.checkpointed⟩
  | @truncate events w w' keepFromLsn hrun htruncate ih =>
      obtain ⟨entries, hlist, hdusty⟩ := ih
      by_cases hskip : keepFromLsn ≤ w.checkpointLsn
      · rw [truncate_of_le hskip] at htruncate
        cases htruncate
        exact ⟨entries, hlist.unchanged rfl, hdusty⟩
      · obtain rfl := hdusty.holds.truncate_eq_ok (not_le.mp hskip) htruncate
        refine ⟨_, hlist.truncate keepFromLsn, ?_⟩
        have hdrop : entries.drop (min keepFromLsn w.nextLsn) =
            entries.drop keepFromLsn := by
          rw [hdusty.holds.next, List.drop_eq_drop_iff]
          omega
        rw [← hdrop]
        exact hdusty.kept _
  | reopen hrun hnew ih =>
      obtain ⟨entries, hlist, hdusty⟩ := ih
      exact ⟨entries, hlist.unchanged rfl, hdusty.new_eq_ok hnew⟩
  | crash hrun hreserve hcrc hnew ih =>
      obtain ⟨entries, hlist, hdusty⟩ := ih
      obtain ⟨entries', file, hentries, hfile, himage⟩ :=
        hdusty.crash hentry hreserve hcrc
      rw [← himage] at hnew
      have hafter := hfile.new_eq_ok hnew
      rcases hentries with rfl | rfl
      · exact ⟨_, hlist.unchanged rfl, hafter⟩
      · exact ⟨_, hlist.extend (List.nil_sublist _) (List.Sublist.refl _),
          hafter⟩

/-- However often the process is killed inside an append, restarted and killed
again, `replay` gives the completed entries in order, and of each torn entry all
or nothing; the next crash leaves a file that opens again. -/
theorem crashes_refine_list {os : OS} (hentry : entrySize dim ≤ growSize)
    {events : List (LogEvent dim)} (h : LogRun os events w) :
    ∃ entries, ListRun events entries ∧
      w.replay = (numbered entries, entries.length) ∧
      ((∀ keepFromLsn, .truncate keepFromLsn ∉ events) →
        (events.filterMap LogEvent.completed?).Sublist entries ∧
          entries.Sublist (events.filterMap LogEvent.offered?)) ∧
      (∀ vectorId vec lsn w', (append os vectorId vec).run w = .ok lsn w' →
        lsn = entries.length) ∧
      ∀ vectorId vec count checkpointEvery r,
        (reserve os).run w = .ok () r →
        NoCollision dim (crashImage r vectorId vec count) r.nextLsn vec →
        ∃ w', new OS.reliable dim checkpointEvery
          (some (crashImage r vectorId vec count)) = .ok w' := by
  obtain ⟨entries, hlist, hdusty⟩ := h.dusty hentry
  refine ⟨entries, hlist, hdusty.replay, hlist.between, ?_, ?_⟩
  · intro vectorId vec lsn w' happend
    exact (hdusty.holds.append_eq_ok happend).1
  · intro vectorId vec count checkpointEvery r hreserve hcrc
    obtain ⟨_, file, _, hfile, himage⟩ := hdusty.crash hentry hreserve hcrc
    rw [← himage]
    exact hfile.new_ok checkpointEvery

end Runs

/-- One entry, and a kill 22 bytes into the next. -/
theorem crashes_refine_list_single : ∃ w entries,
    LogRun OS.reliable [.append 7 (Vec.ofBytes 1 [1, 2, 3, 4]),
      .crash 8 (Vec.ofBytes 1 [5, 6, 7, 8]) 22 3] w ∧
    w.replay = (numbered entries, entries.length) ∧
    [(7, Vec.ofBytes 1 [1, 2, 3, 4])].Sublist entries := by
  have hnew : new OS.reliable 1 0 none = .ok (created 1 0) :=
    new_none (by decide) (by decide) (by decide)
  have hrun : LogRun OS.reliable [.append 7 (Vec.ofBytes 1 [1, 2, 3, 4])]
      single := (LogRun.created hnew).append append_single
  have hreserve : (reserve OS.reliable).run single = .ok () single :=
    reserve_of_fits (by decide +kernel)
  have hcrc : NoCollision 1
      (crashImage single 8 (Vec.ofBytes 1 [5, 6, 7, 8]) 22) single.nextLsn
      (Vec.ofBytes 1 [5, 6, 7, 8]) := by
    intro hfit
    exact absurd hfit (by decide +kernel)
  obtain ⟨_, _, _, _, _, hopens⟩ := crashes_refine_list (by decide) hrun
  obtain ⟨w, hw⟩ := hopens 8 _ 22 3 single hreserve hcrc
  have hcrashed := hrun.crash hreserve hcrc hw
  obtain ⟨entries, _, hreplay, hbetween, _⟩ :=
    crashes_refine_list (by decide) hcrashed
  exact ⟨w, entries, hcrashed, hreplay, (hbetween (by simp)).1⟩

end WAL
end VecDB
