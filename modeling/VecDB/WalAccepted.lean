import VecDB.StateRules
import VecDB.WalInvariant
import VecDB.WalPrefix
import Mathlib.Tactic

/-!
# The checkpoint and the end of the log

Of a file that is opened, `checkpoint_lsn_` comes from the header and
`next_lsn_` from the scan of the entries.  Nothing compares the two.  If the
checkpoint is not ahead of the log then, it never gets ahead of it, whether
the calls that follow return or throw.
-/

namespace VecDB
namespace WAL

open LittleEndian StateRules

variable {dim : UInt32}

/-- `checkpoint_lsn_ <= next_lsn_`. -/
def InOrder (w : WAL dim) : Prop := w.checkpointLsn ≤ w.nextLsn

/-! ## What each call keeps -/

theorem keeps_store (offset : ℕ) (bytes : List UInt8) :
    Keeps InOrder (store offset bytes : EStateM Failure (WAL dim) Unit) := by
  intro w hw
  unfold after store EStateM.run
  dsimp only
  split_ifs
  · exact hw
  · exact hw

theorem keeps_storeAll (stores : List Store) :
    Keeps InOrder (storeAll stores : EStateM Failure (WAL dim) Unit) := by
  induction stores with
  | nil => exact keeps_pure ()
  | cons head rest ih =>
      exact (keeps_store head.1 head.2).bind fun _ => ih

theorem keeps_writeHeader :
    Keeps InOrder (writeHeader : EStateM Failure (WAL dim) Unit) := by
  unfold writeHeader
  exact keeps_get_bind fun w => (keeps_storeAll _).bind fun _ =>
    keeps_get_bind fun _ => keeps_store _ _

theorem keeps_grow (os : OS) (newSize : ℕ) :
    Keeps InOrder (grow os newSize : EStateM Failure (WAL dim) Unit) := by
  unfold grow
  refine Keeps.modify_bind (fun _ hw => hw) (Keeps.throwing ?_)
  refine Keeps.modify_bind (fun _ hw => hw) (Keeps.throwing ?_)
  exact keeps_modify fun _ hw => hw

theorem keeps_checkpoint :
    Keeps InOrder (checkpoint : EStateM Failure (WAL dim) Unit) := by
  unfold checkpoint
  refine Keeps.modify_bind (fun w _ => le_refl w.nextLsn) ?_
  exact keeps_get_bind fun _ => (keeps_store _ _).bind fun _ =>
    keeps_get_bind fun _ => keeps_store _ _

theorem keeps_append (os : OS) (vectorId : UInt64) (vec : Vec dim) :
    Keeps InOrder (append os vectorId vec) := by
  have hreserve : Keeps InOrder
      (reserve os : EStateM Failure (WAL dim) Unit) := by
    unfold reserve
    refine keeps_get_bind fun w => ?_
    exact Keeps.ite (keeps_grow os _) (keeps_pure _)
  have hwrite : Keeps InOrder (writeEntry os vectorId vec) := by
    unfold writeEntry
    refine hreserve.bind fun _ => keeps_get_bind fun _ => ?_
    refine (keeps_storeAll _).bind fun _ => ?_
    exact Keeps.modify_bind (fun w hw => Nat.le_succ_of_le hw)
      (keeps_pure _)
  have hauto : Keeps InOrder
      (autoCheckpoint : EStateM Failure (WAL dim) Unit) := by
    unfold autoCheckpoint
    refine keeps_get_bind fun w => ?_
    exact Keeps.ite keeps_checkpoint (keeps_pure _)
  unfold append
  exact hwrite.bind fun _ => hauto.bind fun _ => keeps_pure _

theorem keeps_remap (os : OS) (size : ℕ) :
    Keeps InOrder (remap os size : EStateM Failure (WAL dim) Unit) := by
  unfold remap
  exact Keeps.throwing (Keeps.modify_bind (fun _ hw => hw) keeps_writeHeader)

theorem keeps_truncate (os : OS) (keepFromLsn : ℕ) :
    Keeps InOrder
      (truncate os keepFromLsn : EStateM Failure (WAL dim) Unit) := by
  unfold truncate
  refine keeps_get_bind fun w => Keeps.ite (keeps_pure _) ?_
  dsimp only
  have hrest : ∀ newFileSize entriesToKeep,
      Keeps InOrder ((do
        storeAll (renumberStores dim entriesToKeep)
        modify fun w => { w with
          nextLsn := entriesToKeep
          checkpointLsn := 0
          appendsSinceCkpt := 0
          mapped := false }
        if os.ftruncate newFileSize = false then
          throw (.runtimeError "WAL: ftruncate failed during truncate")
        modify fun w => { w with file := w.file.resize newFileSize }
        if newFileSize < max newFileSize initialSize then
          if os.ftruncate (max newFileSize initialSize) = false then
            throw (.runtimeError "WAL: ftruncate failed during remap")
          modify fun w => { w with
            file := w.file.resize (max newFileSize initialSize) }
        remap os (max newFileSize initialSize)) :
        EStateM Failure (WAL dim) Unit) := by
    intro newFileSize entriesToKeep
    refine (keeps_storeAll _).bind fun _ => ?_
    refine Keeps.modify_bind (fun _ _ => Nat.zero_le _) (Keeps.throwing ?_)
    refine Keeps.modify_bind (fun _ hw => hw) ?_
    refine Keeps.ite (Keeps.throwing ?_) (keeps_remap os _)
    exact Keeps.modify_bind (fun _ hw => hw) (keeps_remap os _)
  exact Keeps.when (keeps_store _ _) (fun _ => hrest _ _) (hrest _ _)

/-! ## Runs on an opened file -/

/-- The calls that change an open log. -/
inductive Mutation (dim : UInt32) where
  | append (vectorId : UInt64) (vec : Vec dim)
  | checkpoint
  | truncate (keepFromLsn : ℕ)

/-- The log behind the call, whether it returned or threw. -/
def Mutation.after (os : OS) : Mutation dim → WAL dim → WAL dim
  | .append vectorId vec => StateRules.after (WAL.append os vectorId vec)
  | .checkpoint => StateRules.after WAL.checkpoint
  | .truncate keepFromLsn => StateRules.after (WAL.truncate os keepFromLsn)

/-- A sequence of calls, each with what the system grants at the time. -/
def afterAll (calls : List (OS × Mutation dim)) (w : WAL dim) : WAL dim :=
  calls.foldl (fun w call => call.2.after call.1 w) w

theorem Mutation.after_inOrder (os : OS) (call : Mutation dim) {w : WAL dim}
    (hw : InOrder w) : InOrder (call.after os w) := by
  cases call with
  | append vectorId vec => exact keeps_append os vectorId vec w hw
  | checkpoint => exact keeps_checkpoint w hw
  | truncate keepFromLsn => exact keeps_truncate os keepFromLsn w hw

theorem afterAll_inOrder (calls : List (OS × Mutation dim)) {w : WAL dim}
    (hw : InOrder w) : InOrder (afterAll calls w) := by
  induction calls generalizing w with
  | nil => exact hw
  | cons call calls ih => exact ih (call.2.after_inOrder call.1 hw)

/-- The `checkpoint_lsn` field of a header. -/
def recordedCkpt (file : ByteFile) : ℕ := decode (file.read 8 8)

theorem le_scanCount_iff (file : ByteFile) (count : ℕ) :
    count ≤ scanCount dim file ↔ ∀ lsn < count,
      SlotValid dim (opened file) (max file.size initialSize) lsn := by
  obtain ⟨hvalid, hstop⟩ :=
    scan_spec dim (opened file) (max file.size initialSize)
  constructor
  · intro hle lsn hlsn
    exact hvalid lsn (hlsn.trans_le hle)
  · intro hall
    by_contra hlt
    exact hstop (hall _ (not_le.mp hlt))

/-- On a file that the constructor accepts, the checkpoint is never ahead of
the log, now and after any calls, if and only if every slot below the
checkpoint in the header is a valid entry. -/
theorem ckpt_le_next_iff {os : OS} {checkpointEvery : ℕ} {file : ByteFile}
    {w : WAL dim} (hnew : new os dim checkpointEvery (some file) = .ok w) :
    (∀ calls : List (OS × Mutation dim),
        (afterAll calls w).checkpointLsn ≤ (afterAll calls w).nextLsn) ↔
      ∀ lsn < recordedCkpt file,
        SlotValid dim (opened file) (max file.size initialSize) lsn := by
  obtain ⟨_, _, ckptLsn, hheader, rfl⟩ := new_some_eq_ok hnew
  have hckpt : recordedCkpt file = ckptLsn := by
    have hfield := (readHeader_eq_ok.mp hheader).2.2.2.2
    rwa [ByteFile.read_eq_of_byte (opened_byte file)] at hfield
  rw [hckpt, ← le_scanCount_iff]
  constructor
  · intro hall
    exact hall []
  · intro hle calls
    exact afterAll_inOrder calls hle

/-- A log with one entry whose header records checkpoint one. -/
def marked : ByteFile :=
  headerImage 1 ((created 1 0).file.write (entryPtr 1 0)
    (entryBytes 0 7 (Vec.ofBytes 1 [1, 2, 3, 4]))) 1

theorem ckpt_le_next_marked :
    ∃ w, new OS.reliable 1 0 (some marked) = .ok w ∧
      w.checkpointLsn = 1 ∧ w.nextLsn = 1 ∧
      ∀ calls : List (OS × Mutation 1),
        (afterAll calls w).checkpointLsn ≤ (afterAll calls w).nextLsn := by
  have hnew : new OS.reliable 1 0 (some marked) =
      .ok (reopened 1 0 marked 1) :=
    new_some (by decide) (by decide +kernel) (by decide +kernel)
      (by decide +kernel) (by decide +kernel)
  have hckpt : recordedCkpt marked = 1 := by decide +kernel
  refine ⟨_, hnew, rfl, by decide +kernel, (ckpt_le_next_iff hnew).mpr ?_⟩
  intro lsn hlsn
  obtain rfl : lsn = 0 := by omega
  decide +kernel

/-- A log without entries whose header records checkpoint five. -/
def ahead : ByteFile := headerImage 1 (ByteFile.empty.resize initialSize) 5

/-- The constructor accepts the file, with checkpoint five and no entry. -/
theorem ckpt_ahead_of_log :
    ∃ w, new OS.reliable 1 0 (some ahead) = .ok w ∧
      w.checkpointLsn = 5 ∧ w.nextLsn = 0 ∧
      ¬ ∀ calls : List (OS × Mutation 1),
        (afterAll calls w).checkpointLsn ≤ (afterAll calls w).nextLsn := by
  have hopened : opened ahead = ahead := opened_of_le le_rfl
  have hnew : new OS.reliable 1 0 (some ahead) =
      .ok (reopened 1 0 ahead 5) := by
    apply new_some (by decide) (by decide) (by decide) (by decide)
    rw [hopened]
    exact readHeader_headerImage (by decide) (by norm_num)
  have hnext : (reopened 1 0 ahead 5).nextLsn = 0 := by
    apply Nat.eq_zero_of_not_pos
    intro hpos
    have hcount : 1 ≤ scanCount 1 ahead := hpos
    have hvalid := (le_scanCount_iff ahead 1).mp hcount 0 Nat.one_pos
    rw [hopened] at hvalid
    refine not_slotValid_of_zero (by decide) (fun i hi => ?_) hvalid
    refine (headerImage_byte ((headerSize_le_entryPtr 1 0).trans hi)).trans ?_
    simp [ByteFile.resize, ByteFile.empty]
  refine ⟨_, hnew, rfl, hnext, fun hall => ?_⟩
  have hle : (5 : ℕ) ≤ (reopened 1 0 ahead 5).nextLsn := hall []
  omega

end WAL
end VecDB
