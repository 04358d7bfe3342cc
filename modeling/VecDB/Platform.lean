import VecDB.LittleEndian
import Mathlib.Tactic

/-!
# Failures, the operating system and float vectors

What every component of the store shares: the ways a call can fail, the
system calls that may refuse, and a vector as the words it is stored as.
-/

namespace VecDB

/-- The exceptions the source throws, with their texts.  The last four are
not thrown by it: `lengthError` and `badAlloc` come out of the standard
library, `accessViolation` is an access outside an object or a failed
assertion, where the model stops, and `nonTermination` is a loop that runs
past the bound the model gives it. -/
inductive Failure where
  | invalidArgument (what : String)
  | runtimeError (what : String)
  | outOfRange (what : String)
  | lengthError
  | badAlloc
  | accessViolation
  | nonTermination
  deriving DecidableEq, Repr

/-- Whether `ftruncate` to a size and `mmap` of a length succeed.  Sizes are
`off_t` and lengths are addresses, so neither succeeds from `2 ^ 63` on. -/
structure OS where
  ftruncate : ℕ → Bool
  mmap : ℕ → Bool
  ftruncate_lt : ∀ size, ftruncate size = true → size < 2 ^ 63
  mmap_lt : ∀ size, mmap size = true → size < 2 ^ 63

/-- File operations succeed whenever they can. -/
def OS.reliable : OS where
  ftruncate := fun size => decide (size < 2 ^ 63)
  mmap := fun size => decide (size < 2 ^ 63)
  ftruncate_lt := by simp
  mmap_lt := by simp

theorem except_bind_eq_ok {ε α β : Type} {x : Except ε α}
    {f : α → Except ε β} {b : β} :
    (x >>= f) = .ok b ↔ ∃ a, x = .ok a ∧ f a = .ok b := by
  change Except.bind x f = .ok b ↔ _
  unfold Except.bind
  cases x with
  | ok a => simp
  | error e => simp

theorem except_bind_ok {ε α β : Type} (a : α) (f : α → Except ε β) :
    (Except.ok a >>= f) = f a := rfl

theorem except_bind_eq_error {ε α β : Type} {x : Except ε α}
    {f : α → Except ε β} {e : ε} (h : (x >>= f) = .error e) :
    x = .error e ∨ ∃ a, x = .ok a ∧ f a = .error e := by
  cases x with
  | error e' =>
      cases h
      exact Or.inl rfl
  | ok a => exact Or.inr ⟨a, rfl, h⟩

/-- A bind whose first part has its result changed by `f`. -/
theorem except_map_bind {ε α α' β β' : Type} {x : Except ε α} {f : α → α'}
    {k : β → β'} {next' : α' → Except ε β'} {next : α → Except ε β}
    (hnext : ∀ a, x = .ok a → next' (f a) = (next a).map k) :
    (x.map f >>= next') = (x >>= next).map k := by
  cases x with
  | error e => rfl
  | ok a => exact hnext a rfl

/-! ## Calls that keep their state when they throw -/

theorem bind_eq_ok {ε σ α β : Type} {x : EStateM ε σ α}
    {f : α → EStateM ε σ β} {s t : σ} {b : β} :
    (x >>= f).run s = .ok b t ↔
      ∃ a r, x.run s = .ok a r ∧ (f a).run r = .ok b t := by
  change EStateM.bind x f s = .ok b t ↔ _
  unfold EStateM.bind EStateM.run
  cases hx : x s with
  | ok a r => simp
  | error e r => simp

theorem bind_of_ok {ε σ α β : Type} {x : EStateM ε σ α}
    {f : α → EStateM ε σ β} {s r : σ} {a : α} (hx : x.run s = .ok a r) :
    (x >>= f).run s = (f a).run r := by
  change EStateM.bind x f s = f a r
  unfold EStateM.bind
  rw [show x s = .ok a r from hx]

theorem bind_of_error {ε σ α β : Type} {x : EStateM ε σ α}
    {f : α → EStateM ε σ β} {s r : σ} {e : ε} (hx : x.run s = .error e r) :
    (x >>= f).run s = .error e r := by
  change EStateM.bind x f s = .error e r
  unfold EStateM.bind
  rw [show x s = .error e r from hx]

@[simp] theorem run_get_bind {ε σ α : Type} (f : σ → EStateM ε σ α) (s : σ) :
    (get >>= f).run s = (f s).run s := rfl

@[simp] theorem run_modify_bind {ε σ α : Type} (g : σ → σ)
    (f : PUnit → EStateM ε σ α) (s : σ) :
    (modify g >>= f).run s = (f ⟨⟩).run (g s) := rfl

@[simp] theorem run_modify {ε σ : Type} (g : σ → σ) (s : σ) :
    (modify g : EStateM ε σ PUnit).run s = .ok ⟨⟩ (g s) := rfl

@[simp] theorem run_pure {ε σ α : Type} (a : α) (s : σ) :
    (pure a : EStateM ε σ α).run s = .ok a s := rfl

@[simp] theorem run_throw {ε σ α : Type} (e : ε) (s : σ) :
    (throw e : EStateM ε σ α).run s = .error e s := rfl

@[simp] theorem run_throw_bind {ε σ α β : Type} (e : ε)
    (f : α → EStateM ε σ β) (s : σ) :
    ((throw e : EStateM ε σ α) >>= f).run s = .error e s := rfl

@[simp] theorem run_ofExcept {ε σ α : Type} (x : Except ε α) (s : σ) :
    (ofExcept x : EStateM ε σ α).run s =
      match x with
      | .ok a => .ok a s
      | .error e => .error e s := by
  cases x with
  | ok a => rfl
  | error e => rfl

/-- A conditional statement, as `do` elaborates it. -/
theorem run_when_bind {ε σ α : Type} {c : Prop} [Decidable c]
    (x : EStateM ε σ PUnit) (f : PUnit → EStateM ε σ α) (s : σ) :
    (if c then x >>= f else f ⟨⟩).run s =
      ((if c then x else pure ⟨⟩) >>= f).run s := by
  split_ifs
  · rfl
  · rfl

/-! ## Vectors -/

/-- `dim` floats, as their IEEE-754 words. -/
structure Vec (dim : UInt32) where
  words : List UInt32
  length_eq : words.length = dim.toNat
  deriving DecidableEq, Repr

namespace Vec

variable {dim : UInt32}

@[ext] theorem ext {v w : Vec dim} (hwords : v.words = w.words) : v = w := by
  cases v
  cases w
  simpa using hwords

/-- The bytes a `memcpy` of the vector copies. -/
def bytes (v : Vec dim) : List UInt8 :=
  LittleEndian.encodeWords v.words

def ofBytes (dim : UInt32) (bytes : List UInt8) : Vec dim where
  words := LittleEndian.decodeWords dim.toNat bytes
  length_eq := LittleEndian.length_decodeWords _ _

@[simp] theorem length_bytes (v : Vec dim) :
    v.bytes.length = dim.toNat * 4 := by
  simp [bytes, v.length_eq]

@[simp] theorem ofBytes_bytes (v : Vec dim) : ofBytes dim v.bytes = v := by
  apply ext
  have hwords := LittleEndian.decodeWords_encodeWords v.words
  rwa [v.length_eq] at hwords

end Vec

end VecDB
