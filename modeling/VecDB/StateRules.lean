import Mathlib.Tactic

/-!
# What a call leaves behind

A call that throws keeps the state it has reached.  `Keeps P` says that `P`
survives a call whether it returns or throws; it composes along binds and
branches, so an invariant of every outcome is proved statement by statement.
-/

namespace StateRules

variable {ε σ α β : Type}

/-- The state behind a call that returned or threw. -/
def after (x : EStateM ε σ α) (s : σ) : σ :=
  match x.run s with
  | .ok _ t => t
  | .error _ t => t

theorem after_of_ok {x : EStateM ε σ α} {s t : σ} {a : α}
    (hx : x.run s = .ok a t) : after x s = t := by
  unfold after
  rw [hx]

theorem after_of_error {x : EStateM ε σ α} {s t : σ} {e : ε}
    (hx : x.run s = .error e t) : after x s = t := by
  unfold after
  rw [hx]

theorem after_bind_of_ok {x : EStateM ε σ α} {f : α → EStateM ε σ β}
    {s t : σ} {a : α} (hx : x.run s = .ok a t) :
    after (x >>= f) s = after (f a) t := by
  have hbind : (x >>= f).run s = (f a).run t := by
    change EStateM.bind x f s = f a t
    unfold EStateM.bind
    rw [show x s = .ok a t from hx]
  unfold after
  rw [hbind]

theorem after_bind_pure (x : EStateM ε σ α) (f : α → β) (s : σ) :
    after (x >>= fun a => pure (f a)) s = after x s := by
  change after (EStateM.bind x fun a => pure (f a)) s = after x s
  unfold after EStateM.run EStateM.bind
  cases x s with
  | ok a t => rfl
  | error e t => rfl

theorem run_bind_congr {x : EStateM ε σ α} {f : α → EStateM ε σ β} {s t : σ}
    (hx : x.run s = x.run t) : (x >>= f).run s = (x >>= f).run t := by
  change EStateM.bind x f s = EStateM.bind x f t
  unfold EStateM.bind
  rw [show x s = x t from hx]

def Keeps (P : σ → Prop) (x : EStateM ε σ α) : Prop :=
  ∀ s, P s → P (after x s)

variable {P : σ → Prop}

theorem keeps_pure (a : α) : Keeps P (pure a : EStateM ε σ α) :=
  fun _ hs => hs

theorem keeps_modify {f : σ → σ} (hf : ∀ s, P s → P (f s)) :
    Keeps P (modify f : EStateM ε σ PUnit) :=
  hf

theorem Keeps.bind {x : EStateM ε σ α} {f : α → EStateM ε σ β}
    (hx : Keeps P x) (hf : ∀ a, Keeps P (f a)) : Keeps P (x >>= f) := by
  intro s hs
  have hmid := hx s hs
  cases hrun : x.run s with
  | ok a t =>
      rw [after_of_ok hrun] at hmid
      rw [after_bind_of_ok hrun]
      exact hf a t hmid
  | error e t =>
      rw [after_of_error hrun] at hmid
      have hbind : (x >>= f).run s = .error e t := by
        change EStateM.bind x f s = .error e t
        unfold EStateM.bind
        rw [show x s = .error e t from hrun]
      rwa [after_of_error hbind]

theorem Keeps.modify_bind {g : σ → σ} {f : PUnit → EStateM ε σ α}
    (hg : ∀ s, P s → P (g s)) (hf : Keeps P (f ⟨⟩)) :
    Keeps P (modify g >>= f) :=
  fun s hs => hf (g s) (hg s hs)

theorem keeps_get_bind {f : σ → EStateM ε σ α} (hf : ∀ s, Keeps P (f s)) :
    Keeps P (get >>= f) :=
  fun s hs => hf s s hs

theorem Keeps.ite {c : Prop} [Decidable c] {x y : EStateM ε σ α}
    (hx : Keeps P x) (hy : Keeps P y) : Keeps P (if c then x else y) := by
  split_ifs
  · exact hx
  · exact hy

/-- An early exit by an exception. -/
theorem Keeps.throwing {c : Prop} [Decidable c] {e : ε}
    {f : β → EStateM ε σ α} {y : EStateM ε σ α} (hy : Keeps P y) :
    Keeps P (if c then (throw e : EStateM ε σ β) >>= f else y) :=
  Keeps.ite (fun _ hs => hs) hy

/-- A statement that is made under a condition, as `do` elaborates it. -/
theorem Keeps.when {c : Prop} [Decidable c] {x : EStateM ε σ β}
    {f : β → EStateM ε σ α} {y : EStateM ε σ α} (hx : Keeps P x)
    (hf : ∀ b, Keeps P (f b)) (hy : Keeps P y) :
    Keeps P (if c then x >>= f else y) :=
  Keeps.ite (hx.bind hf) hy

/-! ## What a call throws -/

/-- Every exception of the call satisfies `Q`. -/
def Throws (Q : ε → Prop) (x : EStateM ε σ α) : Prop :=
  ∀ s e t, x.run s = .error e t → Q e

variable {Q : ε → Prop}

theorem throws_pure (a : α) : Throws Q (pure a : EStateM ε σ α) := by
  intro s e t herr
  cases herr

theorem bind_eq_error {x : EStateM ε σ α} {f : α → EStateM ε σ β}
    {s t : σ} {e : ε} : (x >>= f).run s = .error e t ↔
      x.run s = .error e t ∨
        ∃ a r, x.run s = .ok a r ∧ (f a).run r = .error e t := by
  change EStateM.bind x f s = .error e t ↔ _
  unfold EStateM.bind EStateM.run
  cases hx : x s with
  | ok a r => simp
  | error e r => simp

theorem Throws.bind {x : EStateM ε σ α} {f : α → EStateM ε σ β}
    (hx : Throws Q x) (hf : ∀ a, Throws Q (f a)) : Throws Q (x >>= f) := by
  intro s e t herr
  rcases bind_eq_error.mp herr with hfirst | ⟨a, r, _, hrest⟩
  · exact hx s e t hfirst
  · exact hf a r e t hrest

theorem Throws.modify_bind {g : σ → σ} {f : PUnit → EStateM ε σ α}
    (hf : Throws Q (f ⟨⟩)) : Throws Q (modify g >>= f) :=
  fun s e t herr => hf (g s) e t herr

theorem throws_get_bind {f : σ → EStateM ε σ α} (hf : ∀ s, Throws Q (f s)) :
    Throws Q (get >>= f) :=
  fun s e t herr => hf s s e t herr

theorem Throws.ite {c : Prop} [Decidable c] {x y : EStateM ε σ α}
    (hx : Throws Q x) (hy : Throws Q y) : Throws Q (if c then x else y) := by
  split_ifs
  · exact hx
  · exact hy

/-! ## What holds where a call ends -/

/-- From a state with `P`, a call that returns ends where `Q` holds, and one
that throws where `R` does. -/
def Meets (P : σ → Prop) (x : EStateM ε σ α) (Q : α → σ → Prop)
    (R : ε → σ → Prop) : Prop :=
  ∀ s, P s → (∀ a t, x.run s = .ok a t → Q a t) ∧
    ∀ e t, x.run s = .error e t → R e t

section Meets

variable {x : EStateM ε σ α} {Q : α → σ → Prop} {R : ε → σ → Prop}

theorem meets_pure {a : α} (h : ∀ s, P s → Q a s) :
    Meets P (pure a : EStateM ε σ α) Q R := by
  intro s hs
  constructor
  · intro b t hok
    cases hok
    exact h s hs
  · intro e t herr
    cases herr

theorem Meets.bind {f : α → EStateM ε σ β} {T : β → σ → Prop}
    (hx : Meets P x Q R) (hf : ∀ a, Meets (Q a) (f a) T R) :
    Meets P (x >>= f) T R := by
  intro s hs
  have hfirst := hx s hs
  cases hrun : x.run s with
  | ok a r =>
      have hbind : (x >>= f).run s = (f a).run r := by
        change EStateM.bind x f s = f a r
        unfold EStateM.bind
        rw [show x s = .ok a r from hrun]
      rw [hbind]
      exact hf a r (hfirst.1 a r hrun)
  | error e r =>
      constructor
      · intro b t hok
        have herr : (x >>= f).run s = .error e r :=
          bind_eq_error.mpr (Or.inl hrun)
        rw [herr] at hok
        cases hok
      · intro e' t herr
        rcases bind_eq_error.mp herr with hsame | ⟨a, r', hok, _⟩
        · exact hfirst.2 e' t hsame
        · rw [hrun] at hok
          cases hok

theorem Meets.ite {c : Prop} [Decidable c] {y : EStateM ε σ α}
    (hx : c → Meets P x Q R) (hy : ¬ c → Meets P y Q R) :
    Meets P (if c then x else y) Q R := by
  split_ifs with hc
  · exact hx hc
  · exact hy hc

theorem Meets.weaken {P' : σ → Prop} {Q' : α → σ → Prop} (h : Meets P x Q R)
    (hpre : ∀ s, P' s → P s) (hpost : ∀ a s, Q a s → Q' a s) :
    Meets P' x Q' R := by
  intro s hs
  have hends := h s (hpre s hs)
  exact ⟨fun a t hok => hpost a t (hends.1 a t hok), hends.2⟩

theorem Meets.weaken_error {R' : ε → σ → Prop} (h : Meets P x Q R)
    (hfail : ∀ e s, R e s → R' e s) : Meets P x Q R' := by
  intro s hs
  have hends := h s hs
  exact ⟨hends.1, fun e t herr => hfail e t (hends.2 e t herr)⟩

theorem Keeps.meets (h : Keeps P x) :
    Meets P x (fun _ => P) fun _ => P := by
  intro s hs
  have hafter := h s hs
  constructor
  · intro a t hok
    rwa [after_of_ok hok] at hafter
  · intro e t herr
    rwa [after_of_error herr] at hafter

/-- What the state before the call implies may be assumed of it. -/
theorem meets_of_imp {c : Prop} (hc : ∀ s, P s → c) (h : c → Meets P x Q R) :
    Meets P x Q R :=
  fun s hs => h (hc s hs) s hs

/-- The call leaves `T` behind, however it ends. -/
theorem Meets.after {T : σ → Prop} (h : Meets P x Q R)
    (hok : ∀ a s, Q a s → T s) (herr : ∀ e s, R e s → T s) {s : σ}
    (hs : P s) : T (after x s) := by
  have hends := h s hs
  cases hrun : x.run s with
  | ok a t =>
      rw [after_of_ok hrun]
      exact hok a t (hends.1 a t hrun)
  | error e t =>
      rw [after_of_error hrun]
      exact herr e t (hends.2 e t hrun)

end Meets

/-! ## Calls on a part of the state -/

section Part

variable {τ : Type}

/-- A call on the part of the state that `get` reads and `set` replaces. -/
def onPart (get : τ → σ) (set : σ → τ → τ) (x : EStateM ε σ α) :
    EStateM ε τ α := fun t =>
  match x.run (get t) with
  | .ok a s => .ok a (set s t)
  | .error e s => .error e (set s t)

variable {get : τ → σ} {set : σ → τ → τ} {x : EStateM ε σ α} {s : σ} {t : τ}

theorem onPart_run : (onPart get set x).run t =
    match x.run (get t) with
    | .ok a s => .ok a (set s t)
    | .error e s => .error e (set s t) := rfl

theorem onPart_of_ok {a : α} (hx : x.run (get t) = .ok a s) :
    (onPart get set x).run t = .ok a (set s t) := by
  rw [onPart_run, hx]

theorem onPart_of_error {e : ε} (hx : x.run (get t) = .error e s) :
    (onPart get set x).run t = .error e (set s t) := by
  rw [onPart_run, hx]

theorem after_onPart : after (onPart get set x) t =
    set (after x (get t)) t := by
  cases hx : x.run (get t) with
  | ok a s => rw [after_of_ok (onPart_of_ok hx), after_of_ok hx]
  | error e s => rw [after_of_error (onPart_of_error hx), after_of_error hx]

theorem onPart_eq_ok {a : α} {t' : τ} :
    (onPart get set x).run t = .ok a t' ↔
      ∃ s, x.run (get t) = .ok a s ∧ t' = set s t := by
  cases hx : x.run (get t) with
  | ok b s =>
      rw [onPart_of_ok hx]
      simp [eq_comm]
  | error e s =>
      rw [onPart_of_error hx]
      simp

theorem onPart_eq_error {e : ε} {t' : τ} :
    (onPart get set x).run t = .error e t' ↔
      ∃ s, x.run (get t) = .error e s ∧ t' = set s t := by
  cases hx : x.run (get t) with
  | ok b s =>
      rw [onPart_of_ok hx]
      simp
  | error e s =>
      rw [onPart_of_error hx]
      simp [eq_comm]

theorem Keeps.onPart {P : τ → Prop} {Q : σ → Prop} (hx : Keeps Q x)
    (hget : ∀ t, P t → Q (get t)) (hset : ∀ s t, P t → Q s → P (set s t)) :
    Keeps P (onPart get set x) := by
  intro t ht
  have hpart := hx (get t) (hget t ht)
  cases hrun : x.run (get t) with
  | ok a s =>
      rw [after_of_ok hrun] at hpart
      rw [after_of_ok (onPart_of_ok hrun)]
      exact hset s t ht hpart
  | error e s =>
      rw [after_of_error hrun] at hpart
      rw [after_of_error (onPart_of_error hrun)]
      exact hset s t ht hpart

end Part

/-! ## Caught exceptions -/

/-- A call inside `try`, whose `catch` goes on after the exceptions that
`stops` is false of. -/
def caught (stops : ε → Prop) [DecidablePred stops] (x : EStateM ε σ α) :
    EStateM ε σ (Option α) := fun s =>
  match x.run s with
  | .ok a t => .ok (some a) t
  | .error e t => if stops e then .error e t else .ok none t

section Caught

variable {stops : ε → Prop} [DecidablePred stops] {x : EStateM ε σ α} {s t : σ}

theorem caught_run : (caught stops x).run s =
    match x.run s with
    | .ok a t => .ok (some a) t
    | .error e t => if stops e then .error e t else .ok none t := rfl

theorem caught_eq_some {a : α} :
    (caught stops x).run s = .ok (some a) t ↔ x.run s = .ok a t := by
  rw [caught_run]
  cases x.run s with
  | ok b r => simp
  | error e r =>
      dsimp only
      split_ifs
      · simp
      · simp

theorem caught_eq_none :
    (caught stops x).run s = .ok none t ↔
      ∃ e, x.run s = .error e t ∧ ¬ stops e := by
  rw [caught_run]
  cases x.run s with
  | ok b r => simp
  | error e r =>
      dsimp only
      split_ifs with hstops
      · simp [hstops]
      · simp [hstops]

theorem Keeps.caught {P : σ → Prop} (hx : Keeps P x) :
    Keeps P (caught stops x) := by
  intro s hs
  have hcall := hx s hs
  unfold after at hcall ⊢
  rw [caught_run]
  cases hrun : x.run s with
  | ok a t =>
      rw [hrun] at hcall
      exact hcall
  | error e t =>
      rw [hrun] at hcall
      dsimp only
      split_ifs
      · exact hcall
      · exact hcall

end Caught

end StateRules
