import Mathlib.Tactic

/-!
# Forward simulation of fallible machines

A machine steps through operations, each of which returns an output or stops
the run with an error.  A specification is a total function on abstract
states.  If a relation between the two is kept by every step that is not
refused, whole runs produce the outputs of the specification, or end in a
refusal at a definite operation.
-/

namespace Simulation

variable {Op S A O E : Type}

def run (step : Op → S → Except E (S × O)) :
    List Op → S → Except E (S × List O)
  | [], s => .ok (s, [])
  | op :: ops, s =>
      match step op s with
      | .error e => .error e
      | .ok (next, output) =>
          match run step ops next with
          | .error e => .error e
          | .ok (last, outputs) => .ok (last, output :: outputs)

def runSpec (spec : Op → A → A × O) : List Op → A → A × List O
  | [], a => (a, [])
  | op :: ops, a =>
      ((runSpec spec ops (spec op a).1).1,
        (spec op a).2 :: (runSpec spec ops (spec op a).1).2)

theorem runSpec_append_fst (spec : Op → A → A × O) (before after : List Op)
    (a : A) :
    (runSpec spec (before ++ after) a).1 =
      (runSpec spec after (runSpec spec before a).1).1 := by
  induction before generalizing a with
  | nil => rfl
  | cons op before ih => simp only [List.cons_append, runSpec, ih]

theorem run_concat {step : Op → S → Except E (S × O)} {ops : List Op}
    {op : Op} {s mid last : S} {outputs : List O} {output : O}
    (hrun : run step ops s = .ok (mid, outputs))
    (hstep : step op mid = .ok (last, output)) :
    run step (ops ++ [op]) s = .ok (last, outputs ++ [output]) := by
  induction ops generalizing s outputs with
  | nil =>
      cases hrun
      simp only [List.nil_append, run, hstep]
  | cons first ops ih =>
      simp only [run, List.cons_append] at hrun ⊢
      cases hfirst : step first s with
      | error e => simp [hfirst] at hrun
      | ok next =>
          obtain ⟨s₁, out⟩ := next
          simp only [hfirst] at hrun ⊢
          cases hrest : run step ops s₁ with
          | error e => simp [hrest] at hrun
          | ok rest =>
              rw [hrest] at hrun
              cases hrun
              rw [ih hrest]
              rfl

/-- Every step follows the specification or is refused. -/
def Forward (step : Op → S → Except E (S × O)) (spec : Op → A → A × O)
    (R : A → S → Prop) (Refused : Op → A → E → Prop) : Prop :=
  ∀ op a s, R a s →
    (∃ next, step op s = .ok (next, (spec op a).2) ∧ R (spec op a).1 next) ∨
      ∃ e, step op s = .error e ∧ Refused op a e

theorem run_of_forward {step : Op → S → Except E (S × O)}
    {spec : Op → A → A × O} {R : A → S → Prop} {Refused : Op → A → E → Prop}
    (hforward : Forward step spec R Refused) (ops : List Op) {a : A} {s : S}
    (hR : R a s) :
    (∃ last, run step ops s = .ok (last, (runSpec spec ops a).2) ∧
        R (runSpec spec ops a).1 last) ∨
      ∃ e before op after, run step ops s = .error e ∧
        ops = before ++ op :: after ∧
          Refused op (runSpec spec before a).1 e := by
  induction ops generalizing a s with
  | nil => exact Or.inl ⟨s, rfl, hR⟩
  | cons op ops ih =>
      rcases hforward op a s hR with ⟨next, hstep, hnext⟩ | ⟨e, hstep, hrefused⟩
      · rcases ih hnext with ⟨last, hrun, hlast⟩ | hstopped
        · refine Or.inl ⟨last, ?_, hlast⟩
          simp only [run, hstep, hrun, runSpec]
        · obtain ⟨e, before, refusedOp, after, hrun, hops, hrefused⟩ := hstopped
          refine Or.inr ⟨e, op :: before, refusedOp, after, ?_, ?_, hrefused⟩
          · simp only [run, hstep, hrun]
          · simp [hops]
      · refine Or.inr ⟨e, [], op, ops, ?_, rfl, hrefused⟩
        simp only [run, hstep]

end Simulation
