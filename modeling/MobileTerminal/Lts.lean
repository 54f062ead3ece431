import Mathlib.Tactic.Common

/-!
# Guarded transition systems

A labelled transition relation, the states it reaches from the initial ones by
transitions that pass a guard, and the rule that carries an invariant along.

The guard sees the state before the transition and its label: with `True` it
gives the reachable states, with a condition on the steps it gives the runs that
keep to it. A result that needs such a condition is then a statement about
`Reach init step ok` for the guard `ok`, and the condition is read off its
definition.

`Path` is a run from a given state; `Reach` is a path from an initial one
(`Reach.path`). `Reach.invariant` is the only induction: every invariant of the
program is proved by naming it, showing it of the initial states, and showing
that one guarded step keeps it.
-/

namespace MobileTerminal

variable {σ ε : Type}

/-- A sequence of transitions that all pass the guard. -/
inductive Path (step : σ → ε → σ → Prop) (ok : σ → ε → Prop) : σ → σ → Prop where
  | refl (s : σ) : Path step ok s s
  | step {s s' s'' : σ} {e : ε} (h : step s e s') (hok : ok s e)
      (hp : Path step ok s' s'') : Path step ok s s''

/-- The states that guarded transitions reach. -/
inductive Reach (init : σ → Prop) (step : σ → ε → σ → Prop) (ok : σ → ε → Prop) : σ → Prop where
  | init {s : σ} (h : init s) : Reach init step ok s
  | step {s s' : σ} {e : ε} (hr : Reach init step ok s) (h : step s e s') (hok : ok s e) :
      Reach init step ok s'

variable {init : σ → Prop} {step : σ → ε → σ → Prop} {ok ok' : σ → ε → Prop}

/-- What holds initially and is kept by every guarded transition holds in every
state reached. -/
theorem Reach.invariant {I : σ → Prop} (h0 : ∀ s, init s → I s)
    (hstep : ∀ s e s', I s → ok s e → step s e s' → I s') {s : σ}
    (h : Reach init step ok s) : I s := by
  induction h with
  | init h => exact h0 _ h
  | step _ h hok ih => exact hstep _ _ _ ih hok h

theorem Reach.path {s s' : σ} (hr : Reach init step ok s) (hp : Path step ok s s') :
    Reach init step ok s' := by
  induction hp with
  | refl => exact hr
  | step h hok _ ih => exact ih (.step hr h hok)

end MobileTerminal
