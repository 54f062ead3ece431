import MobileTerminal.Fault

/-!
# Computations that keep a log

A fallible computation together with the events that occurred in it, those
before a fault included. Without the log it is the computation alone: `result`
commutes with the operations of the monad.

This is how a second definition of a function can say more than the first and
still be tied to it. The function is written once more with `after` at the
places of interest; `result_bind`, `result_lift` and `result_after` show that
forgetting the log gives the function back; and what the log holds is computed
by the lemmas on `log`, one for a computation that completes, one for a fault,
and `log_bind_of_mem` for an event that must not be lost by anything that comes
after it.
-/

namespace MobileTerminal

structure Traced (τ ε α : Type) where
  log : List τ
  result : Except ε α

namespace Traced

variable {τ ε α β : Type}

def bind (x : Traced τ ε α) (f : α → Traced τ ε β) : Traced τ ε β :=
  match x.result with
  | .ok a => ⟨x.log ++ (f a).log, (f a).result⟩
  | .error e => ⟨x.log, .error e⟩

instance : Monad (Traced τ ε) where
  pure a := ⟨[], .ok a⟩
  bind := bind

/-- A computation without events. -/
def lift (x : Except ε α) : Traced τ ε α := ⟨[], x⟩

/-- `x`, with `e` as an event before it. -/
def after (e : τ) (x : Traced τ ε α) : Traced τ ε α := ⟨e :: x.log, x.result⟩

@[simp] theorem result_pure (a : α) : (pure a : Traced τ ε α).result = .ok a := rfl

@[simp] theorem log_pure (a : α) : (pure a : Traced τ ε α).log = [] := rfl

@[simp] theorem result_lift (x : Except ε α) : (lift x : Traced τ ε α).result = x := rfl

@[simp] theorem log_lift (x : Except ε α) : (lift x : Traced τ ε α).log = [] := rfl

@[simp] theorem result_after (e : τ) (x : Traced τ ε α) : (after e x).result = x.result := rfl

@[simp] theorem log_after (e : τ) (x : Traced τ ε α) : (after e x).log = e :: x.log := rfl

@[simp] theorem result_bind (x : Traced τ ε α) (f : α → Traced τ ε β) :
    (x >>= f).result = x.result >>= fun a => (f a).result := by
  show (bind x f).result = _
  unfold bind
  cases x.result <;> rfl

theorem log_bind_of_ok {x : Traced τ ε α} (f : α → Traced τ ε β) {a : α} (h : x.result = .ok a) :
    (x >>= f).log = x.log ++ (f a).log := by
  show (bind x f).log = _
  simp only [bind, h]

theorem log_bind_of_error {x : Traced τ ε α} (f : α → Traced τ ε β) {e : ε}
    (h : x.result = .error e) : (x >>= f).log = x.log := by
  show (bind x f).log = _
  simp only [bind, h]

theorem log_bind_of_mem {x : Traced τ ε α} (f : α → Traced τ ε β) {e : τ} (h : e ∈ x.log) :
    e ∈ (x >>= f).log := by
  cases hx : x.result with
  | ok a =>
      rw [log_bind_of_ok f hx]
      exact List.mem_append_left _ h
  | error err =>
      rw [log_bind_of_error f hx]
      exact h

end Traced

end MobileTerminal
