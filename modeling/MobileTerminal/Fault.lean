import Mathlib.Tactic.Common

/-!
# Faulting computations and counted loops

A piece of C code either completes or stops: on an assertion, on an access
outside its memory, on a block operation whose length is negative, or by running
forever. `Except (Fault ι)` keeps the four apart (`ι` names the assertions), so
that "no assertion is tripped", "nothing outside the memory is touched" and "it
ends" are statements about the same computation.

The lemmas on `bind` invert a computation that has completed: from the result of
`x >>= f` to the result of `x` and that of `f` on it. They are all a proof needs
to take a handler apart without unfolding the monad.

`ExceptRel R x y` says that two computations end the same way, with results in
the relation `R` or with the same fault. It composes along `bind`, choices and
loops, and is how two models of one function are compared.

The loops `forUp` and `forDown` are C's counted `for` loops; each comes with a
rule that carries an invariant through a completed run, a rule that also shows
that the run completes, a rule that relates two runs, and a rule for the faults
a run does not stop on. `Avoids bad x` leaves the faults of memory out: whether
an address is in its block is a question of arithmetic, the others are decided
by what the program knows of its state.
-/

namespace MobileTerminal

/-- Why a computation did not complete. -/
inductive Fault (ι : Type) where
  | assertion (site : ι)
  | outOfBounds
  | badLength
  | diverges
deriving DecidableEq, Repr

/-- The faults of memory operations, which an address decides and no assertion of the source.
-/
def Fault.isMemory {ι : Type} : Fault ι → Bool
  | .outOfBounds | .badLength => true
  | _ => false

section

variable {ε α β γ δ : Type}

theorem bind_eq_ok {x : Except ε α} {f : α → Except ε β} {b : β} :
    (x >>= f) = .ok b ↔ ∃ a, x = .ok a ∧ f a = .ok b := by
  constructor
  · intro h
    cases x with
    | error e => cases h
    | ok a => exact ⟨a, rfl, h⟩
  · rintro ⟨a, rfl, h⟩
    exact h

theorem bind_congr_ok {x : Except ε α} {f g : α → Except ε β} (h : ∀ a, x = .ok a → f a = g a) :
    x >>= f = x >>= g := by
  cases x with
  | error e => rfl
  | ok a => exact h a rfl

theorem bind_eq_error {x : Except ε α} {f : α → Except ε β} {e : ε} :
    (x >>= f) = .error e ↔ x = .error e ∨ ∃ a, x = .ok a ∧ f a = .error e := by
  constructor
  · intro h
    cases x with
    | error e' => exact Or.inl (Except.error.inj h ▸ rfl)
    | ok a => exact Or.inr ⟨a, rfl, h⟩
  · rintro (rfl | ⟨a, rfl, h⟩)
    · rfl
    · exact h

@[simp] theorem ok_bind (a : α) (f : α → Except ε β) : (Except.ok a >>= f) = f a := rfl

@[simp] theorem error_bind (e : ε) (f : α → Except ε β) :
    ((Except.error e : Except ε α) >>= f) = .error e := rfl

@[simp] theorem pure_eq_ok (a : α) : (pure a : Except ε α) = .ok a := rfl

/-! ## Related results -/

/-- Two computations end the same way: both complete with related values, or
both stop for the same reason. -/
def ExceptRel (R : α → β → Prop) : Except ε α → Except ε β → Prop
  | .ok a, .ok b => R a b
  | .error e, .error e' => e = e'
  | _, _ => False

theorem ExceptRel.ok {R : α → β → Prop} {a : α} {b : β} (h : R a b) :
    ExceptRel R (.ok a : Except ε α) (.ok b) := h

theorem ExceptRel.error {R : α → β → Prop} (e : ε) :
    ExceptRel R (.error e : Except ε α) (.error e : Except ε β) := rfl

/-- The rest of the computations may use how their starts have completed. -/
theorem ExceptRel.bind_ok {R : α → β → Prop} {S : γ → δ → Prop} {x : Except ε α}
    {y : Except ε β} {f : α → Except ε γ} {g : β → Except ε δ} (h : ExceptRel R x y)
    (hfg : ∀ a b, x = .ok a → y = .ok b → R a b → ExceptRel S (f a) (g b)) :
    ExceptRel S (x >>= f) (y >>= g) := by
  cases x with
  | error e =>
      cases y with
      | error e' => exact h
      | ok b => exact h.elim
  | ok a =>
      cases y with
      | error e' => exact h.elim
      | ok b => exact hfg a b rfl rfl h

theorem ExceptRel.bind {R : α → β → Prop} {S : γ → δ → Prop} {x : Except ε α}
    {y : Except ε β} {f : α → Except ε γ} {g : β → Except ε δ}
    (h : ExceptRel R x y) (hfg : ∀ a b, R a b → ExceptRel S (f a) (g b)) :
    ExceptRel S (x >>= f) (y >>= g) :=
  h.bind_ok fun a b _ _ => hfg a b

theorem ExceptRel.bind_same {S : γ → δ → Prop} (x : Except ε α)
    {f : α → Except ε γ} {g : α → Except ε δ}
    (hfg : ∀ a, ExceptRel S (f a) (g a)) : ExceptRel S (x >>= f) (x >>= g) := by
  cases x with
  | error e => exact rfl
  | ok a => exact hfg a

theorem ExceptRel.ite {R : α → β → Prop} {p : Prop} [Decidable p] {x y : Except ε α}
    {x' y' : Except ε β} (hx : p → ExceptRel R x x') (hy : ¬p → ExceptRel R y y') :
    ExceptRel R (if p then x else y) (if p then x' else y') := by
  split
  · exact hx ‹p›
  · exact hy ‹¬p›

theorem ExceptRel.of_eq {R : α → α → Prop} (hR : ∀ a, R a a) (x : Except ε α) : ExceptRel R x x := by
  cases x with
  | error e => exact rfl
  | ok a => exact hR a

theorem ExceptRel.eq {x y : Except ε α} (h : ExceptRel Eq x y) : x = y := by
  cases x <;> cases y <;> first | exact congrArg _ h | exact h.elim

theorem ExceptRel.symm {R : α → β → Prop} {S : β → α → Prop} (hRS : ∀ a b, R a b → S b a)
    {x : Except ε α} {y : Except ε β} (h : ExceptRel R x y) : ExceptRel S y x := by
  cases x <;> cases y <;> first | exact Eq.symm h | exact hRS _ _ h | exact h.elim

theorem ExceptRel.trans {R : α → α → Prop} (hR : ∀ a b c, R a b → R b c → R a c)
    {x y z : Except ε α} (h : ExceptRel R x y) (h' : ExceptRel R y z) :
    ExceptRel R x z := by
  cases x <;> cases y <;> cases z <;>
    first
      | exact h.elim
      | exact h'.elim
      | exact Eq.trans h h'
      | exact hR _ _ _ h h'

end

/-! ## Counted loops -/

section

variable {ε σ τ : Type}

/-- `for (i = lo; i < lo + n; i++) s = f(i, s)`. -/
def forUp (f : Int → σ → Except ε σ) (lo : Int) : Nat → σ → Except ε σ
  | 0, s => .ok s
  | n + 1, s => f lo s >>= forUp f (lo + 1) n

/-- `for (i = hi; i > hi - n; i--) s = f(i, s)`. -/
def forDown (f : Int → σ → Except ε σ) (hi : Int) : Nat → σ → Except ε σ
  | 0, s => .ok s
  | n + 1, s => f hi s >>= forDown f (hi - 1) n

/-- An invariant of the body holds after a completed loop. -/
theorem forUp_inv {f : Int → σ → Except ε σ} {P : Int → σ → Prop} {lo : Int}
    {n : Nat} {s s' : σ}
    (hstep : ∀ i s s', lo ≤ i → i < lo + n → P i s → f i s = .ok s' → P (i + 1) s')
    (h0 : P lo s) (h : forUp f lo n s = .ok s') : P (lo + n) s' := by
  induction n generalizing lo s with
  | zero =>
      simp only [forUp, Except.ok.injEq] at h
      simpa [h] using h0
  | succ n ih =>
      obtain ⟨s₁, h₁, h₂⟩ := bind_eq_ok.mp h
      have hP := hstep lo s s₁ (Int.le_refl _) (by omega) h0 h₁
      have := ih (fun i s s' hi hin => hstep i s s' (by omega) (by omega)) hP h₂
      rwa [show lo + ((n + 1 : Nat) : Int) = lo + 1 + n by omega]

/-- When every step completes and keeps the invariant, so does the loop. This is the rule for
a loop whose completion is part of the statement. -/
theorem forUp_total {f : Int → σ → Except ε σ} {P : Int → σ → Prop} (lo : Int) (n : Nat)
    {s : σ}
    (hstep : ∀ i s, lo ≤ i → i < lo + n → P i s → ∃ s', f i s = .ok s' ∧ P (i + 1) s')
    (h0 : P lo s) : ∃ s', forUp f lo n s = .ok s' ∧ P (lo + n) s' := by
  induction n generalizing lo s with
  | zero => exact ⟨s, rfl, by simpa using h0⟩
  | succ n ih =>
      obtain ⟨s₁, h₁, hP⟩ := hstep lo s (Int.le_refl _) (by omega) h0
      obtain ⟨s', h', hP'⟩ :=
        ih (lo + 1) (fun i s hi hin => hstep i s (by omega) (by omega)) hP
      refine ⟨s', by rw [forUp, h₁]; exact h', ?_⟩
      rwa [show lo + ((n + 1 : Nat) : Int) = lo + 1 + n by omega]

theorem forDown_inv {f : Int → σ → Except ε σ} {P : Int → σ → Prop} {hi : Int}
    {n : Nat} {s s' : σ}
    (hstep : ∀ i s s', i ≤ hi → hi - n < i → P i s → f i s = .ok s' → P (i - 1) s')
    (h0 : P hi s) (h : forDown f hi n s = .ok s') : P (hi - n) s' := by
  induction n generalizing hi s with
  | zero =>
      simp only [forDown, Except.ok.injEq] at h
      simpa [h] using h0
  | succ n ih =>
      obtain ⟨s₁, h₁, h₂⟩ := bind_eq_ok.mp h
      have hP := hstep hi s s₁ (Int.le_refl _) (by omega) h0 h₁
      have := ih (fun i s s' hi hin => hstep i s s' (by omega) (by omega)) hP h₂
      rwa [show hi - ((n + 1 : Nat) : Int) = hi - 1 - n by omega]

theorem forDown_total {f : Int → σ → Except ε σ} {P : Int → σ → Prop} (hi : Int) (n : Nat)
    {s : σ}
    (hstep : ∀ i s, i ≤ hi → hi - n < i → P i s → ∃ s', f i s = .ok s' ∧ P (i - 1) s')
    (h0 : P hi s) : ∃ s', forDown f hi n s = .ok s' ∧ P (hi - n) s' := by
  induction n generalizing hi s with
  | zero => exact ⟨s, rfl, by simpa using h0⟩
  | succ n ih =>
      obtain ⟨s₁, h₁, hP⟩ := hstep hi s (Int.le_refl _) (by omega) h0
      obtain ⟨s', h', hP'⟩ :=
        ih (hi - 1) (fun i s hi hin => hstep i s (by omega) (by omega)) hP
      refine ⟨s', by rw [forDown, h₁]; exact h', ?_⟩
      rwa [show hi - ((n + 1 : Nat) : Int) = hi - 1 - n by omega]

/-- Loops whose bodies agree on the states that the loop passes through agree. -/
theorem forUp_congr {f g : Int → σ → Except ε σ} {P : σ → Prop} {lo : Int} {n : Nat} {s : σ}
    (hfg : ∀ i s, lo ≤ i → i < lo + n → P s → f i s = g i s)
    (hstep : ∀ i s s', P s → f i s = .ok s' → P s') (h0 : P s) :
    forUp f lo n s = forUp g lo n s := by
  induction n generalizing lo s with
  | zero => rfl
  | succ n ih =>
      rw [forUp, forUp, ← hfg lo s (Int.le_refl _) (by omega) h0]
      cases h : f lo s with
      | error e => rfl
      | ok s₁ => exact ih (fun i s hi hi' => hfg i s (by omega) (by omega)) (hstep lo s s₁ h0 h)

theorem forDown_congr {f g : Int → σ → Except ε σ} {P : σ → Prop} {hi : Int} {n : Nat} {s : σ}
    (hfg : ∀ i s, i ≤ hi → hi - n < i → P s → f i s = g i s)
    (hstep : ∀ i s s', P s → f i s = .ok s' → P s') (h0 : P s) :
    forDown f hi n s = forDown g hi n s := by
  induction n generalizing hi s with
  | zero => rfl
  | succ n ih =>
      rw [forDown, forDown, ← hfg hi s (Int.le_refl _) (by omega) h0]
      cases h : f hi s with
      | error e => rfl
      | ok s₁ => exact ih (fun i s hi hi' => hfg i s (by omega) (by omega)) (hstep hi s s₁ h0 h)

/-- A round of a completed loop has completed, from a state with the invariant: what a later
proof needs when it has to look inside a loop that is known to have run through. -/
theorem forUp_round {f : Int → σ → Except ε σ} {P : σ → Prop} {lo : Int} {n : Nat} {s s' : σ}
    (hstep : ∀ i s s', P s → f i s = .ok s' → P s') (h0 : P s) (h : forUp f lo n s = .ok s')
    {k : Int} (hk : lo ≤ k) (hk' : k < lo + n) : ∃ s₁ s₂, P s₁ ∧ f k s₁ = .ok s₂ := by
  induction n generalizing lo s with
  | zero => omega
  | succ n ih =>
      obtain ⟨s₁, h₁, h⟩ := bind_eq_ok.mp h
      by_cases heq : k = lo
      · subst heq
        exact ⟨s, s₁, h0, h₁⟩
      · exact ih (hstep lo s s₁ h0 h₁) h (by omega) (by omega)

theorem forUp_rel {f : Int → σ → Except ε σ} {g : Int → τ → Except ε τ}
    {R : σ → τ → Prop} (hfg : ∀ i s t, R s t → ExceptRel R (f i s) (g i t))
    (lo : Int) (n : Nat) {s : σ} {t : τ} (h : R s t) :
    ExceptRel R (forUp f lo n s) (forUp g lo n t) := by
  induction n generalizing lo s t with
  | zero => exact h
  | succ n ih => exact (hfg lo s t h).bind fun _ _ h' => ih (lo + 1) h'

theorem forDown_rel {f : Int → σ → Except ε σ} {g : Int → τ → Except ε τ}
    {R : σ → τ → Prop} (hfg : ∀ i s t, R s t → ExceptRel R (f i s) (g i t))
    (hi : Int) (n : Nat) {s : σ} {t : τ} (h : R s t) :
    ExceptRel R (forDown f hi n s) (forDown g hi n t) := by
  induction n generalizing hi s t with
  | zero => exact h
  | succ n ih => exact (hfg hi s t h).bind fun _ _ h' => ih (hi - 1) h'

end

/-- An invariant of a step holds after a completed fold. -/
theorem foldlM_inv {ε α σ : Type} {f : σ → α → Except ε σ} {P : σ → Prop} {l : List α} {s s' : σ}
    (hstep : ∀ s a s', P s → f s a = .ok s' → P s') (h0 : P s) (h : l.foldlM f s = .ok s') :
    P s' := by
  induction l generalizing s with
  | nil =>
      cases h
      exact h0
  | cons a l ih =>
      rw [List.foldlM_cons] at h
      obtain ⟨s₁, h₁, h⟩ := bind_eq_ok.mp h
      exact ih (hstep s a s₁ h0 h₁) h

/-! ## Faults that do not happen -/

section

variable {ι α β σ : Type} {bad : Fault ι → Prop}

/-- The computation does not stop on a fault of `bad`. Memory operations are left
out: they depend on addresses, the others on what the program knows. -/
def Avoids (bad : Fault ι → Prop) (x : Except (Fault ι) α) : Prop :=
  ∀ e, e.isMemory = false → bad e → x ≠ .error e

theorem Avoids.ok (a : α) : Avoids bad (.ok a) := fun _ _ _ h => by cases h

theorem Avoids.memory {e : Fault ι} (hm : e.isMemory = true) :
    Avoids bad (.error e : Except (Fault ι) α) := by
  intro e' he _ h
  cases h
  rw [hm] at he
  cases he

theorem Avoids.diverges (hd : ¬bad .diverges) :
    Avoids bad (.error .diverges : Except (Fault ι) α) := by
  intro e _ hb h
  cases h
  exact hd hb

theorem Avoids.bind {x : Except (Fault ι) α} {f : α → Except (Fault ι) β} (hx : Avoids bad x)
    (hf : ∀ a, x = .ok a → Avoids bad (f a)) : Avoids bad (x >>= f) := by
  intro e he hb h
  rcases bind_eq_error.mp h with h | ⟨a, ha, h⟩
  · exact hx e he hb h
  · exact hf a ha e he hb h

theorem Avoids.ite {p : Prop} [Decidable p] {x y : Except (Fault ι) α} (hx : p → Avoids bad x)
    (hy : ¬p → Avoids bad y) : Avoids bad (if p then x else y) := by
  split
  · exact hx ‹p›
  · exact hy ‹¬p›

theorem Avoids.forUp {f : Int → σ → Except (Fault ι) σ} {P : Int → σ → Prop} {lo : Int} {n : Nat}
    {s : σ} (hf : ∀ i s, lo ≤ i → i < lo + n → P i s → Avoids bad (f i s))
    (hP : ∀ i s s', lo ≤ i → i < lo + n → P i s → f i s = .ok s' → P (i + 1) s')
    (h0 : P lo s) : Avoids bad (forUp f lo n s) := by
  induction n generalizing lo s with
  | zero => exact .ok s
  | succ n ih =>
      refine Avoids.bind (hf lo s (Int.le_refl _) (by omega) h0) fun s₁ h₁ => ?_
      exact ih (fun i s hi hin => hf i s (by omega) (by omega))
        (fun i s s' hi hin => hP i s s' (by omega) (by omega))
        (hP lo s s₁ (Int.le_refl _) (by omega) h0 h₁)

theorem Avoids.forDown {f : Int → σ → Except (Fault ι) σ} {P : Int → σ → Prop} {hi : Int}
    {n : Nat} {s : σ} (hf : ∀ i s, i ≤ hi → hi - n < i → P i s → Avoids bad (f i s))
    (hP : ∀ i s s', i ≤ hi → hi - n < i → P i s → f i s = .ok s' → P (i - 1) s')
    (h0 : P hi s) : Avoids bad (forDown f hi n s) := by
  induction n generalizing hi s with
  | zero => exact .ok s
  | succ n ih =>
      refine Avoids.bind (hf hi s (Int.le_refl _) (by omega) h0) fun s₁ h₁ => ?_
      exact ih (fun i s hi hin => hf i s (by omega) (by omega))
        (fun i s s' hi hin => hP i s s' (by omega) (by omega))
        (hP hi s s₁ (Int.le_refl _) (by omega) h0 h₁)

theorem Avoids.foldlM {f : σ → α → Except (Fault ι) σ} {P : σ → Prop} {l : List α} {s : σ}
    (hf : ∀ s a, P s → Avoids bad (f s a)) (hP : ∀ s a s', P s → f s a = .ok s' → P s')
    (h0 : P s) : Avoids bad (l.foldlM f s) := by
  induction l generalizing s with
  | nil => exact .ok s
  | cons a l ih =>
      rw [List.foldlM_cons]
      exact Avoids.bind (hf s a h0) fun s₁ h₁ => ih (hP s a s₁ h0 h₁)

end

end MobileTerminal
