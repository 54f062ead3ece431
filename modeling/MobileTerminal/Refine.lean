import Mathlib.Logic.Function.Iterate
import MobileTerminal.Fault

/-!
# Computations that refine a function

`Refines R x b`: the computation `x` completes, and its result stands in the
relation `R` to the value `b` of a specification that cannot fail. A
specification is a plain function, so the rules follow its shape: one for
composition, one for a choice, one for a counted loop and one for a fold. A rule
for a loop asks for the refinement of one round from a state that satisfies what
the loop keeps.

Completion is part of the relation. A specification says what the component
does, and a computation that stops on a fault refines nothing.

A run is a fold of a step over a list of commands, and `Guarded step ok s l`
says that every step of it meets what it needs in the state it finds.
`Guarded.refines` is the run rule: if each step refines the step of the
specification where `ok` holds, then so does a guarded run.
`Guarded.completes_iff` is for steps that complete exactly where `ok` holds; a
run then completes exactly when it is guarded, and the guard is a condition on
states before steps, which never mentions what a step returns.
-/

namespace MobileTerminal

section

variable {ε α β γ δ : Type} {R : α → β → Prop} {S : γ → δ → Prop}

def Refines (R : α → β → Prop) (x : Except ε α) (b : β) : Prop := ∃ a, x = .ok a ∧ R a b

theorem Refines.ok {a : α} {b : β} (h : R a b) : Refines R (.ok a : Except ε α) b := ⟨a, rfl, h⟩

theorem Refines.bind {x : Except ε α} {f : α → Except ε γ} {b : β} {g : β → δ}
    (hx : Refines R x b) (hf : ∀ a, x = .ok a → R a b → Refines S (f a) (g b)) :
    Refines S (x >>= f) (g b) := by
  obtain ⟨a, rfl, hab⟩ := hx
  exact hf a rfl hab

theorem Refines.ite {p : Prop} [Decidable p] {x y : Except ε α} {b c : β}
    (hx : p → Refines R x b) (hy : ¬p → Refines R y c) :
    Refines R (if p then x else y) (if p then b else c) := by
  split
  · exact hx ‹p›
  · exact hy ‹¬p›

theorem Refines.mono {R' : α → β → Prop} {x : Except ε α} {b : β} (h : Refines R x b)
    (hR : ∀ a, x = .ok a → R a b → R' a b) : Refines R' x b := by
  obtain ⟨a, hx, hab⟩ := h
  exact ⟨a, hx, hR a hx hab⟩

end

/-! ## Loops -/

section

variable {ε α σ τ : Type} {R : σ → τ → Prop}

theorem Refines.forUp {f : Int → σ → Except ε σ} {g : τ → τ}
    (hf : ∀ i s t, R s t → Refines R (f i s) (g t)) (lo : Int) (n : Nat) {s : σ} {t : τ}
    (h : R s t) : Refines R (forUp f lo n s) (g^[n] t) := by
  induction n generalizing lo s t with
  | zero => exact .ok h
  | succ n ih =>
      obtain ⟨s₁, hs₁, h₁⟩ := hf lo s t h
      rw [MobileTerminal.forUp, hs₁, ok_bind, Function.iterate_succ_apply]
      exact ih (lo + 1) h₁

/-- One step for each element, on both sides. What a step needs may depend on the state
it starts from. -/
theorem Refines.foldlM {f : σ → α → Except ε σ} {g : τ → α → τ}
    (hf : ∀ s t a, R s t → Refines R (f s a) (g t a)) {l : List α} {s : σ} {t : τ} (h : R s t) :
    Refines R (l.foldlM f s) (l.foldl g t) := by
  induction l generalizing s t with
  | nil => exact .ok h
  | cons a l ih =>
      obtain ⟨s₁, hs₁, h₁⟩ := hf s t a h
      rw [List.foldlM_cons, hs₁, ok_bind, List.foldl_cons]
      exact ih h₁

/-- The steps of a run that meet what they need, each in the state it finds. -/
inductive Guarded (f : σ → α → Except ε σ) (ok : σ → α → Prop) : σ → List α → Prop where
  | nil {s : σ} : Guarded f ok s []
  | cons {s : σ} {a : α} {l : List α} (h : ok s a)
      (hl : ∀ s', f s a = .ok s' → Guarded f ok s' l) : Guarded f ok s (a :: l)

theorem Guarded.imp {f : σ → α → Except ε σ} {ok ok' : σ → α → Prop}
    (h : ∀ s a, ok s a → ok' s a) {l : List α} {s : σ} (hl : Guarded f ok s l) :
    Guarded f ok' s l := by
  induction hl with
  | nil => exact .nil
  | cons ha _ ih => exact .cons (h _ _ ha) ih

/-- Where a step completes exactly when it finds what it needs, a run completes exactly when
all its steps find it. `I` is what the steps keep. -/
theorem Guarded.completes_iff {f : σ → α → Except ε σ} {ok : σ → α → Prop} {I : σ → Prop}
    {l : List α} (hI : ∀ a ∈ l, ∀ s s', I s → f s a = .ok s' → I s')
    (hok : ∀ a ∈ l, ∀ s, I s → ((∃ s', f s a = .ok s') ↔ ok s a)) {s : σ} (h : I s) :
    (∃ s', l.foldlM f s = .ok s') ↔ Guarded f ok s l := by
  induction l generalizing s with
  | nil => exact ⟨fun _ => .nil, fun _ => ⟨s, rfl⟩⟩
  | cons a l ih =>
      have ih := fun s₁ (h₁ : f s a = .ok s₁) =>
        ih (fun b hb => hI b (List.mem_cons_of_mem a hb))
          (fun b hb => hok b (List.mem_cons_of_mem a hb)) (hI a List.mem_cons_self s s₁ h h₁)
      have hhead := hok a List.mem_cons_self s h
      constructor
      · rintro ⟨s', hrun⟩
        rw [List.foldlM_cons] at hrun
        obtain ⟨s₁, h₁, hrun⟩ := bind_eq_ok.mp hrun
        refine .cons (hhead.mp ⟨s₁, h₁⟩) fun s₂ h₂ => ?_
        obtain rfl := Except.ok.inj (h₁.symm.trans h₂)
        exact (ih s₁ h₁).mp ⟨s', hrun⟩
      · intro hl
        cases hl with
        | cons ha hl =>
            obtain ⟨s₁, h₁⟩ := hhead.mpr ha
            obtain ⟨s', hrun⟩ := (ih s₁ h₁).mpr (hl s₁ h₁)
            exact ⟨s', by rw [List.foldlM_cons, h₁, ok_bind, hrun]⟩

theorem foldlM_prefix {f : σ → α → Except ε σ} {l l' : List α} (hl : l' <+: l) {s s' : σ}
    (h : l.foldlM f s = .ok s') : ∃ s₁, l'.foldlM f s = .ok s₁ := by
  obtain ⟨rest, rfl⟩ := hl
  rw [List.foldlM_append] at h
  obtain ⟨s₁, h₁, -⟩ := bind_eq_ok.mp h
  exact ⟨s₁, h₁⟩

/-- A run whose steps all meet what they need refines the run of the specification. -/
theorem Guarded.refines {f : σ → α → Except ε σ} {ok : σ → α → Prop} {g : τ → α → τ}
    (hf : ∀ s t a, R s t → ok s a → Refines R (f s a) (g t a)) {l : List α} {s : σ} {t : τ}
    (hl : Guarded f ok s l) (h : R s t) : Refines R (l.foldlM f s) (l.foldl g t) := by
  induction hl generalizing t with
  | nil => exact .ok h
  | @cons s a l ha hl ih =>
      obtain ⟨s₁, hs₁, h₁⟩ := hf s t a h ha
      rw [List.foldlM_cons, hs₁, ok_bind, List.foldl_cons]
      exact ih s₁ hs₁ h₁

end

end MobileTerminal
