import Mathlib.Data.List.Chain

/-!
# A cache of one entry

A cache keeps the answer to one request. A request that the kept one matches is
answered with the kept answer, any other is answered afresh and kept in its
place. The kept one may match a request that wants something else (`hit` without
`same`).

When whatever a request matches wants the same as the request, in the two ways
of `Lossy`, then all answers of a run are right exactly when no request follows
directly on one that matches it and wants something else (`allRight_iff`).

The direct predecessor is enough although the entry may be older: between the
request that made the entry and the present one there have only been hits, and
as long as these were right they wanted the same (`Settled`). The induction is
on the run, with `Settled` as its invariant.
-/

namespace MobileTerminal

namespace KeyedCache

variable {ρ : Type} {hit same : ρ → ρ → Prop} [DecidableRel hit] {k l r : ρ} {rs : List ρ}

/-- The request that is kept after `r`. -/
def keep (hit : ρ → ρ → Prop) [DecidableRel hit] (k r : ρ) : ρ := if hit k r then k else r

/-- Every answer is the one its request wants. -/
def AllRight (hit same : ρ → ρ → Prop) [DecidableRel hit] : ρ → List ρ → Prop
  | _, [] => True
  | k, r :: rs => same (keep hit k r) r ∧ AllRight hit same (keep hit k r) rs

/-- What is wanted is a partial equivalence, and the match is by a key that is lost only once:
requests that one entry matches want the same, and so does a request that such a request
matches in turn. -/
structure Lossy (hit same : ρ → ρ → Prop) : Prop where
  refl : ∀ r, same r r
  trans : ∀ {a b c}, same a b → same b c → same a c
  siblings : ∀ {k r r'}, hit k r → hit k r' → same r r'
  next : ∀ {k r r'}, hit k r → hit r r' → same r r'

/-- `l` was the last request and `k` is kept: either for `l` itself, or it was a right answer. -/
def Settled (hit same : ρ → ρ → Prop) (k l : ρ) : Prop := k = l ∨ hit k l ∧ same k l

theorem allRight_iff_of_settled (h : Lossy hit same) (hkl : Settled hit same k l) :
    AllRight hit same k rs ↔ List.IsChain (fun r r' => hit r r' → same r r') (l :: rs) := by
  induction rs generalizing k l with
  | nil => simp [AllRight]
  | cons r rs ih =>
      rw [List.isChain_cons_cons, AllRight]
      by_cases hr : hit k r
      · rw [keep, if_pos hr]
        rcases hkl with rfl | ⟨hl, hsame⟩
        · constructor
          · rintro ⟨hright, hrest⟩
            exact ⟨fun _ => hright, (ih (Or.inr ⟨hr, hright⟩)).mp hrest⟩
          · rintro ⟨hright, hrest⟩
            exact ⟨hright hr, (ih (Or.inr ⟨hr, hright hr⟩)).mpr hrest⟩
        · have hright := h.trans hsame (h.siblings hl hr)
          rw [ih (Or.inr ⟨hr, hright⟩)]
          exact and_congr_left fun _ => iff_of_true hright fun _ => h.siblings hl hr
      · rw [keep, if_neg hr, ih (Or.inl rfl)]
        refine and_congr_left fun _ => iff_of_true (h.refl r) fun hlr => ?_
        rcases hkl with rfl | ⟨hl, -⟩
        · exact absurd hlr hr
        · exact h.next hl hlr

/-- The answers of a run that starts with the entry for `k` are right exactly when no request
clashes with the one before it. -/
theorem allRight_iff (h : Lossy hit same) :
    AllRight hit same k rs ↔ List.IsChain (fun r r' => hit r r' → same r r') (k :: rs) :=
  allRight_iff_of_settled h (Or.inl rfl)

end KeyedCache

end MobileTerminal
