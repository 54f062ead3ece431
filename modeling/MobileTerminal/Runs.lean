import Mathlib.Tactic.Common

/-!
# Runs of equal values

A list of runs `Reproduces` a sequence when the runs are apart, none is empty,
they cover the sequence and nothing else, and each value stands for those that
its run covers. Whether a value stands for another is a parameter: it need not
be equality, and it need not be transitive.

A loop from left to right keeps the runs that are complete and one that is still
`Open`: it is extended while the next value is still covered, or closed and the
next one started. The three lemmas `Reproduces.open`, `Open.extend` and
`Open.close` are the rounds of such a loop, and `Open.close` is also its end.
-/

namespace MobileTerminal

structure Run (α : Type) where
  start : Int
  length : Int
  value : α
deriving DecidableEq, Repr

namespace Run

variable {α : Type} {R : α → α → Prop} {f : Int → α} {x : α} {n k : Int} {runs : List (Run α)}

def Covers (r : Run α) (j : Int) : Prop := r.start ≤ j ∧ j < r.start + r.length

/-- The runs of `f 0, .., f (n - 1)`, up to `R`: they lie apart and in order, none is empty,
every index is in one of them, and the value of a run stands for what `f` gives there. -/
structure Reproduces (R : α → α → Prop) (f : Int → α) (n : Int) (runs : List (Run α)) : Prop where
  positive : ∀ r ∈ runs, 0 < r.length
  disjoint : runs.Pairwise fun r r' => ∀ j, r.Covers j → ¬r'.Covers j
  covers : ∀ j, (∃ r ∈ runs, r.Covers j) ↔ 0 ≤ j ∧ j < n
  related : ∀ r ∈ runs, ∀ j, r.Covers j → R r.value (f j)

theorem Reproduces.nil : Reproduces R f 0 [] := by
  refine ⟨by simp, .nil, fun j => ?_, by simp⟩
  simp only [List.not_mem_nil, false_and, exists_false, false_iff]
  omega

theorem Reproduces.snoc (h : Reproduces R f n runs) (hn : 0 ≤ n) (hk : 0 < k)
    (hx : ∀ j, n ≤ j → j < n + k → R x (f j)) :
    Reproduces R f (n + k) (runs ++ [⟨n, k, x⟩]) := by
  have hbelow : ∀ r ∈ runs, ∀ j, r.Covers j → j < n := fun r hr j hj =>
    ((h.covers j).mp ⟨r, hr, hj⟩).2
  refine ⟨?_, ?_, fun j => ?_, ?_⟩
  · intro r hr
    rcases List.mem_append.mp hr with hr | hr
    · exact h.positive r hr
    · rw [List.mem_singleton.mp hr]
      exact hk
  · refine List.pairwise_append.mpr ⟨h.disjoint, List.pairwise_singleton _ _, ?_⟩
    intro r hr r' hr' j hj hj'
    rw [List.mem_singleton.mp hr'] at hj'
    exact absurd (hbelow r hr j hj) (Int.not_lt.mpr hj'.1)
  · have hold := h.covers j
    constructor
    · rintro ⟨r, hr, hj⟩
      rcases List.mem_append.mp hr with hr | hr
      · have hj := hold.mp ⟨r, hr, hj⟩
        omega
      · rw [List.mem_singleton.mp hr] at hj
        obtain ⟨hlo, hhi⟩ := hj
        change n ≤ j at hlo
        change j < n + k at hhi
        omega
    · rintro ⟨hj, hj'⟩
      by_cases hlt : j < n
      · obtain ⟨r, hr, hcov⟩ := hold.mpr ⟨hj, hlt⟩
        exact ⟨r, List.mem_append_left _ hr, hcov⟩
      · exact ⟨⟨n, k, x⟩, by simp, Int.not_lt.mp hlt, hj'⟩
  · intro r hr j hj
    rcases List.mem_append.mp hr with hr | hr
    · exact h.related r hr j hj
    · rw [List.mem_singleton.mp hr] at hj ⊢
      exact hx j hj.1 hj.2

/-- The runs before `start` are complete, and `x` stands for what follows up to `n`. -/
structure Open (R : α → α → Prop) (f : Int → α) (n start : Int) (x : α)
    (runs : List (Run α)) : Prop where
  done : Reproduces R f start runs
  range : 0 ≤ start ∧ start < n
  same : ∀ j, start ≤ j → j < n → R x (f j)

theorem Reproduces.open (h : Reproduces R f n runs) (hn : 0 ≤ n) (hx : R x (f n)) :
    Open R f (n + 1) n x runs := by
  refine ⟨h, ⟨hn, by omega⟩, fun j hj hj' => ?_⟩
  obtain rfl : j = n := by omega
  exact hx

theorem Open.extend {start : Int} (h : Open R f n start x runs) (hx : R x (f n)) :
    Open R f (n + 1) start x runs := by
  have hrange := h.range
  refine ⟨h.done, ⟨hrange.1, by omega⟩, fun j hj hj' => ?_⟩
  by_cases hlt : j < n
  · exact h.same j hj hlt
  · obtain rfl : j = n := by omega
    exact hx

theorem Open.close {start : Int} (h : Open R f n start x runs) :
    Reproduces R f n (runs ++ [⟨start, n - start, x⟩]) := by
  have hrange := h.range
  have hsnoc := h.done.snoc (k := n - start) hrange.1 (by omega)
    fun j hj hj' => h.same j hj (by omega)
  rwa [show start + (n - start) = n by omega] at hsnoc

end Run

end MobileTerminal
