import Mathlib.Tactic.Common

/-!
# Splitting a stream that arrives in pieces

A splitter looks at the front of what has arrived and either answers a segment
and how many items it takes, or waits. `split` takes segments off until the
splitter waits; `feed` does so after each piece that arrives, with what was left
put in front.

When more items never change an answer (`Stable`), it makes no difference where
the pieces are cut (`Stable.feed_eq`). A splitter that never waits forgets where
a piece ended, and then it makes a difference exactly when some piece does not
end where a segment of the whole ends (`Greedy.feed_eq_iff`).

Both are stated with the segments as they come, not with what a reader does with
them, so that they apply to any consumer. The recursion of `split` is by fuel; a
segment takes at least one item, so the length of the list is enough
(`splitWith_eq`), and `split_none` and `split_some` are the equations that
proofs use.
-/

namespace MobileTerminal

/-- A rule for the front of a list. -/
structure Splitter (α β : Type) where
  next : List α → Option (β × Nat)
  next_pos : ∀ {l : List α} {b : β} {n : Nat}, next l = some (b, n) → 0 < n
  next_le : ∀ {l : List α} {b : β} {n : Nat}, next l = some (b, n) → n ≤ l.length

namespace Splitter

variable {α β : Type} {S : Splitter α β} {a b l : List α}

/-- The segments of the first `fuel` rounds, and what is left. -/
def splitWith (S : Splitter α β) : Nat → List α → List β × List α
  | 0, l => ([], l)
  | fuel + 1, l =>
      match S.next l with
      | none => ([], l)
      | some (b, n) =>
          let r := splitWith S fuel (l.drop n)
          (b :: r.1, r.2)

/-- All segments, and what is left. -/
def split (S : Splitter α β) (l : List α) : List β × List α := S.splitWith l.length l

theorem next_nil (S : Splitter α β) : S.next [] = none := by
  cases h : S.next [] with
  | none => rfl
  | some p =>
      have hpos := S.next_pos h
      have hle := S.next_le h
      simp only [List.length_nil] at hle
      omega

/-- Each segment takes an item, so there are no more of them than items. -/
theorem splitWith_eq {fuel : Nat} (h : l.length ≤ fuel) : S.splitWith fuel l = S.split l := by
  suffices hall : ∀ k fuel (l : List α), l.length ≤ k → l.length ≤ fuel →
      S.splitWith fuel l = S.splitWith l.length l from hall _ _ l (Nat.le_refl _) h
  intro k
  induction k with
  | zero =>
      intro fuel l hk hfuel
      obtain rfl : l = [] := List.length_eq_zero_iff.mp (by omega)
      cases fuel with
      | zero => rfl
      | succ fuel => simp only [splitWith, next_nil, List.length_nil]
  | succ k ih =>
      intro fuel l hk hfuel
      cases l with
      | nil =>
          cases fuel with
          | zero => rfl
          | succ fuel => simp only [splitWith, next_nil, List.length_nil]
      | cons x l =>
          rw [List.length_cons] at hk hfuel
          obtain ⟨fuel, rfl⟩ : ∃ m, fuel = m + 1 := ⟨fuel - 1, by omega⟩
          rw [List.length_cons, splitWith, splitWith]
          cases hnext : S.next (x :: l) with
          | none => rfl
          | some p =>
              have hpos := S.next_pos hnext
              have hlen : ((x :: l).drop p.2).length ≤ l.length := by
                rw [List.length_drop, List.length_cons]
                omega
              have hfuel' := ih fuel ((x :: l).drop p.2) (by omega) (by omega)
              have hlen' := ih l.length ((x :: l).drop p.2) (by omega) hlen
              simp only [hfuel', hlen']

theorem split_none (h : S.next l = none) : S.split l = ([], l) := by
  rw [← splitWith_eq (Nat.le_succ l.length), splitWith, h]

theorem split_some {s : β} {n : Nat} (h : S.next l = some (s, n)) :
    S.split l = (s :: (S.split (l.drop n)).1, (S.split (l.drop n)).2) := by
  have hlen : (l.drop n).length ≤ l.length := by
    rw [List.length_drop]
    omega
  rw [← splitWith_eq (Nat.le_succ l.length), splitWith, h]
  simp only [splitWith_eq hlen]

theorem split_nil (S : Splitter α β) : S.split [] = ([], []) := split_none S.next_nil

theorem segments_induction {P : List α → Prop} (l : List α)
    (hnone : ∀ l, S.next l = none → P l)
    (hsome : ∀ l s n, S.next l = some (s, n) → P (l.drop n) → P l) : P l := by
  suffices hall : ∀ k (l : List α), l.length ≤ k → P l from hall _ l (Nat.le_refl _)
  intro k
  induction k with
  | zero =>
      intro l hk
      obtain rfl : l = [] := List.length_eq_zero_iff.mp (by omega)
      exact hnone [] S.next_nil
  | succ k ih =>
      intro l hk
      cases hnext : S.next l with
      | none => exact hnone l hnext
      | some p =>
          have hpos := S.next_pos hnext
          have hle := S.next_le hnext
          refine hsome l p.1 p.2 hnext (ih _ ?_)
          rw [List.length_drop]
          omega

theorem split_rest (S : Splitter α β) (l : List α) :
    S.split (S.split l).2 = ([], (S.split l).2) := by
  induction l using segments_induction (S := S) with
  | hnone l h => rw [split_none h, split_none h]
  | hsome l s n h ih =>
      rw [split_some h]
      exact ih

/-- More items do not change an answer. -/
def Stable (S : Splitter α β) : Prop :=
  ∀ (l more : List α) (p : β × Nat), S.next l = some p → S.next (l ++ more) = some p

/-- The segments of `a` first, then those of what `a` leaves and `b`. -/
theorem Stable.split_append (hS : S.Stable) (a b : List α) :
    S.split (a ++ b) =
      ((S.split a).1 ++ (S.split ((S.split a).2 ++ b)).1, (S.split ((S.split a).2 ++ b)).2) := by
  induction a using segments_induction (S := S) with
  | hnone a h =>
      rw [split_none h]
      rfl
  | hsome a s n h ih =>
      rw [split_some h, split_some (hS a b _ h), List.drop_append_of_le_length (S.next_le h), ih]
      rfl

/-- The segments after each piece, and what is left in the end. -/
def feed (S : Splitter α β) : List (List α) → List α → List β × List α
  | [], l => ([], l)
  | piece :: pieces, l =>
      let r := S.split (l ++ piece)
      let rest := feed S pieces r.2
      (r.1 ++ rest.1, rest.2)

/-- It makes no difference where a stream is cut. -/
theorem Stable.feed_eq (hS : S.Stable) (pieces : List (List α)) {l : List α}
    (hl : S.split l = ([], l)) : S.feed pieces l = S.split (l ++ pieces.flatten) := by
  induction pieces generalizing l with
  | nil => rw [feed, List.flatten_nil, List.append_nil, hl]
  | cons piece pieces ih =>
      rw [feed, ih (S.split_rest _), List.flatten_cons, ← List.append_assoc,
        hS.split_append (l ++ piece) pieces.flatten]

theorem feed_take (S : Splitter α β) (pieces : List (List α)) (n : Nat) (l : List α) :
    (S.feed (pieces.take n) l).1 <+: (S.feed pieces l).1 := by
  induction pieces generalizing n l with
  | nil => simp only [List.take_nil, List.prefix_rfl]
  | cons piece pieces ih =>
      cases n with
      | zero => simp only [List.take_zero, feed, List.nil_prefix]
      | succ n =>
          rw [List.take_succ_cons]
          exact List.prefix_append_right_inj _ |>.mpr (ih n _)

/-- A splitter that never waits. -/
def Greedy (S : Splitter α β) : Prop := ∀ l, (S.split l).2 = []

/-- Each piece of a list is split off what follows it: no segment of the whole runs across the
end of a piece. -/
def PiecesFit (fits : List α → Prop) : List (List α) → Prop
  | [] => True
  | piece :: pieces => (pieces.flatten = [] ∨ fits piece) ∧ PiecesFit fits pieces

/-- A splitter that never waits starts anew with each piece. That makes no difference
exactly for the pieces that end where a segment of the whole ends. -/
theorem Greedy.feed_eq_iff (hS : S.Greedy) {fits : List α → Prop}
    (hfits : ∀ a b, fits a → (S.split (a ++ b)).1 = (S.split a).1 ++ (S.split b).1)
    (hcuts : ∀ a b segments, ¬fits a → b ≠ [] →
      (S.split (a ++ b)).1 ≠ (S.split a).1 ++ segments)
    (pieces : List (List α)) :
    (S.feed pieces []).1 = (S.split pieces.flatten).1 ↔ PiecesFit fits pieces := by
  induction pieces with
  | nil => simp only [feed, List.flatten_nil, split_nil, PiecesFit]
  | cons piece pieces ih =>
      have hfeed : (S.feed (piece :: pieces) []).1 = (S.split piece).1 ++ (S.feed pieces []).1 := by
        rw [feed, List.nil_append, hS]
      rw [hfeed, List.flatten_cons, PiecesFit]
      by_cases hnil : pieces.flatten = []
      · rw [hnil, split_nil] at ih
        rw [hnil, List.append_nil, ← ih]
        simp
      · by_cases hpiece : fits piece
        · rw [hfits piece _ hpiece, List.append_cancel_left_eq, ih]
          simp [hpiece]
        · simp only [hnil, hpiece, or_self, false_and, iff_false]
          exact fun heq => hcuts piece _ _ hpiece hnil heq.symm

end Splitter

end MobileTerminal
