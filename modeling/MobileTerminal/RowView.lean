import Mathlib.Data.List.Pairwise
import MobileTerminal.AttributedRow

/-!
# The background of a row

`drawBackground:forString:` of `VT100RowView.m` fills a rectangle for each range
of columns that has one background, and goes on where the range ends. An
attributed string answers with a range that has the column in it and one colour;
it need not be the largest one. The rectangles then cover the row, none lies on
another, and each has the colour of its cells (`drawBackground_paints`).

`Blocks` is what is known of the ranges that are answered with: every column is
in one of them, and the colour it answers with has been set for all of its
columns. The largest ranges are such blocks, and so is any division of them. The
loop asks at the end of each range for the next one, so what it relies on is
that this is the start of a block (`Boundary`); with that each round fills one
block.
-/

namespace MobileTerminal

namespace Run

variable {α : Type} {R : α → α → Prop} {f : Int → α} {n : Int} {blocks : List (Run α)}

instance (r : Run α) (j : Int) : Decidable (r.Covers j) := inferInstanceAs (Decidable (_ ∧ _))

/-- `CFAttributedStringGetAttribute`: the value at a location and the effective range. -/
def getAttribute (blocks : List (Run α)) (location : Int) : Option (Run α) :=
  blocks.find? fun r => decide (r.Covers location)

/-- The loop of `drawBackground:forString:` over what remains; a rectangle is given by its
columns. -/
def drawBackground (blocks : List (Run α)) : Nat → Int → Int → Res (List (Run α))
  | 0, _, length => if length > 0 then .error .diverges else .ok []
  | k + 1, location, length =>
      if length > 0 then
        match getAttribute blocks location with
        | none => .error .outOfBounds
        | some r => do
            let fills ← drawBackground blocks k (location + r.length) (length - r.length)
            .ok (r :: fills)
      else .ok []

/-- Between two rectangles: a range ends there, or it is the start of the row. -/
def Boundary (blocks : List (Run α)) (location : Int) : Prop :=
  location = 0 ∨ ∃ r ∈ blocks, r.start + r.length = location

theorem getAttribute_boundary (h : Reproduces R f n blocks) {location : Int} (h0 : 0 ≤ location)
    (hn : location < n) (hb : Boundary blocks location) :
    ∃ r ∈ blocks, getAttribute blocks location = some r ∧ r.start = location := by
  obtain ⟨r, hr, hcov⟩ := (h.covers location).mpr ⟨h0, hn⟩
  obtain ⟨r', hfind⟩ : ∃ r', getAttribute blocks location = some r' :=
    Option.isSome_iff_exists.mp (List.find?_isSome.mpr ⟨r, hr, decide_eq_true hcov⟩)
  have hr' : r' ∈ blocks := List.mem_of_find?_eq_some hfind
  have hcov' : r'.Covers location :=
    of_decide_eq_true (List.find?_some (p := fun r : Run α => decide (r.Covers location)) hfind)
  refine ⟨r', hr', hfind, ?_⟩
  obtain ⟨hlo, hhi⟩ := hcov'
  rcases Int.lt_or_eq_of_le hlo with hlt | heq
  · -- the column before is in this range, and in the one that ends here
    have hbefore : r'.Covers (location - 1) := ⟨by omega, by omega⟩
    rcases hb with rfl | ⟨last, hlast, hend⟩
    · have := ((h.covers (0 - 1)).mp ⟨r', hr', hbefore⟩).1
      omega
    · have hpos := h.positive last hlast
      have hcovers : last.Covers (location - 1) := ⟨by omega, by omega⟩
      have hne : r' ≠ last := fun heq => by
        rw [heq] at hhi
        omega
      have : Std.Symm fun r r' : Run α => ∀ j, r.Covers j → ¬r'.Covers j :=
        ⟨fun _ _ hab j hj hj' => hab j hj' hj⟩
      exact absurd hcovers (h.disjoint.forall hr' hlast hne _ hbefore)
  · exact heq

theorem drawBackground_from (h : Reproduces R f n blocks) {k : Nat} {location : Int}
    (h0 : 0 ≤ location) (hn : location ≤ n) (hb : Boundary blocks location)
    (hk : n - location ≤ k) :
    ∃ fills, drawBackground blocks k location (n - location) = .ok fills ∧
      ∀ done, Reproduces R f location done → Reproduces R f n (done ++ fills) := by
  induction k generalizing location with
  | zero =>
      obtain rfl : location = n := by omega
      refine ⟨[], if_neg (by omega), fun done hdone => ?_⟩
      rwa [List.append_nil]
  | succ k ih =>
      by_cases hlt : location < n
      · obtain ⟨r, hr, hfind, hstart⟩ := getAttribute_boundary h h0 hlt hb
        have hpos := h.positive r hr
        have hlast := ((h.covers (location + r.length - 1)).mp
          ⟨r, hr, by omega, by omega⟩).2
        have hnext : Boundary blocks (location + r.length) := .inr ⟨r, hr, by omega⟩
        obtain ⟨fills, hrest, hfills⟩ := ih (by omega) (by omega) hnext (by omega)
        refine ⟨r :: fills, ?_, fun done hdone => ?_⟩
        · rw [drawBackground, if_pos (by omega), hfind]
          simp only
          rw [show n - location - r.length = n - (location + r.length) by omega, hrest]
          rfl
        · have hsnoc := hdone.snoc h0 hpos fun j hj hj' =>
            h.related r hr j ⟨by omega, by omega⟩
          rw [← hstart] at hsnoc
          have hall := hfills (done ++ [r]) (by rwa [← hstart])
          rwa [List.append_assoc] at hall
      · obtain rfl : location = n := by omega
        refine ⟨[], ?_, fun done hdone => ?_⟩
        · rw [drawBackground, if_neg (by omega)]
        · rwa [List.append_nil]

/-- Effective ranges for runs of attributes: every column is in one, and what it answers with
has been set for the column. -/
structure Blocks (runs : List (Run α)) (n : Int) (blocks : List (Run α)) : Prop where
  positive : ∀ b ∈ blocks, 0 < b.length
  disjoint : blocks.Pairwise fun b b' => ∀ j, b.Covers j → ¬b'.Covers j
  covers : ∀ j, (∃ b ∈ blocks, b.Covers j) ↔ 0 ≤ j ∧ j < n
  set : ∀ b ∈ blocks, ∀ j, b.Covers j → ∃ r ∈ runs, r.Covers j ∧ r.value = b.value

variable {runs : List (Run α)}

theorem Blocks.of_reproduces (h : Reproduces R f n runs) : Blocks runs n runs :=
  ⟨h.positive, h.disjoint, h.covers, fun b hb _ hj => ⟨b, hb, hj, rfl⟩⟩

theorem Blocks.reproduces (hb : Blocks runs n blocks) (h : Reproduces R f n runs) :
    Reproduces R f n blocks := by
  refine ⟨hb.positive, hb.disjoint, hb.covers, fun b hmem j hj => ?_⟩
  obtain ⟨r, hr, hcov, hvalue⟩ := hb.set b hmem j hj
  rw [← hvalue]
  exact h.related r hr j hcov

/-- The loop draws what the runs say, whatever the effective ranges are. -/
theorem drawBackground_reproduces (hb : Blocks runs n blocks) (h : Reproduces R f n runs)
    (hn : 0 ≤ n) : ∃ fills, drawBackground blocks n.toNat 0 n = .ok fills ∧
      Reproduces R f n fills := by
  obtain ⟨fills, hok, hfills⟩ := drawBackground_from (k := n.toNat) (hb.reproduces h)
    (Int.le_refl 0) hn (.inl rfl) (by omega)
  rw [Int.sub_zero] at hok
  exact ⟨fills, hok, hfills [] .nil⟩

end Run

namespace VT100

open Run

variable {F : Foundation} {c : Config} {isEqual : UIColor → UIColor → Bool} {r : Int}

/-- Of any row that can be drawn, every column is filled once, in the background of its cell
or in the cursor's. The ranges that the attributed string answers with are any division of
its runs, and the loop ends for all of them. -/
theorem drawBackground_paints (hreach : Reachable F c)
    (heq : Equivalence fun a b => isEqual a b = true) (hr : 0 ≤ r) (hr' : r < c.2.numberOfRows)
    (hwidth : c.2.screen.width ≤ kMaxRowBufferSize) :
    ∃ str, c.2.newAttributedString isEqual r = .ok str ∧
      Blocks str.background c.2.screen.width str.background ∧
      ∀ blocks, Blocks str.background c.2.screen.width blocks →
        ∃ fills, drawBackground blocks c.2.screen.width.toNat 0 c.2.screen.width = .ok fills ∧
          Reproduces (SameColor isEqual)
            (fun j => some (c.2.screen.colorAt ScreenChar.bgColor .backgroundCursor r j))
            c.2.screen.width fills := by
  have h := (reachable_wf hreach).screen
  have hw := h.width_pos
  obtain ⟨background, foreground, hok, hbackground, -⟩ :=
    newAttributedString_eq h heq hr hr' hwidth
  exact ⟨_, hok, .of_reproduces hbackground, fun blocks hblocks =>
    drawBackground_reproduces hblocks hbackground (by omega)⟩

/-- The cursor's row of a new object, with the largest ranges. -/
theorem init_background_painted : ∃ v str fills, VT100.init ⟨0, 0, 0⟩ = .ok v ∧
    v.newAttributedString (fun a b => decide (a = b)) 0 = .ok str ∧
    drawBackground str.background 80 0 80 = .ok fills ∧
    Reproduces (SameColor fun a b => decide (a = b))
      (fun j => some (v.screen.colorAt ScreenChar.bgColor .backgroundCursor 0 j)) 80 fills := by
  obtain ⟨v, hv, -, hs⟩ := init_fresh ⟨0, 0, 0⟩
  have hreach : Reachable Foundation.latin1 (.idle, v) := .init ⟨⟨0, 0, 0⟩, v, hv, rfl⟩
  have hwidth : v.screen.width = 80 := hs.width_eq
  obtain ⟨str, hok, hblocks, hpaints⟩ := drawBackground_paints (r := 0) hreach
    decide_equivalence (Int.le_refl 0) (by
      rw [numberOfRows, hs.wf.numberOfLines_eq, hs.count_eq, hs.height_eq]
      decide) (by rw [hwidth]; decide)
  obtain ⟨fills, hdraw, hfills⟩ := hpaints str.background hblocks
  rw [hwidth] at hdraw hfills
  exact ⟨v, str, fills, hv, hok, hdraw, hfills⟩

end VT100

end MobileTerminal
