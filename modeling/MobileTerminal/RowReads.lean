import MobileTerminal.Lines
import MobileTerminal.ResizeRows

/-!
# The rows a resize reads

The copy loops of `resizeWidth:height:` read the rows of the scrollback and the
screen from the oldest one to the last that has text. One expects them to read
each row once, and no row that is not among these.

To state this, the loops are written once more with a log of the indices that
they pass to `getLineAtIndex:`. Without the log they are the loops of before
(`reflowLog_erases`), so what is proved about the log is about the code. The
indices are consecutive: an inner loop goes on to the next row as long as the
current one is marked, and does not ask how many rows there are. So the loops
stay among the rows of scrollback and screen exactly when one of the last rows
is not marked (`reads_once_iff`).

A last row that is marked looks impossible, as the mark means that its text goes
on in the next row. But scrolling down moves rows together with their marks, and
a row that was followed by its continuation can so come to stand last.

Two more cases belong to the statement. At the width it has already, the screen
is copied row by row and the marks are not looked at. And a resize may stop on
an assertion before it comes to the copy loops.
-/

namespace MobileTerminal

open Wrap

/-- `n` consecutive rows from `y` on. -/
def rowsFrom (y : Int) : Nat → List Int
  | 0 => []
  | n + 1 => y :: rowsFrom (y + 1) n

theorem mem_rowsFrom {i y : Int} {n : Nat} : i ∈ rowsFrom y n ↔ y ≤ i ∧ i < y + n := by
  induction n generalizing y with
  | zero =>
      rw [rowsFrom]
      simp only [List.not_mem_nil, false_iff]
      omega
  | succ n ih =>
      rw [rowsFrom, List.mem_cons, ih]
      omega

theorem rowsFrom_nodup (y : Int) (n : Nat) : (rowsFrom y n).Nodup := by
  induction n generalizing y with
  | zero => exact List.nodup_nil
  | succ n ih =>
      refine List.nodup_cons.mpr ⟨fun hmem => ?_, ih (y + 1)⟩
      have := (mem_rowsFrom.mp hmem).1
      omega

theorem rowsFrom_append (y : Int) (m n : Nat) :
    rowsFrom y m ++ rowsFrom (y + m) n = rowsFrom y (m + n) := by
  induction m generalizing y with
  | zero => simp [rowsFrom]
  | succ m ih =>
      rw [Nat.succ_add, rowsFrom, rowsFrom, List.cons_append, ← ih (y + 1)]
      congr 3
      omega

namespace Screen

variable {t : Terminal} {s : Screen} {r r' : Reflow} {newTotalHeight width y1 y' c1 x1 x2 x2' : Int}
  {defaultLine : Block ScreenChar} {fuel : Nat} {reads : List Int}

/-! ## The loops with a log

Each loop of the source once more, with the indices that it passes to
`getLineAtIndex:` as a second result, in the order of the calls. -/

/-- `widerRows` and the rows it reads. -/
def widerRowsLog (s : Screen) (newTotalHeight width : Int) :
    Nat → Int → Int → Reflow → Int → Res ((Reflow × Int × Int) × List Int)
  | 0, _, _, _, _ => .error .diverges
  | fuel + 1, y1, c1, r, x2 => do
      let mark ← s.bufferLines.load (c1 + s.width)
      if mark.ch ≠ 0 then do
        let c1 ← s.getLineAtIndex (y1 + 1)
        let (r, x2) ← copyWider s newTotalHeight width c1 s.width.toNat 0 r x2
        let (res, reads) ← widerRowsLog s newTotalHeight width fuel (y1 + 1) c1 r x2
        .ok (res, (y1 + 1) :: reads)
      else .ok ((r, y1, x2), [])

/-- `narrowerRows` and the rows it reads. -/
def narrowerRowsLog (s : Screen) (newTotalHeight width : Int) :
    Nat → Int → Int → Int → Reflow → Int → Res ((Reflow × Int × Int) × List Int)
  | 0, _, _, _, _, _ => .error .diverges
  | fuel + 1, y1, c1, x1, r, x2 => do
      let (r, x2) ← copyNarrower s newTotalHeight width c1 (s.width - x1).toNat x1 r x2
      let mark ← s.bufferLines.load (c1 + s.width)
      if mark.ch ≠ 0 then do
        let c1 ← s.getLineAtIndex (y1 + 1)
        let (res, reads) ← narrowerRowsLog s newTotalHeight width fuel (y1 + 1) c1 0 r x2
        .ok (res, (y1 + 1) :: reads)
      else .ok ((r, y1, x2), [])

/-- `copyLineWider` and the rows it reads. -/
def copyLineWiderLog (s : Screen) (newTotalHeight width : Int) (defaultLine : Block ScreenChar)
    (fuel : Nat) (y1 c1 : Int) (r : Reflow) : Res ((Reflow × Int) × List Int) := do
  let r ← r.copyFrom s.bufferLines c1 s.width
  let r ← r.setMark width 0
  let ((r, y1, x2), reads) ← widerRowsLog s newTotalHeight width fuel y1 c1 r s.width
  let r ← r.padRow width x2 defaultLine
  .ok ((r, y1), reads)

/-- `copyLineNarrower` and the rows it reads. -/
def copyLineNarrowerLog (s : Screen) (newTotalHeight width : Int) (defaultLine : Block ScreenChar)
    (fuel : Nat) (y1 c1 : Int) (r : Reflow) : Res ((Reflow × Int) × List Int) := do
  let r ← r.copyFrom s.bufferLines c1 width
  let r ← r.setMark width 0
  let ((r, y1, x2), reads) ← narrowerRowsLog s newTotalHeight width fuel y1 c1 width r width
  let r ← r.padRow width x2 defaultLine
  .ok ((r, y1), reads)

/-- `copyLogicalLine` and the rows it reads. -/
def copyLogicalLineLog (s : Screen) (newTotalHeight width : Int) (defaultLine : Block ScreenChar)
    (fuel : Nat) (y1 : Int) (r : Reflow) : Res ((Reflow × Int) × List Int) := do
  let c1 ← s.getLineAtIndex y1
  let ((r, y'), reads) ← (if s.width = width then do
      let r ← r.copyFrom s.bufferLines c1 s.realWidth
      .ok ((r, y1), [])
    else if s.width < width then s.copyLineWiderLog newTotalHeight width defaultLine fuel y1 c1 r
    else s.copyLineNarrowerLog newTotalHeight width defaultLine fuel y1 c1 r)
  .ok ((r.nextRow newTotalHeight width, y'), y1 :: reads)

/-- `copyRows` and the rows it reads. -/
def copyRowsLog (s : Screen) (newTotalHeight width : Int) (defaultLine : Block ScreenChar)
    (fuel : Nat) : Nat → Int → Reflow → Res (Reflow × List Int)
  | 0, _, _ => .error .diverges
  | k + 1, y1, r =>
      if y1 < s.currentScrollbackLines + s.height then do
        let ((r, y1), reads) ← copyLogicalLineLog s newTotalHeight width defaultLine fuel y1 r
        let (r, reads') ← copyRowsLog s newTotalHeight width defaultLine fuel k (y1 + 1) r
        .ok (r, reads ++ reads')
      else .ok (r, [])

/-- `reflow` and the rows it reads. -/
def reflowLog (s : Screen) (newTotalHeight width : Int) (defaultLine : Block ScreenChar)
    (fuel : Nat) : Res (Reflow × List Int) :=
  copyRowsLog s newTotalHeight width defaultLine fuel
    ((s.currentScrollbackLines + s.height).toNat + 1) 0
    { bl := Block.alloc (newTotalHeight * (width + 1)) s.fresh
      c2 := 0, newScrollbackTop := 0, y2 := 0, wrapped := false }

/-- Without its log, `x` is `y`. -/
def Erases {α : Type} (x : Res (α × List Int)) (y : Res α) : Prop :=
  ExceptRel (fun p a => p.1 = a) x y

theorem Erases.log {α : Type} {x : Res (α × List Int)} {y : Res α} (h : Erases x y)
    (f : List Int → List Int) :
    Erases (do
      let (a, reads) ← x
      .ok (a, f reads)) y := by
  cases x with
  | error e => exact h
  | ok p =>
      cases y with
      | error e => exact h.elim
      | ok a => exact h

theorem widerRowsLog_erases : Erases (widerRowsLog s newTotalHeight width fuel y1 c1 r x2)
    (widerRows s newTotalHeight width fuel y1 c1 r x2) := by
  induction fuel generalizing y1 c1 r x2 with
  | zero => exact .error _
  | succ fuel ih =>
      refine .bind_same _ fun mark => ?_
      split
      · exact .bind_same _ fun c1 => .bind_same _ fun p => ih.log _
      · exact .ok rfl

theorem narrowerRowsLog_erases : Erases (narrowerRowsLog s newTotalHeight width fuel y1 c1 x1 r x2)
    (narrowerRows s newTotalHeight width fuel y1 c1 x1 r x2) := by
  induction fuel generalizing y1 c1 x1 r x2 with
  | zero => exact .error _
  | succ fuel ih =>
      refine .bind_same _ fun p => .bind_same _ fun mark => ?_
      split
      · exact .bind_same _ fun c1 => ih.log _
      · exact .ok rfl

theorem copyLineWiderLog_erases :
    Erases (copyLineWiderLog s newTotalHeight width defaultLine fuel y1 c1 r)
      (copyLineWider s newTotalHeight width defaultLine fuel y1 c1 r) := by
  refine .bind_same _ fun r => .bind_same _ fun r => .bind widerRowsLog_erases ?_
  rintro ⟨_, reads⟩ ⟨r, y, x⟩ rfl
  exact .bind_same _ fun r => .ok rfl

theorem copyLineNarrowerLog_erases :
    Erases (copyLineNarrowerLog s newTotalHeight width defaultLine fuel y1 c1 r)
      (copyLineNarrower s newTotalHeight width defaultLine fuel y1 c1 r) := by
  refine .bind_same _ fun r => .bind_same _ fun r => .bind narrowerRowsLog_erases ?_
  rintro ⟨_, reads⟩ ⟨r, y, x⟩ rfl
  exact .bind_same _ fun r => .ok rfl

theorem copyLogicalLineLog_erases :
    Erases (copyLogicalLineLog s newTotalHeight width defaultLine fuel y1 r)
      (copyLogicalLine s newTotalHeight width defaultLine fuel y1 r) := by
  refine .bind_same _ fun c1 => .bind (R := fun p a => p.1 = a) ?_ ?_
  · split
    · exact .bind_same _ fun r => .ok rfl
    · split
      · exact copyLineWiderLog_erases
      · exact copyLineNarrowerLog_erases
  · rintro ⟨_, reads⟩ ⟨r, y⟩ rfl
    exact .ok rfl

theorem copyRowsLog_erases {k : Nat} :
    Erases (copyRowsLog s newTotalHeight width defaultLine fuel k y1 r)
      (copyRows s newTotalHeight width defaultLine fuel k y1 r) := by
  induction k generalizing y1 r with
  | zero => exact .error _
  | succ k ih =>
      simp only [copyRowsLog, copyRows]
      split
      · refine .bind copyLogicalLineLog_erases ?_
        rintro ⟨_, reads⟩ ⟨r, y⟩ rfl
        exact ih.log _
      · exact .ok rfl

/-- The copy loops with a log are the copy loops. -/
theorem reflowLog_erases : Erases (reflowLog s newTotalHeight width defaultLine fuel)
    (reflow s newTotalHeight width defaultLine fuel) := copyRowsLog_erases

/-! ## The rows that are read -/

/-- The text of row `i` goes on in the next one. -/
def MarkedAt (s : Screen) (i : Int) : Prop := (s.cellAt i s.width).ch ≠ 0

theorem getLineAtIndex_ok (hmax : s.maxScrollbackLines ≠ 0)
    (hok : s.getLineAtIndex y1 = .ok c1) : c1 = s.lineFrom y1 s.scrollbackTop := by
  obtain ⟨-, -, hok⟩ := bind_eq_ok.mp hok
  obtain ⟨-, -, hok⟩ := bind_eq_ok.mp hok
  rw [if_neg hmax] at hok
  exact (Except.ok.inj hok).symm

/-- From row `y1` on the marks have been followed to row `y'`. -/
structure FollowsMarks (s : Screen) (y1 y' : Int) (reads : List Int) : Prop where
  le : y1 ≤ y'
  reads_eq : reads = rowsFrom (y1 + 1) (y' - y1).toNat
  marked : ∀ i, y1 ≤ i → i < y' → s.MarkedAt i
  unmarked : ¬s.MarkedAt y'

theorem FollowsMarks.stop (h : ¬s.MarkedAt y1) : FollowsMarks s y1 y1 [] := by
  refine ⟨Int.le_refl _, ?_, fun i hi hi' => by omega, h⟩
  rw [Int.sub_self]
  rfl

theorem FollowsMarks.cons (hmark : s.MarkedAt y1) (h : FollowsMarks s (y1 + 1) y' reads) :
    FollowsMarks s y1 y' ((y1 + 1) :: reads) := by
  have hle := h.le
  refine ⟨by omega, ?_, fun i hi hi' => ?_, h.unmarked⟩
  · rw [h.reads_eq, show (y' - y1).toNat = (y' - (y1 + 1)).toNat + 1 by omega]
    rfl
  · rcases Int.lt_or_eq_of_le hi with hlt | rfl
    · exact h.marked i (by omega) hi'
    · exact hmark

theorem widerRowsLog_follows (hmax : s.maxScrollbackLines ≠ 0)
    (hc : c1 = s.lineFrom y1 s.scrollbackTop)
    (hok : widerRowsLog s newTotalHeight width fuel y1 c1 r x2 = .ok ((r', y', x2'), reads)) :
    FollowsMarks s y1 y' reads := by
  induction fuel generalizing y1 c1 r x2 reads with
  | zero => cases hok
  | succ fuel ih =>
      obtain ⟨mark, hload, hok⟩ := bind_eq_ok.mp hok
      obtain ⟨-, rfl⟩ := Block.load_eq_ok.mp hload
      rw [hc] at hok
      split at hok
      · rename_i hmark
        obtain ⟨c2, hline, hok⟩ := bind_eq_ok.mp hok
        obtain ⟨⟨r₁, x₁⟩, -, hok⟩ := bind_eq_ok.mp hok
        obtain ⟨⟨res, reads'⟩, hrest, hok⟩ := bind_eq_ok.mp hok
        obtain ⟨rfl, rfl⟩ := Prod.mk.inj (Except.ok.inj hok)
        exact .cons hmark (ih (getLineAtIndex_ok hmax hline) hrest)
      · rename_i hmark
        simp only [Except.ok.injEq, Prod.mk.injEq] at hok
        obtain ⟨⟨-, rfl, -⟩, rfl⟩ := hok
        exact .stop hmark

theorem narrowerRowsLog_follows (hmax : s.maxScrollbackLines ≠ 0)
    (hc : c1 = s.lineFrom y1 s.scrollbackTop)
    (hok : narrowerRowsLog s newTotalHeight width fuel y1 c1 x1 r x2 =
      .ok ((r', y', x2'), reads)) : FollowsMarks s y1 y' reads := by
  induction fuel generalizing y1 c1 x1 r x2 reads with
  | zero => cases hok
  | succ fuel ih =>
      obtain ⟨⟨r₁, x₁⟩, -, hok⟩ := bind_eq_ok.mp hok
      obtain ⟨mark, hload, hok⟩ := bind_eq_ok.mp hok
      obtain ⟨-, rfl⟩ := Block.load_eq_ok.mp hload
      rw [hc] at hok
      split at hok
      · rename_i hmark
        obtain ⟨c2, hline, hok⟩ := bind_eq_ok.mp hok
        obtain ⟨⟨res, reads'⟩, hrest, hok⟩ := bind_eq_ok.mp hok
        obtain ⟨rfl, rfl⟩ := Prod.mk.inj (Except.ok.inj hok)
        exact .cons hmark (ih (getLineAtIndex_ok hmax hline) hrest)
      · rename_i hmark
        simp only [Except.ok.injEq, Prod.mk.injEq] at hok
        obtain ⟨⟨-, rfl, -⟩, rfl⟩ := hok
        exact .stop hmark

/-- One round of the outer loop at another width reads a row and those its marks lead to. -/
theorem copyLogicalLineLog_follows (hmax : s.maxScrollbackLines ≠ 0) (hne : s.width ≠ width)
    (hok : copyLogicalLineLog s newTotalHeight width defaultLine fuel y1 r =
      .ok ((r', y'), reads)) :
    ∃ reads', reads = y1 :: reads' ∧ FollowsMarks s y1 y' reads' := by
  obtain ⟨c1, hline, hok⟩ := bind_eq_ok.mp hok
  have hc := getLineAtIndex_ok hmax hline
  obtain ⟨⟨⟨r₁, y₁⟩, reads'⟩, hbranch, hok⟩ := bind_eq_ok.mp hok
  simp only [Except.ok.injEq, Prod.mk.injEq] at hok
  obtain ⟨⟨-, rfl⟩, rfl⟩ := hok
  refine ⟨reads', rfl, ?_⟩
  rw [if_neg hne] at hbranch
  split at hbranch
  · obtain ⟨r₂, -, hbranch⟩ := bind_eq_ok.mp hbranch
    obtain ⟨r₃, -, hbranch⟩ := bind_eq_ok.mp hbranch
    obtain ⟨⟨⟨r₄, y₄, x₄⟩, reads₄⟩, hrows, hbranch⟩ := bind_eq_ok.mp hbranch
    obtain ⟨r₅, -, hbranch⟩ := bind_eq_ok.mp hbranch
    simp only [Except.ok.injEq, Prod.mk.injEq] at hbranch
    obtain ⟨⟨-, rfl⟩, rfl⟩ := hbranch
    exact widerRowsLog_follows hmax hc hrows
  · obtain ⟨r₂, -, hbranch⟩ := bind_eq_ok.mp hbranch
    obtain ⟨r₃, -, hbranch⟩ := bind_eq_ok.mp hbranch
    obtain ⟨⟨⟨r₄, y₄, x₄⟩, reads₄⟩, hrows, hbranch⟩ := bind_eq_ok.mp hbranch
    obtain ⟨r₅, -, hbranch⟩ := bind_eq_ok.mp hbranch
    simp only [Except.ok.injEq, Prod.mk.injEq] at hbranch
    obtain ⟨⟨-, rfl⟩, rfl⟩ := hbranch
    exact narrowerRowsLog_follows hmax hc hrows

/-- The outer loop, from row `y1` on, has read the rows up to row `e`: it stops at the first row
that is not marked, from the last of its `n` rows on. -/
structure ReadsRows (s : Screen) (n y1 e : Int) (reads : List Int) : Prop where
  le : y1 ≤ e
  reads_eq : reads = rowsFrom y1 (e - y1).toNat
  enough : n ≤ e
  none : n ≤ y1 → e = y1
  ends : y1 < e → ¬s.MarkedAt (e - 1)
  goesOn : ∀ i, y1 ≤ i → n ≤ i + 1 → i + 1 < e → s.MarkedAt i

theorem ReadsRows.line {n e : Int} {reads' : List Int} (hlt : y1 < n)
    (hline : FollowsMarks s y1 y' reads) (h : ReadsRows s n (y' + 1) e reads') :
    ReadsRows s n y1 e ((y1 :: reads) ++ reads') := by
  have hle := hline.le
  have hle' := h.le
  refine ⟨by omega, ?_, h.enough, fun hn => by omega, fun _ => ?_, fun i hi hn hi' => ?_⟩
  · have hhead : y1 :: reads = rowsFrom y1 ((y' - y1).toNat + 1) := by
      rw [hline.reads_eq]
      rfl
    have happend := rowsFrom_append y1 ((y' - y1).toNat + 1) (e - (y' + 1)).toNat
    rw [show y1 + (((y' - y1).toNat + 1 : Nat) : Int) = y' + 1 by omega] at happend
    rw [hhead, h.reads_eq, happend]
    congr 1
    omega
  · rcases Int.lt_or_eq_of_le hle' with hmore | rfl
    · exact h.ends hmore
    · rw [Int.add_sub_cancel]
      exact hline.unmarked
  · rcases Int.lt_trichotomy i y' with hbefore | rfl | hafter
    · exact hline.marked i hi hbefore
    · have hnone := h.none hn
      omega
    · exact h.goesOn i (by omega) hn hi'

theorem copyRowsLog_reads {k : Nat} (hmax : s.maxScrollbackLines ≠ 0) (hne : s.width ≠ width)
    (hok : copyRowsLog s newTotalHeight width defaultLine fuel k y1 r = .ok (r', reads)) :
    ∃ e, ReadsRows s (s.currentScrollbackLines + s.height) y1 e reads := by
  induction k generalizing y1 r reads with
  | zero => cases hok
  | succ k ih =>
      simp only [copyRowsLog] at hok
      split at hok
      · rename_i hlt
        obtain ⟨⟨⟨r₁, y₁⟩, reads₁⟩, hline, hok⟩ := bind_eq_ok.mp hok
        obtain ⟨⟨r₂, reads₂⟩, hrest, hok⟩ := bind_eq_ok.mp hok
        simp only [Except.ok.injEq, Prod.mk.injEq] at hok
        obtain ⟨rfl, rfl⟩ := hok
        obtain ⟨reads', rfl, hfollows⟩ := copyLogicalLineLog_follows hmax hne hline
        obtain ⟨e, hreads⟩ := ih hrest
        exact ⟨e, .line hlt hfollows hreads⟩
      · rename_i hge
        simp only [Except.ok.injEq, Prod.mk.injEq] at hok
        obtain ⟨-, rfl⟩ := hok
        refine ⟨y1, Int.le_refl _, ?_, by omega, fun _ => rfl, fun hlt => by omega,
          fun i hi _ hi' => by omega⟩
        rw [Int.sub_self]
        rfl

/-- At the same width every row is read by itself. -/
theorem copyRowsLog_same {k : Nat}
    (hok : copyRowsLog s newTotalHeight s.width defaultLine fuel k y1 r = .ok (r', reads)) :
    reads = rowsFrom y1 (s.currentScrollbackLines + s.height - y1).toNat := by
  induction k generalizing y1 r reads with
  | zero => cases hok
  | succ k ih =>
      simp only [copyRowsLog] at hok
      split at hok
      · rename_i hlt
        obtain ⟨⟨⟨r₁, y₁⟩, reads₁⟩, hline, hok⟩ := bind_eq_ok.mp hok
        obtain ⟨⟨r₂, reads₂⟩, hrest, hok⟩ := bind_eq_ok.mp hok
        simp only [Except.ok.injEq, Prod.mk.injEq] at hok
        obtain ⟨rfl, rfl⟩ := hok
        obtain ⟨c1, -, hline⟩ := bind_eq_ok.mp hline
        rw [if_pos rfl] at hline
        obtain ⟨⟨⟨r₃, y₃⟩, reads₃⟩, hbranch, hline⟩ := bind_eq_ok.mp hline
        obtain ⟨r₄, -, hbranch⟩ := bind_eq_ok.mp hbranch
        simp only [Except.ok.injEq, Prod.mk.injEq] at hline hbranch
        obtain ⟨⟨-, rfl⟩, rfl⟩ := hbranch
        obtain ⟨⟨-, rfl⟩, rfl⟩ := hline
        rw [ih hrest, show (s.currentScrollbackLines + s.height - y1).toNat =
          (s.currentScrollbackLines + s.height - (y1 + 1)).toNat + 1 by omega]
        rfl
      · rename_i hge
        simp only [Except.ok.injEq, Prod.mk.injEq] at hok
        obtain ⟨-, rfl⟩ := hok
        rw [show (s.currentScrollbackLines + s.height - y1).toNat = 0 by omega]
        rfl

/-! ## Where the copy loops stop -/

/-- The rows of the screen down to the cursor's or to the last one with text. -/
def textHeight (s : Screen) : Int :=
  max (min (s.cursorY + 1) s.height) (s.textRows s.height.toNat)

/-- The resize stops on an assertion before the copy loops: the cursor is far above the screen,
and no row has text. -/
def StuckAbove (s : Screen) : Prop := s.cursorY < -1 ∧ s.textRows s.height.toNat = 0

theorem Wf.textHeight_range (hwf : s.Wf) :
    0 ≤ s.textHeight ∧ s.textHeight ≤ s.height := by
  have hh := hwf.height_pos
  have hle := s.textRows_le s.height.toNat
  unfold textHeight
  omega

theorem Wf.trimHeight_textHeight (hwf : s.Wf) {trimmed : Int} :
    s.trimHeight (s.height - (s.cursorY + 1)).toNat s.height = .ok trimmed ↔
      ¬s.StuckAbove ∧ trimmed = s.textHeight := by
  have hh := hwf.height_pos
  have heq := trimHeight_eq hwf (s.height - (s.cursorY + 1)).toNat (m := s.height.toNat) (by omega)
  rw [Int.toNat_of_nonneg (by omega)] at heq
  unfold StuckAbove textHeight
  rw [heq]
  split
  · constructor
    · nofun
    · intro h
      omega
  · rw [Except.ok.injEq]
    omega

theorem Wf.marked_iff (hwf : s.Wf) {i : Nat} (hi : i < s.rows.length) :
    marked ScreenChar.isNul s.rows[i] = true ↔ s.MarkedAt i := by
  have hw := hwf.width_pos
  rw [(hwf.line hi).marked_eq, MarkedAt, hwf.cellAt_eq, Int.toNat_of_nonneg (by omega)]
  simp [ScreenChar.isNul]

theorem Wf.closed_take_iff (hwf : s.Wf) {m : Nat} (hm : m ≤ s.rows.length) :
    Closed ScreenChar.isNul (s.rows.take m) ↔ (0 < m → ¬s.MarkedAt (m - 1)) := by
  cases m with
  | zero => simp [Closed]
  | succ m =>
      have hlast : (s.rows.take (m + 1)).getLast? = some s.rows[m] := by
        rw [List.take_add_one, List.getElem?_eq_getElem hm]
        exact List.getLast?_concat
      have hmark := hwf.marked_iff (i := m) hm
      rw [Closed, hlast, Int.natCast_succ, Int.add_sub_cancel, ← hmark]
      simp

/-- The copy loops read rows of scrollback and screen only, and none of them twice. -/
def ReadsOnce (t : Terminal) (width height : Int) (s : Screen) : Prop :=
  ∀ trimmed, ¬(width = s.width ∧ height = s.height) →
    s.trimHeight (s.height - (s.cursorY + 1)).toNat s.height = .ok trimmed →
    let defaultLine := getDefaultLineWithWidth t width { s with height := trimmed }
    ∃ r reads, defaultLine.1.reflowLog (s.maxScrollbackLines + height) width defaultLine.2
        s.rowFuel = .ok (r, reads) ∧
      (∀ i ∈ reads, 0 ≤ i ∧ i < s.currentScrollbackLines + s.height) ∧ reads.Nodup

/-- A logical line ends with one of the rows from the last that is copied on. -/
def EndsInTime (s : Screen) : Prop :=
  ∃ m : Nat, s.currentScrollbackLines + s.textHeight ≤ m ∧ m ≤ s.rows.length ∧
    Closed ScreenChar.isNul (s.rows.take m)

theorem reads_range {e lines : Int} (he : e ≤ lines) (hreads : reads = rowsFrom 0 e.toNat) :
    (∀ i ∈ reads, 0 ≤ i ∧ i < lines) ∧ reads.Nodup := by
  rw [hreads]
  refine ⟨fun i hi => ?_, rowsFrom_nodup _ _⟩
  have := mem_rowsFrom.mp hi
  omega

theorem Erases.ok {α : Type} {x : Res (α × List Int)} {y : Res α} {a : α} (h : Erases x y)
    (hy : y = .ok a) : ∃ reads, x = .ok (a, reads) := by
  subst hy
  cases x with
  | error e => exact h.elim
  | ok p => exact ⟨p.2, by rw [← show p.1 = a from h]⟩

theorem Source.take {W : Nat} {rows : List (List ScreenChar)} (h : Source s W rows) (m : Nat) :
    Source s W (rows.take m) := by
  intro i hi
  rw [List.length_take] at hi
  obtain ⟨a, ha, hline⟩ := h i (by omega)
  rw [List.getElem_take]
  exact ⟨a, ha, hline⟩

section

variable {s₀ : Screen} {w h : Nat}

/-- The copy loops complete when a logical line ends in time. -/
theorem reflow_completes (hwf : s.Wf) {line : Block ScreenChar} {trimmed : Int} (hw : 0 < w)
    (hdl : getDefaultLineWithWidth t w { s with height := trimmed } = (s₀, line))
    (hends : s.width = w ∨ ∃ m : Nat, s.currentScrollbackLines + trimmed ≤ m ∧
      m ≤ s.rows.length ∧ Closed ScreenChar.isNul (s.rows.take m))
    (htrim : 0 ≤ trimmed ∧ trimmed ≤ s.height) :
    ∃ r, s₀.reflow (s.maxScrollbackLines + h) w line s.rowFuel = .ok r := by
  have hW := hwf.width_pos
  have hmax := hwf.max_pos
  have hc := hwf.count_range
  have hlen := hwf.rows_length_eq
  obtain ⟨hsize, hnul⟩ := getDefaultLine_ok (s := { s with height := trimmed }) hwf.default
    t.foregroundColorCode t.backgroundColorCode w
  rw [show getDefaultLine t.foregroundColorCode t.backgroundColorCode (w : Int)
    { s with height := trimmed } = (s₀, line) from hdl] at hsize hnul
  obtain ⟨hsrc, hrows, -, -, -⟩ := hwf.copySource t w trimmed hdl
  obtain ⟨n, hn⟩ : ∃ n : Nat, s.currentScrollbackLines + trimmed = n :=
    ⟨(s.currentScrollbackLines + trimmed).toNat, by omega⟩
  have hstart := reflow_start_filled (w := w) (T := s.maxScrollbackLines + h) (by omega) s₀.fresh
  by_cases hsame : s.width = w
  · rw [show s.width.toNat = w by omega] at hsrc
    obtain ⟨r, hok, -⟩ := copyRows_same line s.rowFuel 0 hsrc
      (k := (s₀.currentScrollbackLines + s₀.height).toNat + 1) (hrows.trans hn) (by omega) (by omega)
      hstart
    exact ⟨r, hok⟩
  · obtain ⟨m, hle, hm, hclosed⟩ := hends.resolve_left hsame
    have htake : (s.rows.take m).length = m := by
      rw [List.length_take]
      omega
    have hfuel : (s.rows.take m).length ≤ s.rowFuel := by
      have hT : s.totalHeight = s.maxScrollbackLines + s.height := rfl
      unfold rowFuel
      omega
    obtain ⟨r, new, hok, -⟩ := copyRows_rewraps 0 (hsrc.take m) (by omega) hw (by omega) hsize hnul
      hclosed hfuel (k := (s₀.currentScrollbackLines + s₀.height).toNat + 1) (hrows.trans hn)
      (by omega) (by omega) hstart
    exact ⟨r, hok⟩

/-- The rows that completed copy loops have read at another width. -/
theorem reflowLog_reads (hwf : s.Wf) {line : Block ScreenChar} {trimmed : Int}
    (hdl : getDefaultLineWithWidth t w { s with height := trimmed } = (s₀, line))
    (hne : s.width ≠ w)
    (hok : s₀.reflowLog (s.maxScrollbackLines + h) w line s.rowFuel = .ok (r, reads)) :
    ∃ e, ReadsRows s (s.currentScrollbackLines + trimmed) 0 e reads := by
  have hmax := hwf.max_pos
  obtain ⟨-, hrows, hmax₀, hwidth₀, hcells₀⟩ := hwf.copySource t w trimmed hdl
  obtain ⟨e, hreads⟩ := copyRowsLog_reads (by omega) (by omega) hok
  have hmark : ∀ i, s₀.MarkedAt i ↔ s.MarkedAt i := by
    intro i
    rw [MarkedAt, MarkedAt, hcells₀, hwidth₀]
  rw [hrows] at hreads
  obtain ⟨hle, heq, henough, hnone, hend, hgoes⟩ := hreads
  simp only [hmark] at hend hgoes
  exact ⟨e, hle, heq, henough, hnone, hend, hgoes⟩

/-- When all rows read are rows of scrollback and screen, the last of them ends a line. -/
theorem ReadsOnce.endsInTime (hwf : s.Wf) (hne : s.width ≠ w) (hstuck : ¬s.StuckAbove)
    (hreads : ReadsOnce t w h s) : s.EndsInTime := by
  have hlen := hwf.rows_length_eq
  obtain ⟨r, reads, hok, hrange, -⟩ := hreads s.textHeight (fun hsame => hne hsame.1.symm)
    (hwf.trimHeight_textHeight.mpr ⟨hstuck, rfl⟩)
  generalize hdl : getDefaultLineWithWidth t (w : Int) { s with height := s.textHeight } = dl at hok
  obtain ⟨s₀, line⟩ := dl
  obtain ⟨e, hread⟩ := reflowLog_reads hwf hdl hne hok
  have hle := hread.le
  have hbound : e ≤ s.currentScrollbackLines + s.height := by
    rcases Int.lt_or_eq_of_le hle with hpos | hzero
    · have hlast : e - 1 ∈ reads := by
        rw [hread.reads_eq]
        exact mem_rowsFrom.mpr ⟨by omega, by omega⟩
      have := (hrange _ hlast).2
      omega
    · have hc := hwf.count_range
      have hh := hwf.height_pos
      omega
  refine ⟨e.toNat, ?_, by omega, (hwf.closed_take_iff (by omega)).mpr fun hpos => ?_⟩
  · rw [Int.toNat_of_nonneg hle]
    exact hread.enough
  · rw [Int.toNat_of_nonneg hle]
    exact hread.ends (by omega)

theorem readsOnce_of_endsInTime (hwf : s.Wf) (hw : 0 < w) (hends : s.width = w ∨ s.EndsInTime) :
    ReadsOnce t w h s := by
  intro trimmed hne htrim
  obtain ⟨-, rfl⟩ := hwf.trimHeight_textHeight.mp htrim
  have hrange := hwf.textHeight_range
  have hlen := hwf.rows_length_eq
  have hc := hwf.count_range
  generalize hdl : getDefaultLineWithWidth t (w : Int) { s with height := s.textHeight } = dl
  obtain ⟨s₀, line⟩ := dl
  obtain ⟨r, hok⟩ := reflow_completes (h := h) hwf hw hdl hends hrange
  obtain ⟨reads, hlog⟩ := reflowLog_erases.ok hok
  refine ⟨r, reads, hlog, ?_⟩
  by_cases hsame : s.width = w
  · obtain ⟨-, hrows, -, hwidth₀, -⟩ := hwf.copySource t w s.textHeight hdl
    rw [← hsame, ← hwidth₀] at hlog
    have heq := copyRowsLog_same hlog
    rw [hrows, Int.sub_zero] at heq
    exact reads_range (by omega) heq
  · obtain ⟨e, hread⟩ := reflowLog_reads hwf hdl hsame hlog
    obtain ⟨m, hle, hm, hclosed⟩ := hends.resolve_left hsame
    rw [hwf.closed_take_iff hm] at hclosed
    -- the loops do not go past the end of a line behind their last row
    have hem : e ≤ m := by
      by_contra hgt
      rcases Nat.eq_zero_or_pos m with rfl | hpos
      · have := hread.none (by omega)
        omega
      · exact hclosed hpos (hread.goesOn (m - 1) (by omega) (by omega) (by omega))
    refine reads_range (e := e) (by omega) ?_
    rw [hread.reads_eq, Int.sub_zero]

end

/-- The copy loops read each row of scrollback and screen at most once, and no other, exactly
when the width stays, or one of the rows from the last that is copied on is not marked. -/
theorem reads_once_iff {F : Foundation} {c : VT100.Config} (hr : VT100.Reachable F c) (t : Terminal)
    {w h : Nat} (hw : 1 ≤ w) :
    ReadsOnce t w h c.2.screen ↔
      c.2.screen.width = w ∨ c.2.screen.StuckAbove ∨ c.2.screen.EndsInTime := by
  have hwf := (VT100.reachable_wf hr).screen
  constructor
  · intro hreads
    by_cases hsame : c.2.screen.width = w
    · exact .inl hsame
    · by_cases hstuck : c.2.screen.StuckAbove
      · exact .inr (.inl hstuck)
      · exact .inr (.inr (hreads.endsInTime hwf hsame hstuck))
  · rintro (hsame | hstuck | hends)
    · exact readsOnce_of_endsInTime hwf hw (.inl hsame)
    · intro trimmed _ htrim
      exact absurd hstuck (hwf.trimHeight_textHeight.mp htrim).1
    · exact readsOnce_of_endsInTime hwf hw (.inr hends)

/-- With two rows of text on a new object no row is marked. -/
theorem text_reads_once : ∃ v v', VT100.init ⟨0, 0, 0⟩ = .ok v ∧
    v.readInputStream Foundation.latin1 VT100.textBytes = .ok v' ∧
    ReadsOnce v'.terminal 132 25 v'.screen := by
  obtain ⟨v, v', first, row, hv, hok, -, -, hs, -⟩ :=
    VT100.init_text Foundation.latin1_asciiExact ⟨0, 0, 0⟩
  have hrange := hs.wf.textHeight_range
  have hlen := hs.wf.rows_length_eq
  refine ⟨v, v', hv, hok, (reads_once_iff (F := Foundation.latin1) (h := 25)
    ((VT100.init_reachable hv).readInputStream hok) v'.terminal (show 1 ≤ 132 by decide)).mpr
      (.inr (.inr ⟨v'.screen.rows.length, ?_, Nat.le_refl _, ?_⟩))⟩
  · change v'.screen.currentScrollbackLines + v'.screen.textHeight ≤ v'.screen.rows.length
    omega
  · rw [List.take_length]
    exact hs.closed (by rw [List.length_singleton]; decide)

/-- `ESC [ 2 4 T` -/
def downBytes : List UInt8 := [0x1b, 0x5b, 0x32, 0x34, 0x54]

theorem down_token : ∃ tok : VT100TCC,
    (∀ t s, decodeControl t downBytes s = .ok (tok, 5, s)) ∧ tok.type = .sd ∧
      tok.csi.p.cell 0 = (24 : Nat) := by
  refine ⟨_, fun _ _ => rfl, rfl, ?_⟩
  simp [CSIParam.addNumber, cint, Block.set, Block.alloc, csiParamMax, CSIParam.zero]

/-- Scrolling down takes the first row of the screen along, with its mark. -/
theorem scrollDown_loop (h : s.Wf) (t : Terminal) (hm : s.FullMargins)
    (hfront : s.topLine < s.totalHeight) {n : Nat} (hn : (n : Int) < s.height) :
    ∃ s', forUp (fun _ s => s.scrollDown t) 0 n s = .ok s' ∧ Draws s s' ∧
      ∀ x, 0 ≤ x → x ≤ s.width → s'.visibleCell n x = s.visibleCell 0 x := by
  have hloop := forUp_total 0 n (f := fun _ s => s.scrollDown t)
    (P := fun i s' => Draws s s' ∧
      ∀ x, 0 ≤ x → x ≤ s.width → s'.visibleCell i x = s.visibleCell 0 x)
    (s := s) ?_ ⟨.refl s, fun _ _ _ => rfl⟩
  · obtain ⟨s', hok, hd, hcells⟩ := hloop
    rw [Int.zero_add] at hcells
    exact ⟨s', hok, hd, hcells⟩
  · rintro i s₁ hi hi' ⟨hd, hcells⟩
    have hmargins := hd.margins_eq
    have hbounds := hm
    unfold FullMargins at hbounds
    obtain ⟨s₂, hok, hdown⟩ := scrollDown_spec (hd.wf h) t (by omega)
      (by rw [RegionInFront, hd.topLine_eq, hd.totalHeight_eq]; omega)
    refine ⟨s₂, hok, hd.trans (scrollDown_draws hok), fun x hx hx' => ?_⟩
    rw [hdown.moved (i + 1) x (by omega) (by omega) hx (by rw [hd.width_eq]; exact hx'),
      Int.add_sub_cancel]
    exact hcells x hx hx'

/-- The first row of a long line is marked. -/
theorem Shown.first_marked {max : Int} {w h x : Nat} {full : List (List ScreenChar)}
    {row : List ScreenChar} (hs : Shown max w h full row x s)
    (hmarked : ∀ r ∈ full, marked ScreenChar.isNul r = true)
    (hone : full.length = 1) : s.MarkedAt 0 := by
  have hmax := hs.max_pos
  have hh := hs.height_pos
  obtain ⟨first, rfl⟩ := List.length_eq_one_iff.mp hone
  obtain ⟨blank, hrows, -⟩ := (showsLast_concat (by omega)).mp hs.shows
  have hkept : keptAbove max h [first] = [first] := by
    rw [keptAbove, List.rtake, List.length_singleton, Nat.sub_eq_zero_of_le (by omega),
      List.drop_zero]
  rw [hkept] at hrows
  have hlt : 0 < s.rows.length := by
    rw [hrows]
    simp
  refine (hs.wf.marked_iff hlt).mp ?_
  rw [show s.rows[0] = first by simp [hrows]]
  exact hmarked first (List.mem_singleton_self first)

/-- A full line in the first row, the cursor in the last row, and the screen scrolled down by 24
rows: the mark of the full line is now in the last row, and the copy loops follow it. -/
theorem markedBottom_reads : ∃ v v₁ v₂ v₃, VT100.init ⟨0, 0, 0⟩ = .ok v ∧
    v.readInputStream Foundation.latin1 (List.replicate 80 0x41) = .ok v₁ ∧
    v₁.readInputStream Foundation.latin1 VT100.lastRowBytes = .ok v₂ ∧
    v₂.readInputStream Foundation.latin1 downBytes = .ok v₃ ∧
    ¬ReadsOnce v₃.terminal 81 25 v₃.screen := by
  obtain ⟨v, v₁, done, full, row, hv, h₁, hrest, ht, hs, hdone, hfull, hmarked, -⟩ :=
    VT100.init_line Foundation.latin1_asciiExact ⟨0, 0, 0⟩ 0 (List.replicate 80 0x41)
      (by simp [IsPrintable])
  rw [List.length_eq_zero_iff] at hdone
  rw [hdone, List.nil_append] at hs
  have horigin : v₁.terminal.originMode = false := by
    obtain ⟨stream, len, total, off, heq⟩ := hrest.modes
    rw [heq, ht]
    rfl
  obtain ⟨v₂, h₂, hd₂, hb₂, hwf₂, hempty₂, -⟩ := VT100.readInputStream_lastRow
    (F := Foundation.latin1) ⟨hrest.wf, hs.wf⟩ hrest.pending_eq hs.height_eq horigin
  have hheight₂ : v₂.screen.height = 25 := hd₂.height_eq.trans hs.height_eq
  have hmargins₂ : v₂.screen.FullMargins := by
    refine ⟨hd₂.margins_eq.1.trans hs.margins.1, hd₂.margins_eq.2.trans (hs.margins.2.trans ?_)⟩
    rw [hheight₂, hs.height_eq]
    rfl
  obtain ⟨tok, hdecode, htype, hp0⟩ := down_token
  obtain ⟨s₃, hrun, hd₃, hcells₃⟩ := scrollDown_loop hwf₂.screen v₂.terminal hmargins₂
    hwf₂.screen.top_range.2 (n := 24) (by omega)
  have htok : VT100.ScreenOnly tok := by
    simp [VT100.ScreenOnly, VT100.setMode, VT100.setCharAttr, Terminal.setCharAttr, htype,
      VT100TCC.stops]
  have hset : ∀ t, v₂.terminal.SameModes t →
      v₂.screen.dispatch Foundation.latin1 t tok = .ok s₃ := by
    rintro t ⟨stream, len, total, off, rfl⟩
    simp only [dispatch, htype, hp0, Int.toNat_natCast]
    exact hrun
  obtain ⟨v₃, h₃, hd, hb, -⟩ := VT100.readInputStream_sequence (F := Foundation.latin1) hwf₂ hempty₂
    _ _ tok (by decide) (fun t => hdecode t v₂.screen) htok hset
  have hdraws := hd₃.trans hd
  have hwf₃ := hdraws.wf hwf₂.screen
  have hheight : v₃.screen.height = 25 := hdraws.height_eq.trans hheight₂
  have hwidth : v₂.screen.width = 80 := hd₂.width_eq.trans hs.width_eq
  have hrow : v₃.screen.cursorY = 24 := hdraws.cursor_eq.2.trans hd₂.cursor_eq.2
  have hcount₁ : v₁.screen.currentScrollbackLines = 0 := by
    rw [hs.count_eq, hfull]
    rfl
  have hcount₂ : v₂.screen.currentScrollbackLines = 0 := hd₂.count_eq.trans hcount₁
  have hcount : v₃.screen.currentScrollbackLines = 0 := hdraws.count_eq.trans hcount₂
  -- the mark of the first row is now that of the last
  have hmark : v₃.screen.MarkedAt 24 := by
    have hfirst : v₁.screen.MarkedAt 0 := hs.first_marked hmarked (by rw [hfull]; decide)
    have hw₁ := hs.wf.width_pos
    have hsame : v₂.screen.cellAt 0 80 = v₁.screen.cellAt 0 80 :=
      hd₂.cellAt_of_eq { hs.wf with column := ⟨Int.le_refl 0, by simp only; omega⟩ } hb₂ 0 80
    have hlast : v₃.screen.cellAt 24 80 = v₂.screen.cellAt 0 80 := by
      rw [hd.cellAt_of_eq (hd₃.wf hwf₂.screen) hb]
      have hmoved := hcells₃ 80 (by decide) (by omega)
      rw [hd₃.visibleCell_eq hwf₂.screen (by decide) (by omega),
        hwf₂.screen.visibleCell_eq (Int.le_refl 0) (by omega), hcount₂] at hmoved
      exact hmoved
    rw [MarkedAt, hs.width_eq] at hfirst
    rw [MarkedAt, hdraws.width_eq, hwidth, hlast, hsame]
    exact hfirst
  refine ⟨v, v₁, v₂, v₃, hv, h₁, h₂, h₃, fun hreads => ?_⟩
  have hstuck : ¬v₃.screen.StuckAbove := by
    unfold StuckAbove
    omega
  have hne : v₃.screen.width ≠ ((81 : Nat) : Int) := by
    rw [hdraws.width_eq, hwidth]
    decide
  obtain ⟨m, hle, hm, hclosed⟩ := ReadsOnce.endsInTime (h := 25) hwf₃ hne hstuck hreads
  have hlen := hwf₃.rows_length_eq
  unfold textHeight at hle
  obtain rfl : m = 25 := by omega
  exact (hwf₃.closed_take_iff hm).mp hclosed (by decide) hmark

end Screen

end MobileTerminal
