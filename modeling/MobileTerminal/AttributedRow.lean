import MobileTerminal.ColorMap
import MobileTerminal.Fresh
import MobileTerminal.Reachable
import MobileTerminal.RowText
import MobileTerminal.Runs

/-!
# The colours of a row

`newAttributedString:` of `VT100StringSupplier.m` turns a row into a string and
sets the background and the foreground colour of each run of cells. Both are the
same loop over the columns: a run is open as long as the colour stays, and when
it changes the attribute is set for the columns of the run and a new one begins.
The colour of the cursor's cell stands for that of the cell.

The ranges that are set reproduce the colours of the cells, with the cursor on
top, for every row of every reachable state (`newAttributedString_reproduces`).
The invariant of the loop, `Pending`, is that the ranges so far reproduce the
columns before the open run and that all columns of that run have its colour;
the library on runs supplies the rest.

How two colours are compared is not fixed: `isEqual` is any equivalence. A
colour may also be `nil`, which is equal to nothing, not even to itself, in the
answer of `isEqual:`.
-/

namespace MobileTerminal

/-- `isEqual:`. The colours may be `nil`: a message to `nil` answers `NO`, and no colour is
equal to `nil`. -/
def isEqualTo (isEqual : UIColor → UIColor → Bool) : Option UIColor → Option UIColor → Bool
  | some color, some other => isEqual color other
  | _, _ => false

/-- The string and the ranges that the two attributes are set for, in this order. -/
structure AttributedString where
  string : List UniChar
  background : List (Run (Option UIColor))
  foreground : List (Run (Option UIColor))

/-- The variables of the loop over the columns, and the ranges set so far. -/
structure ColorRuns where
  lastColorIndex : Int := -1
  lastColor : Option UIColor := none
  runs : List (Run (Option UIColor)) := []

namespace ColorRuns

/-- Sets the attribute for the characters before `j`, if there are any. -/
def setAttribute (j : Int) (st : ColorRuns) : ColorRuns :=
  if st.lastColorIndex ≠ -1 then
    { st with runs := st.runs ++ [⟨st.lastColorIndex, j - st.lastColorIndex, st.lastColor⟩] }
  else st

/-- The second half of the loop body. -/
def round (isEqual : UIColor → UIColor → Bool) (eol : Bool) (color : Option UIColor) (j : Int)
    (st : ColorRuns) : ColorRuns :=
  if eol || !isEqualTo isEqual color st.lastColor then
    let st := st.setAttribute j
    if eol then st else { st with lastColorIndex := j, lastColor := color }
  else st

end ColorRuns

namespace VT100

def cursorPosition (v : VT100) : ScreenPosition := ⟨v.screen.cursorX, v.screen.cursorY⟩

def columnCount (v : VT100) : Int := v.screenSize.1

def newString (rowIndex : Int) (v : VT100) : Res (List UniChar) := do
  let row ← v.bufferForRow rowIndex
  fillBuffer v.screen.bufferLines row v.columnCount.toNat

/-- The loop over the columns: `cellColor` is `bg_color` in the first one and `fg_color` in the
second, `cursorColor` the cursor's colour there. -/
def colorRuns (isEqual : UIColor → UIColor → Bool) (cellColor : ScreenChar → Int)
    (cursorColor : UIColor) (cursorPosition : ScreenPosition) (rowIndex row : Int) (v : VT100) :
    Res (List (Run (Option UIColor))) := do
  let width := v.columnCount
  let st ← forUp (fun j (st : ColorRuns) => do
    if j = width then .ok (st.round isEqual true none j)
    else do
      let c ← v.screen.bufferLines.load (row + j)
      let color := if cursorPosition.x = j ∧ cursorPosition.y = rowIndex then cursorColor
        else ColorMap.color (cellColor c).toNat
      .ok (st.round isEqual false (some color) j)) 0 (width + 1).toNat {}
  .ok st.runs

/-- The cursor's row is counted from the top of the screen, the row of a string from the
start of the scrollback. -/
def cursorInBuffer (v : VT100) : ScreenPosition :=
  let cursorPosition := v.cursorPosition
  if v.numberOfRows > v.screenSize.2 then
    { cursorPosition with y := cursorPosition.y + (v.numberOfRows - v.screenSize.2) }
  else cursorPosition

def newAttributedString (isEqual : UIColor → UIColor → Bool) (rowIndex : Int) (v : VT100) :
    Res AttributedString := do
  let string ← v.newString rowIndex
  let cursorPosition := v.cursorInBuffer
  let row ← v.bufferForRow rowIndex
  let background ← v.colorRuns isEqual ScreenChar.bgColor .backgroundCursor cursorPosition
    rowIndex row
  let foreground ← v.colorRuns isEqual ScreenChar.fgColor .foregroundCursor cursorPosition
    rowIndex row
  .ok { string, background, foreground }

end VT100

/-! ## One round -/

section

variable {isEqual : UIColor → UIColor → Bool}

/-- Two pointers to equal colours. -/
def SameColor (isEqual : UIColor → UIColor → Bool) (a b : Option UIColor) : Prop :=
  isEqualTo isEqual a b = true

theorem SameColor.refl (heq : Equivalence fun a b => isEqual a b = true) (color : UIColor) :
    SameColor isEqual (some color) (some color) := heq.refl color

theorem SameColor.symm (heq : Equivalence fun a b => isEqual a b = true) {a b : Option UIColor}
    (h : SameColor isEqual a b) : SameColor isEqual b a := by
  cases a with
  | none => cases h
  | some a =>
      cases b with
      | none => cases h
      | some b => exact heq.symm h

end

namespace ColorRuns

open Run

variable {isEqual : UIColor → UIColor → Bool} {color : Int → UIColor} {j : Int} {st : ColorRuns}

/-- Before round `j`: no run has been started, or there is an open one. -/
def Pending (isEqual : UIColor → UIColor → Bool) (color : Int → UIColor) (j : Int)
    (st : ColorRuns) : Prop :=
  j = 0 ∧ st = {} ∨
    Run.Open (SameColor isEqual) (fun k => some (color k)) j st.lastColorIndex st.lastColor st.runs

theorem Pending.setAttribute (h : Pending isEqual color j st) :
    Reproduces (SameColor isEqual) (fun k => some (color k)) j (st.setAttribute j).runs := by
  rcases h with ⟨rfl, rfl⟩ | hopen
  · exact Reproduces.nil
  · have hindex : st.lastColorIndex ≠ -1 := by
      have := hopen.range
      omega
    rw [ColorRuns.setAttribute, if_pos hindex]
    exact hopen.close

theorem Pending.round (heq : Equivalence fun a b => isEqual a b = true)
    (h : Pending isEqual color j st) (hj : 0 ≤ j) :
    Pending isEqual color (j + 1) (st.round isEqual false (some (color j)) j) := by
  right
  unfold ColorRuns.round
  by_cases hsame : isEqualTo isEqual (some (color j)) st.lastColor = true
  · rw [hsame, if_neg (by simp)]
    rcases h with ⟨-, rfl⟩ | hopen
    · cases hsame
    · exact hopen.extend (SameColor.symm heq hsame)
  · rw [Bool.eq_false_of_not_eq_true hsame, if_pos (by simp)]
    exact h.setAttribute.open hj (SameColor.refl heq (color j))

theorem Pending.finish (h : Pending isEqual color j st) :
    Reproduces (SameColor isEqual) (fun k => some (color k)) j
      (st.round isEqual true none j).runs := by
  rw [ColorRuns.round, Bool.true_or, if_pos rfl]
  exact h.setAttribute

end ColorRuns

/-! ## The row -/

namespace Screen

/-- What column `j` of row `r` is to be coloured with. -/
def colorAt (s : Screen) (cellColor : ScreenChar → Int) (cursorColor : UIColor) (r j : Int) :
    UIColor :=
  if r = s.currentScrollbackLines + s.cursorY ∧ j = s.cursorX then cursorColor
  else ColorMap.color (cellColor (s.cellAt r j)).toNat

end Screen

namespace VT100

open Run

variable {v : VT100} {isEqual : UIColor → UIColor → Bool} {r : Int}

theorem newString_eq (h : v.screen.Wf) (hr : 0 ≤ r) (hr' : r < v.numberOfRows)
    (hwidth : v.screen.width ≤ kMaxRowBufferSize) :
    v.newString r = .ok ((List.range v.screen.width.toNat).map fun (k : Nat) =>
      (v.screen.cellAt r k).shown) := by
  have hw := h.width_pos
  have hrow : v.bufferForRow r = .ok (v.screen.rowLine r * v.screen.realWidth) := h.indexLine hr
  have hfill := h.fillRow (x := 0) (n := v.screen.width.toNat) hr hr' (Int.le_refl 0) (by omega)
    (by omega)
  simp only [Int.add_zero, Int.zero_add] at hfill
  rw [newString, hrow, ok_bind]
  exact hfill

theorem colorRuns_reproduces (heq : Equivalence fun a b => isEqual a b = true) (h : v.screen.Wf)
    (hr : 0 ≤ r) (hr' : r < v.numberOfRows) (cellColor : ScreenChar → Int)
    (cursorColor : UIColor) :
    ∃ runs, v.colorRuns isEqual cellColor cursorColor
        ⟨v.screen.cursorX, v.screen.currentScrollbackLines + v.screen.cursorY⟩ r
        (v.screen.rowLine r * v.screen.realWidth) = .ok runs ∧
      Reproduces (SameColor isEqual) (fun j => some (v.screen.colorAt cellColor cursorColor r j))
        v.screen.width runs := by
  have hw := h.width_pos
  have hrow := h.numberOfLines_bound hr'
  have hstart := h.line_nonneg hr hrow
  have hend := h.line_end_le hr hrow
  have hreal : v.screen.realWidth = v.screen.width + 1 := rfl
  have hloop := forUp_total (ε := Fault Site)
    (f := fun j (st : ColorRuns) => do
      if j = v.screen.width then .ok (st.round isEqual true none j)
      else do
        let c ← v.screen.bufferLines.load (v.screen.rowLine r * v.screen.realWidth + j)
        let color := if v.screen.cursorX = j ∧
            v.screen.currentScrollbackLines + v.screen.cursorY = r then cursorColor
          else ColorMap.color (cellColor c).toNat
        .ok (st.round isEqual false (some color) j))
    (P := fun j st =>
      (j ≤ v.screen.width →
        ColorRuns.Pending isEqual (v.screen.colorAt cellColor cursorColor r) j st) ∧
      (v.screen.width < j → Reproduces (SameColor isEqual)
        (fun j => some (v.screen.colorAt cellColor cursorColor r j)) v.screen.width st.runs))
    0 (v.screen.width + 1).toNat (s := {}) ?_ ?_
  · obtain ⟨st, hok, -, hdone⟩ := hloop
    refine ⟨st.runs, ?_, hdone (by omega)⟩
    rw [colorRuns]
    exact (congrArg (· >>= _) hok).trans (ok_bind _ _)
  · rintro j st hj hj' ⟨hpending, -⟩
    have hpending := hpending (by omega)
    by_cases heol : j = v.screen.width
    · refine ⟨_, if_pos heol, fun hle => by omega, fun _ => ?_⟩
      rw [← heol]
      exact hpending.finish
    · have hload : (v.screen.bufferLines.load (v.screen.rowLine r * v.screen.realWidth + j) :
          Res ScreenChar) = .ok (v.screen.cellAt r j) := by
        rw [h.cellAt_eq]
        exact Block.load_of_lt (by omega) (by omega)
      refine ⟨st.round isEqual false (some (v.screen.colorAt cellColor cursorColor r j)) j, ?_,
        fun _ => hpending.round heq hj, fun hlt => by omega⟩
      rw [if_neg heol, hload, ok_bind]
      simp only [Screen.colorAt, and_comm, eq_comm]
  · exact ⟨fun _ => Or.inl ⟨rfl, rfl⟩, fun hlt => by omega⟩

theorem cursorInBuffer_eq (h : v.screen.Wf) : v.cursorInBuffer =
    ⟨v.screen.cursorX, v.screen.currentScrollbackLines + v.screen.cursorY⟩ := by
  have hcount := h.count_range
  have hlines : v.numberOfRows = v.screen.currentScrollbackLines + v.screen.height :=
    h.numberOfLines_eq
  have hheight : v.screenSize.2 = v.screen.height := rfl
  unfold cursorInBuffer
  split
  · simp only [cursorPosition, ScreenPosition.mk.injEq, true_and]
    omega
  · simp only [cursorPosition, ScreenPosition.mk.injEq, true_and]
    omega

/-- The string of a row: its characters, and the ranges of the two attributes. -/
theorem newAttributedString_eq (h : v.screen.Wf)
    (heq : Equivalence fun a b => isEqual a b = true) (hr : 0 ≤ r) (hr' : r < v.numberOfRows)
    (hwidth : v.screen.width ≤ kMaxRowBufferSize) :
    ∃ background foreground, v.newAttributedString isEqual r =
        .ok ⟨(List.range v.screen.width.toNat).map fun k : Nat => (v.screen.cellAt r k).shown,
          background, foreground⟩ ∧
      Reproduces (SameColor isEqual)
        (fun j => some (v.screen.colorAt ScreenChar.bgColor .backgroundCursor r j))
        v.screen.width background ∧
      Reproduces (SameColor isEqual)
        (fun j => some (v.screen.colorAt ScreenChar.fgColor .foregroundCursor r j))
        v.screen.width foreground := by
  have hrow : v.bufferForRow r = .ok (v.screen.rowLine r * v.screen.realWidth) := h.indexLine hr
  obtain ⟨background, hbg, hbackground⟩ := colorRuns_reproduces heq h hr hr' ScreenChar.bgColor
    .backgroundCursor
  obtain ⟨foreground, hfg, hforeground⟩ := colorRuns_reproduces heq h hr hr' ScreenChar.fgColor
    .foregroundCursor
  have hstring := newString_eq h hr hr' hwidth
  refine ⟨background, foreground, ?_, hbackground, hforeground⟩
  simp only [newAttributedString, hstring, ok_bind, cursorInBuffer_eq h, hrow, hbg, hfg]

theorem decide_equivalence : Equivalence fun a b : UIColor => decide (a = b) = true := by
  simp only [decide_eq_true_eq]
  exact eq_equivalence

/-- The ranges of the two attributes reproduce the colours of the cells and the cursor, for
every row of scrollback and screen in every reachable state, and for any comparison of
colours that is an equivalence: each column is in one range of either attribute, and the
range has its colour. -/
theorem newAttributedString_reproduces {F : Foundation} {c : Config} (hreach : Reachable F c)
    (heq : Equivalence fun a b => isEqual a b = true) (hr : 0 ≤ r) (hr' : r < c.2.numberOfRows)
    (hwidth : c.2.screen.width < kMaxRowBufferSize) :
    ∃ str, c.2.newAttributedString isEqual r = .ok str ∧
      Reproduces (SameColor isEqual)
        (fun j => some (c.2.screen.colorAt ScreenChar.bgColor .backgroundCursor r j))
        c.2.screen.width str.background ∧
      Reproduces (SameColor isEqual)
        (fun j => some (c.2.screen.colorAt ScreenChar.fgColor .foregroundCursor r j))
        c.2.screen.width str.foreground := by
  obtain ⟨background, foreground, hok, hbackground, hforeground⟩ :=
    newAttributedString_eq (reachable_wf hreach).screen heq hr hr' (Int.le_of_lt hwidth)
  exact ⟨_, hok, hbackground, hforeground⟩

/-- The row of the cursor of a new object. -/
theorem init_row_coloured : ∃ v str, VT100.init ⟨0, 0, 0⟩ = .ok v ∧
    v.newAttributedString (fun a b => decide (a = b)) 0 = .ok str ∧
    Reproduces (SameColor fun a b => decide (a = b))
      (fun j => some (v.screen.colorAt ScreenChar.bgColor .backgroundCursor 0 j)) 80
      str.background := by
  obtain ⟨v, hv, -, hs⟩ := init_fresh ⟨0, 0, 0⟩
  have hreach : Reachable Foundation.latin1 (.idle, v) := .init ⟨⟨0, 0, 0⟩, v, hv, rfl⟩
  have hwidth : v.screen.width = 80 := hs.width_eq
  obtain ⟨str, hok, hbackground, -⟩ := newAttributedString_reproduces (r := 0) hreach
    decide_equivalence (Int.le_refl 0) (by
      rw [numberOfRows, hs.wf.numberOfLines_eq, hs.count_eq, hs.height_eq]
      decide) (by rw [hwidth]; decide)
  rw [hwidth] at hbackground
  exact ⟨v, str, hv, hok, hbackground⟩

end VT100

end MobileTerminal
