import MobileTerminal.Frame
import MobileTerminal.Grid
import MobileTerminal.CsiScan
import MobileTerminal.VT100

/-!
# The ring invariant

The buffer of a screen is a ring of `max_scrollback_lines + HEIGHT` lines. The
scrollback starts at line `scrollbackLine`, the visible rows follow it at line
`topLine`, and both are counted modulo the number of lines. `Wf` states this
together with what every handler keeps about the margins, the column and the
sizes of the other blocks; it is kept by every step of a run (`reachable_wf`).

The row of the cursor is not part of `Wf`. `cursorUp:` and `cursorDown:` can
move it off the screen, so a result that needs it on the screen says so; the
column and the saved column are kept by every handler and are part of it.

Handlers that only draw keep `Wf` by `Draws.wf`, in one step for all of them.
What is left are those that move the column, change the margins, rotate the ring
(`setNewLine`), empty the scrollback or build a new ring (`resizeWidth`). For
the two with many branches a lemma says everything they can do
(`setNewLine_cases`, `putCell_cases`), and later invariants are derived from
these and do not unfold the handlers.

A screen that satisfies `Wf` may still stop on a fault: a lookup above the first
row trips an assertion, and a region behind the wrap point of the ring is not
found.
-/

namespace MobileTerminal

namespace Screen

variable {F : Foundation} {t : Terminal} {s s' s₁ s₂ : Screen}

/-- The line of the buffer at which the visible rows begin. -/
def topLine (s : Screen) : Int := s.screenTop / s.realWidth

/-- The line of the buffer at which the scrollback begins. -/
def scrollbackLine (s : Screen) : Int := s.scrollbackTop / s.realWidth

/-- What every step of a run keeps of the screen: the sizes of the blocks, the two
line-aligned pointers that are `current_scrollback_lines` apart in the ring, margins that
are rows in order, and a column and a saved column on the screen. -/
structure Wf (s : Screen) : Prop where
  width_pos : 1 ≤ s.width
  height_pos : 1 ≤ s.height
  max_pos : 0 < s.maxScrollbackLines
  fixed : s.dynamicScrollbackSize = false
  buffer_size : s.bufferLines.size = s.totalHeight * s.realWidth
  dirty_size : s.dirty.size = s.width * s.height
  last_line : s.lastBufferLine = (s.totalHeight - 1) * s.realWidth
  top_aligned : s.screenTop = s.topLine * s.realWidth
  scrollback_aligned : s.scrollbackTop = s.scrollbackLine * s.realWidth
  scrollback_range : 0 ≤ s.scrollbackLine ∧ s.scrollbackLine < s.totalHeight
  count_range : 0 ≤ s.currentScrollbackLines ∧ s.currentScrollbackLines ≤ s.maxScrollbackLines
  top_eq : s.topLine = wrapLine s.totalHeight (s.scrollbackLine + s.currentScrollbackLines)
  margins : 0 ≤ s.scrollTop ∧ s.scrollTop ≤ s.scrollBottom ∧ s.scrollBottom < s.height
  column : 0 ≤ s.cursorX ∧ s.cursorX < s.width
  saved_column : 0 ≤ s.saveCursorX ∧ s.saveCursorX < s.width
  tabs : s.tabStop.size = tabWindow
  charsets : s.charset.size = 4
  saved_charsets : s.saveCharset.size = 4
  temp : ∀ b, s.tempBuffer = some b → b.size = s.realWidth * s.height
  default : s.DefaultOk

namespace Wf

theorem realWidth_pos (h : s.Wf) : 0 < s.realWidth := by
  have := h.width_pos
  unfold realWidth
  omega

theorem height_lt_total (h : s.Wf) : s.height < s.totalHeight := by
  have := h.max_pos
  unfold totalHeight
  omega

theorem top_range (h : s.Wf) : 0 ≤ s.topLine ∧ s.topLine < s.totalHeight := by
  have hs := h.scrollback_range
  have hc := h.count_range
  have ht : s.totalHeight = s.maxScrollbackLines + s.height := rfl
  have hh := h.height_pos
  rw [h.top_eq]
  exact ⟨wrapLine_nonneg (by omega), wrapLine_lt (by omega)⟩

/-- `_getLineAtIndex:fromLine:` counts lines in the ring: from line `l`, row `i` is line
`wrapLine T (l + i)`, as long as that is less than two rounds. -/
theorem lineFrom_line (h : s.Wf) (i l : Int) :
    s.lineFrom i (l * s.realWidth) = wrapLine s.totalHeight (l + i) * s.realWidth := by
  have hsum : l * s.realWidth + i * s.realWidth = (l + i) * s.realWidth := by ring
  have hgt : l * s.realWidth + i * s.realWidth > s.lastBufferLine ↔ s.totalHeight ≤ l + i := by
    rw [hsum, h.last_line, gt_iff_lt, line_lt_iff h.realWidth_pos]
    omega
  simp only [lineFrom]
  by_cases hw : s.totalHeight ≤ l + i
  · rw [if_pos (hgt.mpr hw), wrapLine_of_ge hw, h.last_line]
    ring
  · rw [if_neg (fun hc => hw (hgt.mp hc)), wrapLine_of_lt (by omega), hsum]

/-- The line of visible row `i`, as `getLineAtScreenIndex:` finds it. -/
theorem screenLine (h : s.Wf) {i : Int} (hi : 0 ≤ i) :
    s.getLineAtScreenIndex i = .ok (wrapLine s.totalHeight (s.topLine + i) * s.realWidth) := by
  have hl := h.lineFrom_line i s.topLine
  rw [← h.top_aligned] at hl
  simp only [getLineAtScreenIndex, getLineAtIndexFromLine, nsAssert_pos hi, ok_bind, hl]

/-- The line of row `i`, counted from the start of the scrollback. -/
theorem indexLine (h : s.Wf) {i : Int} (hi : 0 ≤ i) :
    s.getLineAtIndex i =
      .ok (wrapLine s.totalHeight (s.scrollbackLine + i) * s.realWidth) := by
  have hl := h.lineFrom_line i s.scrollbackLine
  have hm := h.max_pos
  rw [← h.scrollback_aligned] at hl
  simp only [getLineAtIndex, getLineAtIndexFromLine, nsAssert_pos hi, ok_bind,
    if_neg (show ¬s.maxScrollbackLines = 0 by omega), hl]

/-- Visible row `i` is row `current_scrollback_lines + i`, counted from the start of the
scrollback: the two kinds of lookup agree. -/
theorem wrap_top (h : s.Wf) {i : Int} (hi : 0 ≤ i) (hi' : i < s.height) :
    wrapLine s.totalHeight (s.topLine + i) =
      wrapLine s.totalHeight (s.scrollbackLine + (s.currentScrollbackLines + i)) := by
  have hs := h.scrollback_range
  have hc := h.count_range
  have ht : s.totalHeight = s.maxScrollbackLines + s.height := rfl
  rw [h.top_eq]
  unfold wrapLine
  split <;> split <;> split <;> omega

theorem numberOfLines_eq (h : s.Wf) : s.numberOfLines = s.currentScrollbackLines + s.height := by
  have hc := h.count_range
  simp only [numberOfLines, if_neg (show ¬s.currentScrollbackLines > s.maxScrollbackLines by omega)]

end Wf

theorem Draws.withScreenTop (hd : Draws s s') (a : Int) :
    Draws { s with screenTop := a } { s' with screenTop := a } := by
  obtain ⟨⟨b, d, line, fg, bg, w, hb, hs, rfl⟩, hl⟩ := hd
  exact ⟨⟨b, d, line, fg, bg, w, hb, hs, rfl⟩, hl⟩

theorem Draws.withCursorX (hd : Draws s s') (x : Int) :
    Draws { s with cursorX := x } { s' with cursorX := x } := by
  obtain ⟨⟨b, d, line, fg, bg, w, hb, hs, rfl⟩, hl⟩ := hd
  exact ⟨⟨b, d, line, fg, bg, w, hb, hs, rfl⟩, hl⟩

theorem Draws.withCursor (hd : Draws s s') (x y : Int) :
    Draws { s with cursorX := x, cursorY := y } { s' with cursorX := x, cursorY := y } := by
  obtain ⟨⟨b, d, line, fg, bg, w, hb, hs, rfl⟩, hl⟩ := hd
  exact ⟨⟨b, d, line, fg, bg, w, hb, hs, rfl⟩, hl⟩

theorem Draws.width_eq (hd : Draws s s') : s'.width = s.width := by
  obtain ⟨⟨b, d, line, fg, bg, w, hb, hs, rfl⟩, -⟩ := hd
  rfl

theorem Draws.cursor_eq (hd : Draws s s') : s'.cursorX = s.cursorX ∧ s'.cursorY = s.cursorY := by
  obtain ⟨⟨b, d, line, fg, bg, w, hb, hs, rfl⟩, -⟩ := hd
  exact ⟨rfl, rfl⟩

theorem Draws.wf (hd : Draws s s') (h : s.Wf) : s'.Wf := by
  obtain ⟨⟨b, d, line, fg, bg, w, hb, hs, rfl⟩, hl⟩ := hd
  exact { h with
    buffer_size := hb.trans h.buffer_size
    dirty_size := hs.trans h.dirty_size
    default := hl h.default }

/-! ## Rotating the ring

A line feed in the last row moves `screen_top` on by one line and wraps it at
the end of the buffer; the line it makes visible is the one that held the oldest
row, or was free. -/

theorem incrementLinePointer_line {w T l : Int} (hw : 0 < w + 1) (hl : l < T) :
    incrementLinePointer (l * (w + 1)) T w =
      (wrapLine T (l + 1) * (w + 1), decide (T ≤ l + 1)) := by
  have hnext : l * (w + 1) + (w + 1) = (l + 1) * (w + 1) := by ring
  have hge : l * (w + 1) + (w + 1) ≥ (w + 1) * T ↔ T ≤ l + 1 := by
    rw [hnext, Int.mul_comm (w + 1) T, ge_iff_le, line_le_iff hw]
  simp only [incrementLinePointer]
  by_cases h : T ≤ l + 1
  · rw [if_pos (hge.mpr h), wrapLine_of_ge h, show l + 1 - T = 0 by omega]
    simp [h]
  · rw [if_neg (fun hc => h (hge.mp hc)), wrapLine_of_lt (by omega), hnext]
    simp [h]

/-- The pointers after the top visible row has become the last row of the
scrollback. -/
def rotate (s : Screen) : Screen :=
  { s.addLineToScrollback.2 with
    screenTop := (incrementLinePointer s.screenTop s.totalHeight s.width).1 }

/-- With a scrollback of fixed size, a row that does not fit displaces the oldest. -/
theorem Wf.addLineToScrollback_eq (h : s.Wf) :
    s.addLineToScrollback =
      if s.currentScrollbackLines = s.maxScrollbackLines then
        (true, { s with
          scrollbackTop := (incrementLinePointer s.scrollbackTop s.totalHeight s.width).1
          currentScrollbackLines := s.maxScrollbackLines })
      else (false, { s with currentScrollbackLines := s.currentScrollbackLines + 1 }) := by
  have hc := h.count_range
  simp only [addLineToScrollback, if_pos h.max_pos]
  by_cases hfull : s.currentScrollbackLines = s.maxScrollbackLines
  · rw [if_pos (by omega), if_neg (by simp [h.fixed]), if_pos hfull]
    rfl
  · rw [if_neg (by omega), if_neg hfull]

theorem Wf.rotate_eq (h : s.Wf) :
    s.rotate =
      if s.currentScrollbackLines = s.maxScrollbackLines then
        { s with
          currentScrollbackLines := s.maxScrollbackLines
          scrollbackTop := wrapLine s.totalHeight (s.scrollbackLine + 1) * s.realWidth
          screenTop := wrapLine s.totalHeight (s.topLine + 1) * s.realWidth }
      else { s with
          currentScrollbackLines := s.currentScrollbackLines + 1
          screenTop := wrapLine s.totalHeight (s.topLine + 1) * s.realWidth } := by
  have htop := incrementLinePointer_line (w := s.width) h.realWidth_pos h.top_range.2
  have hsb := incrementLinePointer_line (w := s.width) h.realWidth_pos h.scrollback_range.2
  rw [show s.width + 1 = s.realWidth from rfl, ← h.top_aligned] at htop
  rw [show s.width + 1 = s.realWidth from rfl, ← h.scrollback_aligned] at hsb
  simp only [rotate, h.addLineToScrollback_eq, htop, hsb]
  split <;> rfl

theorem line_ediv {rw l : Int} (hrw : 0 < rw) : l * rw / rw = l :=
  Int.mul_ediv_cancel l (by omega)

theorem Wf.rotate (h : s.Wf) : s.rotate.Wf := by
  have hrw := h.realWidth_pos
  have hs := h.scrollback_range
  have hc := h.count_range
  have ht := h.top_range
  have hh := h.height_pos
  have hT : s.totalHeight = s.maxScrollbackLines + s.height := rfl
  have htop := h.top_eq
  rw [h.rotate_eq]
  split
  · rename_i hfull
    refine { h with
      count_range := ?_, top_aligned := ?_, scrollback_aligned := ?_, scrollback_range := ?_
      top_eq := ?_ }
    all_goals simp only [topLine, scrollbackLine, realWidth, totalHeight] at *
    · simp only [line_ediv hrw]
    · simp only [line_ediv hrw]
    · simp only [line_ediv hrw]
      exact ⟨wrapLine_nonneg (by omega), wrapLine_lt (by omega)⟩
    · omega
    · simp only [line_ediv hrw]
      rw [htop]
      unfold wrapLine
      split <;> split <;> split <;> split <;> omega
  · rename_i hfull
    refine { h with top_aligned := ?_, count_range := ?_, top_eq := ?_ }
    all_goals simp only [topLine, scrollbackLine, realWidth, totalHeight] at *
    · simp only [line_ediv hrw]
    · omega
    · simp only [line_ediv hrw]
      rw [htop]
      unfold wrapLine
      split <;> split <;> split <;> omega

theorem keepTopLine_draws (h : s.Wf) (hok : s.keepTopLine = .ok s') :
    Draws s.addLineToScrollback.2 s' := by
  simp only [keepTopLine, if_pos h.max_pos] at hok
  split at hok
  · exact setDirty_draws hok
  · obtain ⟨d, hd, hok⟩ := bind_eq_ok.mp hok
    exact (Draws.dirty (move_size hd)).trans (dirtyFill_draws hok)

/-- The two rows on which `setNewLine` only moves the cursor down. -/
def CanMoveDown (s : Screen) : Prop :=
  s.cursorY < s.scrollBottom ∨ s.cursorY < s.height - 1 ∧ s.cursorY > s.scrollBottom

theorem setNewLine_down (t : Terminal) (hmove : s.CanMoveDown) : s.setNewLine t = .ok
    (if s.cursorX < s.width then
      touch ((s.cursorY + 1) * s.width + s.cursorX) { s with cursorY := s.cursorY + 1 }
    else { s with cursorY := s.cursorY + 1 }) :=
  if_pos hmove

/-- Everything `setNewLine` can do: move the cursor down, append a row to a screen without
margins, or scroll the region between the margins. Guards and results are complete, so
that no other proof unfolds `setNewLine`. -/
theorem setNewLine_cases (h : s.Wf) (hok : s.setNewLine t = .ok s') :
    s.CanMoveDown ∧ Draws { s with cursorY := s.cursorY + 1 } s' ∨
    ¬s.CanMoveDown ∧ s.FullMargins ∧ Draws s.rotate s' ∨
    ¬s.CanMoveDown ∧ ¬s.FullMargins ∧ Draws s s' := by
  unfold setNewLine at hok
  split at hok
  · rename_i hy
    refine Or.inl ⟨hy, ?_⟩
    cases hok
    split
    · exact touch_draws _ _
    · exact .refl _
  · rename_i hy
    split at hok
    · rename_i hm
      obtain ⟨s₁, h₁, hok⟩ := bind_eq_ok.mp hok
      obtain ⟨line, -, hok⟩ := bind_eq_ok.mp hok
      refine Or.inr (Or.inl ⟨hy, hm, Draws.trans ?_ (setDefaultLine_draws hok)⟩)
      -- `screen_top` and `WIDTH` are read after `keepTopLine`, which leaves them alone
      have hkeep := keepTopLine_draws h h₁
      have hptr : s₁.screenTop = s.screenTop ∧ s₁.width = s.width := by
        obtain ⟨⟨b, d, line, fg, bg, w, hb, hd, rfl⟩, -⟩ := hkeep
        rw [h.addLineToScrollback_eq]
        split <;> exact ⟨rfl, rfl⟩
      have hnext : (incrementLinePointer s₁.screenTop s.totalHeight s₁.width).1 =
          (incrementLinePointer s.screenTop s.totalHeight s.width).1 := by rw [hptr.1, hptr.2]
      rw [hnext]
      exact hkeep.withScreenTop _
    · rename_i hm
      obtain ⟨-, -, hok⟩ := bind_eq_ok.mp hok
      exact Or.inr (Or.inr ⟨hy, hm, scrollUpRegion_draws hok⟩)

theorem setNewLine_wf (h : s.Wf) (hok : s.setNewLine t = .ok s') : s'.Wf := by
  obtain ⟨-, hd⟩ | ⟨-, -, hd⟩ | ⟨-, -, hd⟩ := setNewLine_cases h hok
  · exact hd.wf { h with }
  · exact hd.wf h.rotate
  · exact hd.wf h

theorem scrollUp_wf (h : s.Wf) (hok : s.scrollUp t = .ok s') : s'.Wf := by
  obtain ⟨-, -, hok⟩ := bind_eq_ok.mp hok
  split at hok
  · exact setNewLine_wf h hok
  · exact (scrollUpRegion_draws hok).wf h

/-! ## Text and the column -/

theorem stepRight_draws (s : Screen) :
    Draws { s with cursorX := s.cursorX + 1 } s.stepRight :=
  ((touch_draws (s.cursorY * s.width + s.cursorX) s).withCursorX _).trans (touch_draws _ _)

/-- A round of the placement loop up to the test whether the line is full. -/
def placeCell (c : ScreenChar) (s : Screen) : Res Screen := do
  let c := if c.ch = 0xffff then { c with ch := 0x23 } else c
  let aLine ← s.getLineAtScreenIndex s.cursorY
  let s ← s.storeCell (aLine + s.cursorX) c
  .ok s.stepRight

theorem putCell_eq (t : Terminal) (c : ScreenChar) (s : Screen) :
    s.putCell t c = (do
      let s ← s.placeCell c
      if s.cursorX ≥ s.width then s.wrapToNextLine t else .ok s) := by
  simp only [putCell, placeCell, bind_assoc, ok_bind]

theorem placeCell_draws {c : ScreenChar} (hok : s.placeCell c = .ok s') :
    Draws { s with cursorX := s.cursorX + 1 } s' := by
  obtain ⟨line, -, hok⟩ := bind_eq_ok.mp hok
  obtain ⟨s₁, h₁, hok⟩ := bind_eq_ok.mp hok
  cases hok
  have hd : Draws s s₁ := storeCell_draws h₁
  rw [← hd.cursor_eq.1]
  exact (hd.withCursorX _).trans (stepRight_draws s₁)

/-- Everything one round of the placement loop can do. -/
theorem putCell_cases {c : ScreenChar} (hok : s.putCell t c = .ok s') :
    s.cursorX + 1 < s.width ∧ Draws { s with cursorX := s.cursorX + 1 } s' ∨
    s.width ≤ s.cursorX + 1 ∧ ∃ s₁, Draws { s with cursorX := 0 } s₁ ∧
      s₁.setNewLine t = .ok s' := by
  rw [putCell_eq] at hok
  obtain ⟨s₁, h₁, hok⟩ := bind_eq_ok.mp hok
  have hstep := placeCell_draws h₁
  have hw : s₁.width = s.width := hstep.width_eq
  have hx : s₁.cursorX = s.cursorX + 1 := hstep.cursor_eq.1
  split at hok
  · rename_i hge
    obtain ⟨line', -, hok⟩ := bind_eq_ok.mp hok
    obtain ⟨s₂, h₂, hok⟩ := bind_eq_ok.mp hok
    refine Or.inr ⟨by omega, s₂, ?_, hok⟩
    exact (hstep.withCursorX 0).trans (storeCh_draws h₂)
  · rename_i hlt
    cases hok
    exact Or.inl ⟨by omega, hstep⟩

theorem putCell_wf {c : ScreenChar} (h : s.Wf) (hok : s.putCell t c = .ok s') : s'.Wf := by
  have hx := h.column
  obtain ⟨hlt, hd⟩ | ⟨-, s₁, hd, hnl⟩ := putCell_cases hok
  · exact hd.wf { h with column := ⟨by simp only; omega, hlt⟩ }
  · exact setNewLine_wf (hd.wf { h with column := ⟨Int.le_refl 0, by simp only; omega⟩ }) hnl

theorem setString_wf {string : List UniChar} {ascii : Bool} (h : s.Wf)
    (hok : s.setString F t string ascii = .ok s') : s'.Wf := by
  unfold setString at hok
  split at hok
  · cases hok
    exact h
  · obtain ⟨cells, -, hok⟩ := bind_eq_ok.mp hok
    exact foldlM_inv (fun _ _ _ => putCell_wf) h hok

theorem Wf.withCursorX (h : s.Wf) {x : Int} (hx : 0 ≤ x) (hx' : x < s.width) :
    Wf { s with cursorX := x } := { h with column := ⟨hx, hx'⟩ }

theorem backSpace_wf (h : s.Wf) : s.backSpace.Wf := by
  have hx := h.column
  unfold backSpace
  split
  · exact h.withCursorX (by omega) (by omega)
  · exact h

theorem skipToTab_ge {tabs : Block Bool} {w x x' : Int} {k : Nat}
    (hok : skipToTab tabs w k x = .ok x') : x ≤ x' := by
  induction k generalizing x with
  | zero => cases hok
  | succ k ih =>
      obtain ⟨stop, -, hok⟩ := bind_eq_ok.mp hok
      split at hok
      · have := ih hok
        omega
      · cases hok
        exact Int.le_refl _

theorem setTab_wf (h : s.Wf) (hok : s.setTab = .ok s') : s'.Wf := by
  have hx := h.column
  obtain ⟨x, hx', hok⟩ := bind_eq_ok.mp hok
  have hge := skipToTab_ge hx'
  cases hok
  exact h.withCursorX (by split <;> omega) (by split <;> omega)

theorem Wf.withColumn (h : s.Wf) (x : Int) :
    Wf (if 0 ≤ x ∧ x < s.width then { s with cursorX := x } else s) := by
  split
  · rename_i hr
    exact h.withCursorX hr.1 hr.2
  · exact h

theorem cursorLeft_wf (h : s.Wf) (n : Int) : (s.cursorLeft n).Wf :=
  (touch_draws _ _).wf (h.withColumn _)

theorem cursorRight_wf (h : s.Wf) (n : Int) : (s.cursorRight n).Wf :=
  (touch_draws _ _).wf (h.withColumn _)

theorem cursorUp_wf (h : s.Wf) (n : Int) : (s.cursorUp n).Wf := by
  simp only [cursorUp]
  split
  · exact (touch_draws _ _).wf { h with }
  · exact { h with }

theorem cursorDown_wf (h : s.Wf) (n : Int) : (s.cursorDown n).Wf := by
  simp only [cursorDown]
  split
  · exact (touch_draws _ _).wf { h with }
  · exact { h with }

theorem clampPos_range (pos : Int) {limit : Int} (h : 1 ≤ limit) :
    0 ≤ clampPos pos limit ∧ clampPos pos limit < limit := by
  unfold clampPos
  split
  · omega
  · split <;> omega

theorem cursorToX_wf (h : s.Wf) (x : Int) : (s.cursorToX x).Wf := by
  have hr := clampPos_range (cint (x - 1)) h.width_pos
  exact (touch_draws _ _).wf (h.withCursorX hr.1 hr.2)

theorem cursorToXY_wf (h : s.Wf) (x y : Int) : (s.cursorToXY t x y).Wf :=
  (touch_draws _ _).wf { h with column := clampPos_range _ h.width_pos }

theorem saveCursorPosition_wf (h : s.Wf) : s.saveCursorPosition.Wf := by
  have hx := h.column
  have hs : s.saveCursorPosition = { s with
      cursorY := s.saveCursorPosition.cursorY, saveCursorX := s.cursorX
      saveCursorY := s.saveCursorPosition.saveCursorY, saveCharset := s.charset } := by
    simp only [saveCursorPosition, if_neg (show ¬s.cursorX < 0 by omega),
      if_neg (show ¬s.cursorX ≥ s.width by omega)]
  rw [hs]
  exact { h with saved_column := hx, saved_charsets := h.charsets }

theorem restoreCursorPosition_wf (h : s.Wf) (hok : s.restoreCursorPosition = .ok s') :
    s'.Wf := by
  obtain ⟨-, -, hok⟩ := bind_eq_ok.mp hok
  obtain ⟨-, -, hok⟩ := bind_eq_ok.mp hok
  cases hok
  exact { h with column := h.saved_column, charsets := h.saved_charsets }

theorem setTopBottom_wf (h : s.Wf) (p0 p1 : Int) : (s.setTopBottom t p0 p1).Wf := by
  have hw := h.width_pos
  simp only [setTopBottom]
  generalize hb : (if p1 = 0 then s.height - 1 else p1 - 1) = bottom
  generalize ht : (if p0 = 0 then 0 else p0 - 1) = top
  split
  · rename_i hr
    exact { h with
      margins := ⟨hr.1, hr.2.2.2.2, hr.2.2.2.1⟩
      column := ⟨Int.le_refl 0, by simp only; omega⟩ }
  · exact h

theorem index_wf (h : s.Wf) (hok : s.index t = .ok s') : s'.Wf := by
  unfold index at hok
  split at hok
  · exact scrollUp_wf h hok
  · cases hok
    exact { h with }

theorem reverseIndex_wf (h : s.Wf) (hok : s.reverseIndex t = .ok s') : s'.Wf := by
  unfold reverseIndex at hok
  split at hok
  · exact (scrollDown_draws hok).wf h
  · cases hok
    exact { h with }

theorem markTab_wf {v : Bool} (h : s.Wf) (hok : s.markTab v = .ok s') : s'.Wf := by
  unfold markTab at hok
  split at hok
  · obtain ⟨tabs, htabs, hok⟩ := bind_eq_ok.mp hok
    cases hok
    exact { h with tabs := (Block.size_of_store htabs).trans h.tabs }
  · cases hok
    exact h

/-! ## The alternate buffer and clearing -/

theorem saveBuffer_wf (h : s.Wf) (hok : s.saveBuffer = .ok s') : s'.Wf := by
  obtain ⟨temp, htemp, hok⟩ := bind_eq_ok.mp hok
  cases hok
  refine { h with temp := ?_ }
  rintro b ⟨⟩
  split at htemp
  · exact Block.size_of_copy htemp
  · obtain ⟨temp', h', htemp⟩ := bind_eq_ok.mp htemp
    exact (Block.size_of_copy htemp).trans (Block.size_of_copy h')

theorem Draws.withTemp (hd : Draws s s') (temp : Option (Block ScreenChar)) :
    Draws { s with tempBuffer := temp } { s' with tempBuffer := temp } := by
  obtain ⟨⟨b, d, line, fg, bg, w, hb, hd, rfl⟩, hl⟩ := hd
  exact ⟨⟨b, d, line, fg, bg, w, hb, hd, rfl⟩, hl⟩

theorem restoreBuffer_draws (hok : s.restoreBuffer = .ok s') :
    Draws { s with tempBuffer := none } s' := by
  unfold restoreBuffer at hok
  split at hok
  · rename_i hnone
    cases hok
    rw [← hnone]
    exact .refl s
  · obtain ⟨b, hb, hok⟩ := bind_eq_ok.mp hok
    obtain ⟨s₁, h₁, hok⟩ := bind_eq_ok.mp hok
    cases hok
    have hsize : b.size = s.bufferLines.size := by
      split at hb
      · exact Block.size_of_copy hb
      · obtain ⟨b', h', hb⟩ := bind_eq_ok.mp hb
        exact (Block.size_of_copy hb).trans (Block.size_of_copy h')
    exact ((Draws.bufferLines hsize).trans (setDirty_draws h₁)).withTemp none

theorem restoreBuffer_wf (h : s.Wf) (hok : s.restoreBuffer = .ok s') : s'.Wf :=
  (restoreBuffer_draws hok).wf { h with temp := fun _ htemp => by cases htemp }

theorem clearScreen_wf (h : s.Wf) (hok : s.clearScreen t = .ok s') : s'.Wf := by
  have hw := h.width_pos
  exact (clearScreen_draws hok).wf { h with column := ⟨Int.le_refl 0, by simp only; omega⟩ }

theorem clearScrollbackBuffer_wf (h : s.Wf) (hok : s.clearScrollbackBuffer t = .ok s') :
    s'.Wf := by
  obtain ⟨s₁, h₁, hok⟩ := bind_eq_ok.mp hok
  obtain ⟨s₂, h₂, hok⟩ := bind_eq_ok.mp hok
  refine (refresh_draws hok).wf ((setDirty_draws h₂).wf ?_)
  unfold dropScrollback at h₁
  split at h₁
  · obtain ⟨s₃, h₃, h₁⟩ := bind_eq_ok.mp h₁
    cases h₁
    have h₃ : s₃.Wf :=
      ((getDefaultLine_draws _ _ _ _).trans (.forUp (fun _ _ _ => clearLineAt_draws) h₃)).wf h
    have htop := h₃.top_range
    have hmax := h₃.max_pos
    refine { h₃ with
      scrollback_aligned := h₃.top_aligned
      scrollback_range := htop
      count_range := ⟨Int.le_refl 0, by simp only; omega⟩
      top_eq := ?_ }
    simp only [Int.add_zero]
    exact (wrapLine_of_lt htop.2).symm
  · cases h₁
    exact h

theorem clearBuffer_wf (h : s.Wf) (hok : s.clearBuffer t = .ok s') : s'.Wf := by
  obtain ⟨s₁, h₁, hok⟩ := bind_eq_ok.mp hok
  exact clearScrollbackBuffer_wf (clearScreen_wf h h₁) hok

/-! ## Tokens -/

theorem forUp_wf {f : Int → Screen → Res Screen}
    (hf : ∀ i s s', s.Wf → f i s = .ok s' → s'.Wf) {lo : Int} {n : Nat} (h : s.Wf)
    (hok : forUp f lo n s = .ok s') : s'.Wf :=
  forUp_inv (P := fun _ s => s.Wf) (fun i s s' _ _ => hf i s s') h hok

theorem printStringToAnsi_wf (h : s.Wf) (string : List UniChar) :
    (s.printStringToAnsi string).Wf := by
  unfold printStringToAnsi
  split
  · exact { h with }
  · exact h

theorem lineFeed_wf (h : s.Wf) (hok : s.lineFeed t = .ok s') : s'.Wf := by
  have hw := h.width_pos
  obtain ⟨s₁, h₁, hok⟩ := bind_eq_ok.mp hok
  cases hok
  have h₁ : s₁.Wf := by
    split at h₁
    · cases h₁
      exact printStringToAnsi_wf h _
    · exact setNewLine_wf h h₁
  exact h₁.withCursorX (Int.le_refl 0) h₁.width_pos

theorem putControl_wf {code : Nat} (h : s.Wf) (hok : s.putControl t code = .ok s') :
    s'.Wf := by
  unfold putControl at hok
  split at hok
  · cases hok
    exact { h with }
  · cases hok
    exact backSpace_wf h
  · exact setTab_wf h hok
  · exact lineFeed_wf h hok
  · exact lineFeed_wf h hok
  · exact lineFeed_wf h hok
  · cases hok
    exact h.withCursorX (Int.le_refl 0) h.width_pos
  · exact (deleteCharacters_draws hok).wf h
  · cases hok
    exact h

theorem putString_wf {string : List UniChar} {ascii : Bool} (h : s.Wf)
    (hok : s.putString F t string ascii = .ok s') : s'.Wf := by
  unfold putString at hok
  split at hok
  · cases hok
    exact printStringToAnsi_wf h _
  · exact setString_wf h hok

theorem designate_wf (h : s.Wf) (i : Int) (code : UInt8) : (s.designate i code).Wf :=
  { h with charsets := h.charsets }

theorem wf_of_ok (h : s.Wf) (hok : (.ok s : Res Screen) = .ok s') : s'.Wf :=
  Except.ok.inj hok ▸ h

theorem dispatch_wf {tok : VT100TCC} (h : s.Wf) (hok : s.dispatch F t tok = .ok s') :
    s'.Wf := by
  obtain ⟨type, string, code, csi⟩ := tok
  cases type with
  | string => exact putString_wf h hok
  | asciiString => exact putString_wf h hok
  | cc code => exact putControl_wf h hok
  | cub => exact wf_of_ok (cursorLeft_wf h _) hok
  | cud => exact wf_of_ok (cursorDown_wf h _) hok
  | cuf => exact wf_of_ok (cursorRight_wf h _) hok
  | cup => exact wf_of_ok (cursorToXY_wf h _ _) hok
  | cuu => exact wf_of_ok (cursorUp_wf h _) hok
  | decaln => exact (alignmentDisplay_draws hok).wf h
  | decrc => exact restoreCursorPosition_wf h hok
  | decsc => exact wf_of_ok (saveCursorPosition_wf h) hok
  | decstbm => exact wf_of_ok (setTopBottom_wf h _ _) hok
  | ed => exact (eraseInDisplay_draws hok).wf h
  | el => exact (eraseInLine_draws hok).wf h
  | hts => exact markTab_wf h hok
  | hvp => exact wf_of_ok (cursorToXY_wf h _ _) hok
  | nel => exact index_wf (h.withCursorX (Int.le_refl 0) h.width_pos) hok
  | ind => exact index_wf h hok
  | ri => exact reverseIndex_wf h hok
  | scs0 => exact wf_of_ok (designate_wf h _ _) hok
  | scs1 => exact wf_of_ok (designate_wf h _ _) hok
  | scs2 => exact wf_of_ok (designate_wf h _ _) hok
  | scs3 => exact wf_of_ok (designate_wf h _ _) hok
  | tbc =>
      simp only [dispatch] at hok
      split at hok
      · exact wf_of_ok (s := s.clearTabStop) { h with tabs := rfl } hok
      · split at hok
        · exact markTab_wf h hok
        · exact wf_of_ok h hok
  | decset =>
      refine wf_of_ok ?_ hok
      split
      · exact { h with }
      · exact h
  | decrst =>
      refine wf_of_ok ?_ hok
      split
      · exact { h with }
      · exact h
  | cha => exact wf_of_ok (cursorToX_wf h _) hok
  | vpa => exact wf_of_ok (cursorToXY_wf h _ _) hok
  | vpr => exact wf_of_ok (cursorToXY_wf h _ _) hok
  | ech => exact (eraseCharacters_draws hok).wf h
  | print =>
      refine wf_of_ok ?_ hok
      unfold printAnsi
      split
      · exact { h with }
      · split <;> exact { h with }
  | insblnk => exact (insertBlank_draws hok).wf h
  | insln => exact (insertLines_draws hok).wf h
  | delch => exact (deleteCharacters_draws hok).wf h
  | delln => exact (deleteLines_draws hok).wf h
  | su => exact forUp_wf (fun _ _ _ => scrollUp_wf) h hok
  | sd => exact forUp_wf (fun _ _ _ h hs => (scrollDown_draws hs).wf h) h hok
  | _ => exact wf_of_ok h hok

theorem putToken_wf {tok : VT100TCC} (h : s.Wf) (hok : s.putToken F t tok = .ok s') :
    s'.Wf := by
  obtain ⟨s₁, h₁, hok⟩ := bind_eq_ok.mp hok
  have h₁ := dispatch_wf h h₁
  refine wf_of_ok ?_ hok
  split
  · exact (touch_draws _ _).wf h₁
  · exact h₁

theorem control_wf {b : UInt8} (h : s.Wf) (hok : control t s b = .ok s') : s'.Wf := by
  obtain hc | hc | hc | hc | hc | hc | hc := control_cases t s b <;> rw [hc] at hok
  · exact wf_of_ok h hok
  · exact wf_of_ok (s := s.setBell) { h with } hok
  · exact wf_of_ok (backSpace_wf h) hok
  · exact setTab_wf h hok
  · exact setNewLine_wf h hok
  · exact wf_of_ok (cursorToXY_wf h _ _) hok
  · exact (deleteCharacters_draws hok).wf h

theorem getCSIParam_wf {datap : List UInt8} {k : Nat} {param : CSIParam} (h : s.Wf)
    (hok : getCSIParam t datap s = .ok (k, param, s')) : s'.Wf := by
  rw [getCSIParam_eq] at hok
  obtain ⟨s₁, h₁, hok⟩ := bind_eq_ok.mp hok
  cases hok
  exact foldlM_inv (fun _ _ _ => control_wf) h h₁

theorem decodeCsi_wf {datap : List UInt8} {tok : VT100TCC} {rmlen : Nat} (h : s.Wf)
    (hok : decodeCsi t datap s = .ok (tok, rmlen, s')) : s'.Wf := by
  obtain ⟨⟨k, param, s₁⟩, h₁, hok⟩ := bind_eq_ok.mp hok
  have hwf : s₁.Wf := getCSIParam_wf h h₁
  simp only at hok
  split at hok
  · cases hok
    exact hwf
  · split at hok
    · obtain ⟨⟨type, param'⟩, -, hok⟩ := bind_eq_ok.mp hok
      cases hok
      exact hwf
    · cases hok
      exact hwf

theorem decodeControl_wf {datap : List UInt8} {tok : VT100TCC} {rmlen : Nat} (h : s.Wf)
    (hok : decodeControl t datap s = .ok (tok, rmlen, s')) : s'.Wf := by
  unfold decodeControl at hok
  split at hok
  · exact decodeCsi_wf h hok
  · split at hok
    · cases hok
      exact h
    · split at hok
      · cases hok
        exact h
      · split at hok
        · split at hok
          · cases hok
            exact h
          · cases hok
            exact h
        · cases hok
          exact h

end Screen

end MobileTerminal
