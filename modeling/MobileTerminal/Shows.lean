import MobileTerminal.Refine
import MobileTerminal.Display
import MobileTerminal.History
import MobileTerminal.Index
import MobileTerminal.Splice

/-!
# What a screen shows

`Shows t s d`: terminal `t` and screen `s` show the display `d`. The cursor and
the other controls are the same, the visible cells hold the characters of the
grid, the alternate buffer those of the picture put aside, and the rows of the
scrollback are the rows that have left the display. Where the rows lie in the
ring, what is cached and what is dirty does not matter.

For each operation of the screen a lemma here says that it completes and ends
with a screen that shows what the operation of the display makes of `d`; what it
asks for is what the code needs. The lemmas are named like the operations.

There are three ways to get them. Operations that only write flags or the cached
line are not seen (`Shows.unseen`). Operations that draw change the visible
cells and leave the scrollback (`Shows.draws`), and for those that edit the
cursor's row or move rows the cells have been computed already by the modules on
splices. Last, a line feed at the end of a screen without margins turns the
ring, and its top row becomes the last one of the scrollback
(`Shows.scrollUpFull`).
-/

namespace MobileTerminal

variable {F : Foundation} {t : Terminal}

namespace Screen

def controls (t : Terminal) (s : Screen) : Controls where
  width := s.width
  height := s.height
  cursorX := s.cursorX
  cursorY := s.cursorY
  saveCursorX := s.saveCursorX
  saveCursorY := s.saveCursorY
  scrollTop := s.scrollTop
  scrollBottom := s.scrollBottom
  tabStop := s.tabStop
  charset := s.charset
  saveCharset := s.saveCharset
  soundBell := s.soundBell
  maxScrollbackLines := s.maxScrollbackLines
  printToAnsi := s.printToAnsi
  printToAnsiString := s.printToAnsiString
  printPending := s.printPending
  newWidth := s.newWidth
  newHeight := s.newHeight
  originMode := t.originMode
  columnMode := t.columnMode
  allowColumnMode := t.allowColumnMode
  shift := t.charset
  saveShift := t.saveCharset

variable {s s' : Screen} {d : Display}

/-- The characters of a row. -/
def text (row : List ScreenChar) : List UniChar := row.map ScreenChar.ch

/-- The saved cells hold the characters of the picture put aside. -/
def PutAside (s : Screen) (temp : Block ScreenChar) (g : Int → Int → UniChar) : Prop :=
  ∀ y x, 0 ≤ y → y < s.height → 0 ≤ x → x ≤ s.width → (temp.cell (y * s.realWidth + x)).ch = g y x

structure Shows (t : Terminal) (s : Screen) (d : Display) : Prop where
  controls : s.controls t = d.toControls
  cells : ∀ y x, 0 ≤ y → y < s.height → 0 ≤ x → x ≤ s.width → (s.visibleCell y x).ch = d.cell y x
  saved : Option.Rel s.PutAside s.tempBuffer d.saved
  scrollback : s.scrollbackRows.map text = d.scrollback

theorem Draws.controls_eq (hd : Draws s s') : s'.controls t = s.controls t := by
  obtain ⟨⟨b, d, line, fg, bg, w, -, -, rfl⟩, -⟩ := hd
  rfl

namespace Shows

theorem width (h : Shows t s d) : d.width = s.width := congrArg Controls.width h.controls.symm

theorem height (h : Shows t s d) : d.height = s.height := congrArg Controls.height h.controls.symm

theorem cursorX (h : Shows t s d) : d.cursorX = s.cursorX :=
  congrArg Controls.cursorX h.controls.symm

theorem cursorY (h : Shows t s d) : d.cursorY = s.cursorY :=
  congrArg Controls.cursorY h.controls.symm

theorem scrollTop (h : Shows t s d) : d.scrollTop = s.scrollTop :=
  congrArg Controls.scrollTop h.controls.symm

theorem scrollBottom (h : Shows t s d) : d.scrollBottom = s.scrollBottom :=
  congrArg Controls.scrollBottom h.controls.symm

theorem full_iff (h : Shows t s d) : d.FullMargins ↔ s.FullMargins := by
  rw [Display.FullMargins, h.scrollTop, h.scrollBottom, h.height, Screen.FullMargins]

theorem cellAt (h : Shows t s d) (hwf : s.Wf) {y x : Int} (hy : 0 ≤ y) (hy' : y < s.height)
    (hx : 0 ≤ x) (hx' : x ≤ s.width) :
    (s.cellAt (s.currentScrollbackLines + y) x).ch = d.cell y x := by
  rw [← hwf.visibleCell_eq hy hy']
  exact h.cells y x hy hy' hx hx'

theorem touch (h : Shows t s d) (i : Int) : Shows t (s.touch i) d :=
  ⟨h.controls, h.cells, h.saved, h.scrollback⟩

theorem touch_ite (h : Shows t s d) {p : Prop} [Decidable p] (i : Int) :
    Shows t (if p then s.touch i else s) d := by
  split
  · exact h.touch i
  · exact h

/-- The screen is drawn on: the scrollback stays, the visible cells become those of `g`. -/
theorem draws (h : Shows t s d) (hwf : s.Wf) (hd : Draws s s') {g : Int → Int → UniChar}
    (hcells : ∀ y x, 0 ≤ y → y < s.height → 0 ≤ x → x ≤ s.width →
      (s'.cellAt (s.currentScrollbackLines + y) x).ch = g y x)
    (hback : ∀ i x, 0 ≤ i → i < s.currentScrollbackLines → 0 ≤ x → x ≤ s.width →
      s'.cellAt i x = s.cellAt i x) : Shows t s' { d with cell := g } where
  controls := hd.controls_eq.trans h.controls
  cells y x hy hy' hx hx' := by
    rw [hd.height_eq] at hy'
    rw [hd.width_eq] at hx'
    rw [hd.visibleCell_eq hwf hy hy']
    exact hcells y x hy hy' hx hx'
  saved := by
    obtain ⟨⟨b, d', line, fg, bg, w, -, -, rfl⟩, -⟩ := hd
    exact h.saved
  scrollback := by
    rw [hwf.scrollbackRows_congr (hd.wf hwf) hd.width_eq hd.count_eq hback]
    exact h.scrollback

/-- Flags are drawn, or the cached line is built: nothing is to be seen of it. -/
theorem unseen (h : Shows t s d) (hwf : s.Wf) (hd : Draws s s')
    (hb : s'.bufferLines = s.bufferLines) : Shows t s' d := by
  have hcell := hd.cellAt_of_eq hwf hb
  exact h.draws hwf hd (fun y x hy hy' hx hx' => (hcell _ x).symm ▸ h.cellAt hwf hy hy' hx hx')
    fun i x _ _ _ _ => hcell i x

theorem changesRow (h : Shows t s d) (hwf : s.Wf) (hy : s.OnScreen) (hd : Draws s s')
    (hc : ChangesOnly (· = s.cursorRow) s s') {g : Int → Int → UniChar}
    (hrow : ∀ x, 0 ≤ x → x ≤ s.width → (s'.cellAt s.cursorRow x).ch = g s.cursorY x)
    (hother : ∀ y x, y ≠ s.cursorY → g y x = d.cell y x) : Shows t s' { d with cell := g } := by
  have hrange := hwf.count_range
  have hheight := hwf.height_pos
  have hT : s.totalHeight = s.maxScrollbackLines + s.height := rfl
  refine h.draws hwf hd (fun y x hy hy' hx hx' => ?_) fun i x hi hi' hx hx' => ?_
  · by_cases heq : y = s.cursorY
    · subst heq
      exact hrow x hx hx'
    · rw [hc.cells _ x (by omega) (by omega) hx hx' (by unfold cursorRow; omega),
        h.cellAt hwf hy hy' hx hx', hother y x heq]
  · refine hc.cells i x hi (by omega) hx hx' fun heq => ?_
    unfold OnScreen at hy
    unfold cursorRow at heq
    omega

end Shows

/-! ## The row of the cursor -/

variable {n p : Int}

theorem clampCells_min (hwf : s.Wf) (hn : 0 ≤ n) (hmax : n + s.cursorX < 2 ^ 31) :
    s.clampCells n = min n (s.width - s.cursorX) := by
  have hcol := hwf.column
  rw [clampCells_eq hwf hn hmax, spliceLength]
  omega

namespace Shows

theorem rowCell (h : Shows t s d) (hwf : s.Wf) (hy : s.OnScreen) {x : Int} (hx : 0 ≤ x)
    (hx' : x ≤ s.width) : (s.cellAt s.cursorRow x).ch = d.cell s.cursorY x :=
  h.cellAt hwf hy.1 hy.2 hx hx'

theorem insertBlank (h : Shows t s d) (hwf : s.Wf) (hy : s.OnScreen) (hn : 0 ≤ n)
    (hmax : n + s.cursorX < 2 ^ 31) :
    Refines (Shows t) (s.insertBlank t n) (d.insertBlank n) := by
  have hcol := hwf.column
  obtain ⟨s', hok, hd, hsp⟩ := insertBlank_splices (t := t) hwf hy hn hmax
  refine ⟨s', hok, h.changesRow hwf hy hd hsp.others (fun x hx hx' => ?_) fun y x hne => ?_⟩
  · rw [insertBlank_cells hwf hy hn hmax hok x hx hx', Cells.insertColumns, h.cursorY, h.cursorX,
      h.width, clampCells_min hwf hn hmax]
    by_cases hin : s.cursorX ≤ x ∧ x < s.width
    · rw [if_pos (show s.cursorY = s.cursorY ∧ _ from ⟨rfl, hin⟩)]
      by_cases hgap : x < s.cursorX + n
      · rw [if_pos (by omega), if_pos hgap]
        rfl
      · rw [if_neg (by omega), if_pos hin, if_neg hgap, min_eq_left (by omega)]
        exact h.rowCell hwf hy (by omega) (by omega)
    · rw [if_neg (by omega), if_neg hin, if_neg fun hin' => hin hin'.2]
      exact h.rowCell hwf hy hx hx'
  · exact if_neg fun heq => hne (heq.1.trans h.cursorY)

theorem deleteCharacters (h : Shows t s d) (hwf : s.Wf) (hy : s.OnScreen) (hn : 0 ≤ n)
    (hmax : n + s.cursorX < 2 ^ 31) :
    Refines (Shows t) (s.deleteCharacters t n) (d.deleteCharacters n) := by
  have hcol := hwf.column
  obtain ⟨s', hok, hd, hsp⟩ := deleteCharacters_splices (t := t) hwf hy hn hmax
  refine ⟨s', hok, h.changesRow hwf hy hd hsp.others (fun x hx hx' => ?_) fun y x hne => ?_⟩
  · rw [deleteCharacters_cells hwf hy hn hmax hok x hx hx', Cells.deleteColumns, h.cursorY,
      h.cursorX, h.width, clampCells_min hwf hn hmax]
    by_cases hin : s.cursorX ≤ x ∧ x < s.width
    · rw [if_pos (show s.cursorY = s.cursorY ∧ _ from ⟨rfl, hin⟩)]
      by_cases hkept : x + n < s.width
      · rw [if_neg (by omega), if_pos hin, if_pos hkept, min_eq_left (by omega)]
        exact h.rowCell hwf hy (by omega) (by omega)
      · rw [if_pos (by omega), if_neg hkept]
        rfl
    · rw [if_neg (by omega), if_neg hin, if_neg fun hin' => hin hin'.2]
      exact h.rowCell hwf hy hx hx'
  · exact if_neg fun heq => hne (heq.1.trans h.cursorY)

theorem eraseCharacters (h : Shows t s d) (hwf : s.Wf) (hy : s.OnScreen) (hn : 0 ≤ n)
    (hmax : n + s.cursorX < 2 ^ 31) :
    Refines (Shows t) (s.eraseCharacters t n) (d.eraseCharacters n) := by
  have hcol := hwf.column
  obtain ⟨s', hok, hd, hsp⟩ := eraseCharacters_splices (t := t) hwf hy hn hmax
  refine ⟨s', hok, h.changesRow hwf hy hd hsp.others (fun x hx hx' => ?_) fun y x hne => ?_⟩
  · rw [eraseCharacters_cells hwf hy hn hmax hok x hx hx', Cells.fill, h.cursorY, h.cursorX,
      h.width, clampCells_min hwf hn hmax]
    by_cases hin : s.cursorX ≤ x ∧ x < min (s.cursorX + n) s.width
    · rw [if_pos (by omega), if_pos ⟨rfl, hin⟩]
      rfl
    · rw [if_neg (by omega), if_neg fun hin' => hin hin'.2]
      exact h.rowCell hwf hy hx hx'
  · exact if_neg fun heq => hne (heq.1.trans h.cursorY)

/-- Blank cells from column `x1` up to `x2`, and flags. -/
theorem eraseColumns (h : Shows t s d) (hwf : s.Wf) (hy : s.OnScreen) {x1 x2 : Int} (h1 : 0 ≤ x1)
    (h12 : x1 ≤ x2) (h2 : x2 ≤ s.width) :
    Refines (Shows t) (do
        let aLine ← s.getLineAtScreenIndex s.cursorY
        let s ← s.blankCells t (aLine + x1) (x2 - x1).toNat
        s.dirtyFill true (s.cursorY * s.width + x1) (x2 - x1))
      { d with cell := Cells.fill d.cursorY x1 x2 0 d.cell } := by
  obtain ⟨hi, hi'⟩ := hwf.cursorRow_range hy
  have hwidth : s.realWidth = s.width + 1 := rfl
  obtain ⟨s₁, h₁⟩ := blankInRow_total (m := (x2 - x1).toNat) hwf t hi hi' h1 (by omega)
  have hd₁ := blankCells_draws h₁
  obtain ⟨s', hfill, hd', hb⟩ := dirtyFill_spec true (s₁.cursorY * s₁.width + x1)
    (show 0 ≤ x2 - x1 by omega) s₁
  refine ⟨s', by rw [hwf.cursorLine hy, ok_bind, h₁, ok_bind, hfill], ?_⟩
  refine Shows.unseen (h.changesRow hwf hy hd₁ (blankCells_changes hwf hi hi' h1 (by omega) h₁)
    (fun x hx hx' => ?_) fun y x hne => ?_) (hd₁.wf hwf) hd' hb
  · rw [blankInRow_cells hwf hi hi' h1 (by omega) h₁ x hx hx', Cells.fill, h.cursorY]
    by_cases hin : x1 ≤ x ∧ x < x2
    · rw [if_pos (by omega), if_pos ⟨rfl, hin⟩]
      rfl
    · rw [if_neg (by omega), if_neg fun hin' => hin hin'.2]
      exact h.rowCell hwf hy hx hx'
  · exact if_neg fun heq => hne (heq.1.trans h.cursorY)

theorem eraseInLine (h : Shows t s d) (hwf : s.Wf) (hy : s.OnScreen) (p : Int) :
    Refines (Shows t) (s.eraseInLine t p) (d.eraseInLine p) := by
  have hcol := hwf.column
  unfold Screen.eraseInLine Display.eraseInLine
  by_cases h0 : p = 0
  · subst h0
    have := h.eraseColumns hwf hy hcol.1 hcol.2.le (Int.le_refl _)
    simpa [h.cursorX, h.width] using this
  · by_cases h1 : p = 1
    · subst h1
      have := h.eraseColumns hwf hy (Int.le_refl 0) (show 0 ≤ s.cursorX + 1 by omega) hcol.2
      simpa [h.cursorX, hcol.2] using this
    · by_cases h2 : p = 2
      · subst h2
        have := h.eraseColumns hwf hy (Int.le_refl 0) (show 0 ≤ s.width by omega) (Int.le_refl _)
        simpa [h.width] using this
      · -- an unknown parameter erases nothing
        have := h.eraseColumns hwf hy (Int.le_refl 0) (Int.le_refl 0) (show 0 ≤ s.width by omega)
        have hnone : Cells.fill d.cursorY 0 0 0 d.cell = d.cell := by
          funext y x
          exact if_neg (by omega)
        rw [hnone] at this
        simpa [h0, h1, h2] using this

/-! ## Rows of the screen -/

/-- Cells that are described by the number of their row, the scrollback first. -/
theorem drawsRows (h : Shows t s d) (hwf : s.Wf) (hd : Draws s s') {f : Int → Int → ScreenChar}
    {g : Int → Int → UniChar}
    (hcells : ∀ j x, 0 ≤ j → j < s.totalHeight → 0 ≤ x → x ≤ s.width → s'.cellAt j x = f j x)
    (hvisible : ∀ y x, 0 ≤ y → y < s.height → 0 ≤ x → x ≤ s.width →
      (f (s.currentScrollbackLines + y) x).ch = g y x)
    (hback : ∀ j x, j < s.currentScrollbackLines → f j x = s.cellAt j x) :
    Shows t s' { d with cell := g } := by
  have hrange := hwf.count_range
  have hheight := hwf.height_pos
  have hT : s.totalHeight = s.maxScrollbackLines + s.height := rfl
  refine h.draws hwf hd (fun y x hy hy' hx hx' => ?_) fun i x hi hi' hx hx' => ?_
  · rw [hcells _ x (by omega) (by omega) hx hx']
    exact hvisible y x hy hy' hx hx'
  · rw [hcells i x hi (by omega) hx hx']
    exact hback i x hi'

theorem insertLines (h : Shows t s d) (hwf : s.Wf) (hn : s.LinesFit n)
    (hle : s.cursorY ≤ s.scrollBottom) :
    Refines (Shows t) (s.insertLines t n) (d.insertLines n) := by
  have hm := hwf.margins
  obtain ⟨s', hok, hd, hcells⟩ := insertLines_cells hwf t hn hle
  obtain ⟨⟨hy, -⟩, -, hn0, -⟩ := hn
  refine ⟨s', hok, h.drawsRows hwf hd hcells (fun y x hy0 hy' hx hx' => ?_) fun j x hj => ?_⟩
  · rw [Cells.insertRows, h.cursorY, h.scrollBottom, linesSpliced]
    by_cases hin : s.cursorY ≤ y ∧ y ≤ s.scrollBottom
    · rw [if_pos hin]
      by_cases hgap : y < s.cursorY + n
      · rw [if_pos (by omega), if_pos hgap, (hwf.blankLine_ok t).2]
      · rw [if_neg (by omega), if_pos (by omega), if_neg hgap, min_eq_left (by omega),
          show s.currentScrollbackLines + y - n = s.currentScrollbackLines + (y - n) by omega]
        exact h.cellAt hwf (by omega) (by omega) hx hx'
    · rw [if_neg (by omega), if_neg (by omega), if_neg hin]
      exact h.cellAt hwf hy0 hy' hx hx'
  · rw [if_neg (by omega), if_neg (by unfold linesSpliced; omega)]

theorem deleteLines (h : Shows t s d) (hwf : s.Wf) (hn : s.LinesFit n)
    (hle : s.cursorY ≤ s.scrollBottom) :
    Refines (Shows t) (s.deleteLines t n) (d.deleteLines n) := by
  have hm := hwf.margins
  obtain ⟨s', hok, hd, hcells⟩ := deleteLines_cells hwf t hn hle
  obtain ⟨⟨hy, -⟩, -, hn0, -⟩ := hn
  refine ⟨s', hok, h.drawsRows hwf hd hcells (fun y x hy0 hy' hx hx' => ?_) fun j x hj => ?_⟩
  · rw [Cells.deleteRows, h.cursorY, h.scrollBottom, linesSpliced]
    by_cases hin : s.cursorY ≤ y ∧ y ≤ s.scrollBottom
    · rw [if_pos hin]
      by_cases hkept : y + n ≤ s.scrollBottom
      · rw [if_pos (by omega), if_pos hkept, min_eq_left (by omega), Int.add_assoc]
        exact h.cellAt hwf (by omega) (by omega) hx hx'
      · rw [if_neg (by omega), if_pos (by omega), if_neg hkept, (hwf.blankLine_ok t).2]
    · rw [if_neg (by omega), if_neg (by omega), if_neg hin]
      exact h.cellAt hwf hy0 hy' hx hx'
  · rw [if_neg (by omega), if_neg (by omega)]

/-! ## Scrolling -/

theorem scrollUpRegion (h : Shows t s d) (hwf : s.Wf) (hm : s.scrollTop < s.scrollBottom)
    (hfull : ¬s.FullMargins) (hfront : s.RegionInFront) :
    Refines (Shows t) (s.scrollUp t) d.scrollUp := by
  have hmar := hwf.margins
  obtain ⟨s', hok, hd, hcells⟩ := scrollUp_cells hwf t hm hfull hfront
  rw [Display.scrollUp, if_neg fun hd => hfull (h.full_iff.mp hd)]
  refine ⟨s', hok, h.drawsRows hwf hd hcells (fun y x hy hy' hx hx' => ?_) fun j x hj => ?_⟩
  · rw [Cells.deleteRows, h.scrollTop, h.scrollBottom, firstRow, lastRow]
    by_cases hin : s.scrollTop ≤ y ∧ y ≤ s.scrollBottom
    · rw [if_pos hin]
      by_cases hlast : y + 1 ≤ s.scrollBottom
      · rw [if_pos (by omega), if_pos hlast, Int.add_assoc]
        exact h.cellAt hwf (by omega) (by omega) hx hx'
      · rw [if_neg (by omega), if_pos (by omega), if_neg hlast, (hwf.blankLine_ok t).2]
    · rw [if_neg (by omega), if_neg (by omega), if_neg hin]
      exact h.cellAt hwf hy hy' hx hx'
  · rw [if_neg (by unfold firstRow; omega), if_neg (by unfold lastRow; omega)]

theorem scrollDown (h : Shows t s d) (hwf : s.Wf) (hm : s.scrollTop < s.scrollBottom)
    (hfront : s.RegionInFront) : Refines (Shows t) (s.scrollDown t) d.scrollDown := by
  have hmar := hwf.margins
  obtain ⟨s', hok, hs⟩ := scrollDown_spec hwf t hm hfront
  have hd := scrollDown_draws hok
  refine ⟨s', hok, h.draws hwf hd (fun y x hy hy' hx hx' => ?_) hs.scrollback⟩
  rw [Cells.insertRows, h.scrollTop, h.scrollBottom, ← hd.visibleCell_eq hwf hy hy']
  by_cases hin : s.scrollTop ≤ y ∧ y ≤ s.scrollBottom
  · rw [if_pos hin]
    by_cases hfirst : y < s.scrollTop + 1
    · obtain rfl : y = s.scrollTop := by omega
      rw [if_pos hfirst, hs.blank x hx hx']
    · rw [if_neg hfirst, hs.moved y x (by omega) hin.2 hx hx']
      exact h.cells (y - 1) x (by omega) (by omega) hx hx'
  · rw [if_neg hin, hs.outside y x hy hy' (by omega) hx hx']
    exact h.cells y x hy hy' hx hx'

theorem row_text (h : Shows t s d) (hwf : s.Wf) {y : Nat} (hy : (y : Int) < s.height) :
    text (s.row (s.currentScrollbackLines.toNat + y)) = d.row y := by
  have hrange := hwf.count_range
  have hwidth : s.realWidth = s.width + 1 := rfl
  apply List.ext_getElem
  · rw [text, List.length_map, row_length, Display.row, List.length_map, List.length_range, h.width,
      hwidth]
  · intro x hx hx'
    have hxw : (x : Int) ≤ s.width := by
      rw [text, List.length_map, row_length] at hx
      omega
    simp only [text, Display.row, List.getElem_map, List.getElem_range, row_getElem]
    rw [Int.natCast_add, Int.toNat_of_nonneg hrange.1]
    exact h.cellAt hwf (Int.natCast_nonneg y) hy (Int.natCast_nonneg x) hxw

theorem rotate_controls (hwf : s.Wf) : s.rotate.controls t = s.controls t := by
  rw [hwf.rotate_eq]
  split <;> rfl

/-- A line feed in the last row of a screen without margins: the top row leaves. -/
theorem scrollUpFull (h : Shows t s d) (hwf : s.Wf) (hfull : s.FullMargins)
    (hy : s.cursorY = s.height - 1) : Refines (Shows t) (s.setNewLine t) d.scrollUp := by
  have hheight := hwf.height_pos
  have hrange := hwf.count_range
  have hcount := hwf.rotate_count
  have hlost : (s.lostRows : Int) = 1 ∧ s.currentScrollbackLines = s.maxScrollbackLines ∨
      (s.lostRows : Int) = 0 ∧ s.currentScrollbackLines ≠ s.maxScrollbackLines := by
    unfold lostRows
    split
    · exact Or.inl ⟨rfl, ‹_›⟩
    · exact Or.inr ⟨rfl, ‹_›⟩
  have hT : s.totalHeight = s.maxScrollbackLines + s.height := rfl
  obtain ⟨s', hok, hd, -, hcells⟩ := setNewLine_cells hwf t hfull (by omega)
  have hsize := feed_size hwf hfull hy hok
  refine ⟨s', hok, ?_, ?_, ?_, ?_⟩
  · exact hd.controls_eq.trans ((rotate_controls hwf).trans h.controls)
  · intro y x hy0 hy' hx hx'
    rw [hsize.height_eq] at hy'
    rw [hsize.width_eq] at hx'
    have hvis : s'.visibleCell y x = s'.cellAt (s.rotate.currentScrollbackLines + y) x :=
      hd.visibleCell_eq hwf.rotate hy0 (by rw [← hd.height_eq, hsize.height_eq]; exact hy') x
    rw [hvis, hcells _ x (by omega) (by omega) hx hx']
    simp only [Display.scrollUp, Cells.deleteRows]
    rw [h.scrollTop, h.scrollBottom, hfull.1, hfull.2, if_pos (show 0 ≤ y ∧ _ by omega)]
    by_cases hlast : y + 1 ≤ s.height - 1
    · rw [if_neg (by omega), if_pos hlast, show s.rotate.currentScrollbackLines + y + s.lostRows =
        s.currentScrollbackLines + (y + 1) by omega]
      exact h.cellAt hwf (by omega) (by omega) hx hx'
    · rw [if_pos (by omega), if_neg hlast, (hwf.blankLine_ok t).2]
  · have hkeep := setNewLine_keeps hok
    have haside : s'.PutAside = s.PutAside := by
      funext temp g
      rw [PutAside, PutAside, realWidth, realWidth, hsize.height_eq, hsize.width_eq]
    rw [hkeep.temp_eq, haside]
    exact h.saved
  · have hmax : d.maxScrollbackLines = s.maxScrollbackLines :=
      congrArg Controls.maxScrollbackLines h.controls.symm
    have hlen := hwf.visibleRows_length
    have htop : s.visibleRows.take 1 = [s.row (s.currentScrollbackLines.toNat + 0)] := by
      rw [List.take_one, List.head?_eq_getElem?, List.getElem?_eq_getElem (by omega),
        visibleRows_getElem]
      rfl
    rw [feed_scrollback hwf hfull hy hok, htop]
    simp only [Display.scrollUp, List.rtake, List.map_drop, List.map_append, List.map_cons,
      List.map_nil, List.length_append, List.length_cons, List.length_nil]
    rw [h.row_text hwf (by omega), ← h.scrollback, List.length_map, hmax,
      if_pos (h.full_iff.mpr hfull)]
    rfl

end Shows

end Screen

end MobileTerminal
