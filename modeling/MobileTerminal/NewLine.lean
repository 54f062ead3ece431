import Mathlib.Data.List.DropRight
import MobileTerminal.Rows

/-!
# Line feeds

What a line feed and the writing of a cell do to the rows a reader sees. A line
feed in the bottom row of a screen without margins appends a blank row; when the
scrollback is full the oldest row is lost (`setNewLine_bottom`).

The ring does not move any cell for that. The pointers are advanced (`rotate`),
which makes the top visible row the last row of the scrollback, and the line
behind the old bottom row, which is the oldest of the scrollback or a free one,
becomes a default line. Counted from the start of the scrollback the rows keep
their numbers when the scrollback had room, and move down by one when it had not
(`lostRows`, `Wf.rotate_cellAt`).

The results are stated for the list of rows, so that the text on the screen and
in the scrollback is one list to which a row is appended and from whose front
one may be dropped. Printing, reading back and the resize all build on this
form.
-/

namespace MobileTerminal

namespace Screen

variable {t : Terminal} {s s' : Screen}

/-! ## Rows and cells -/

theorem Wf.rows_length_eq (h : s.Wf) :
    (s.rows.length : Int) = s.currentScrollbackLines + s.height := by
  have hc := h.count_range
  have hh := h.height_pos
  rw [rows_length, h.numberOfLines_eq]
  omega

theorem Wf.rows_length_le (h : s.Wf) : (s.rows.length : Int) ≤ s.totalHeight := by
  have hc := h.count_range
  have hT : s.totalHeight = s.maxScrollbackLines + s.height := rfl
  rw [h.rows_length_eq]
  omega

theorem Draws.rows_length_eq (hd : Draws s s') : s'.rows.length = s.rows.length := by
  obtain ⟨⟨b, d, line, fg, bg, w, -, -, rfl⟩, -⟩ := hd
  simp [numberOfLines]

theorem Draws.rows_of_eq (hd : Draws s s') (hb : s'.bufferLines = s.bufferLines) :
    s'.rows = s.rows := by
  obtain ⟨⟨b, d, line, fg, bg, w, -, -, rfl⟩, -⟩ := hd
  cases hb
  rfl

theorem row_ext {i : Nat} {row : List ScreenChar} (hlen : row.length = s.realWidth.toNat)
    (hcell : ∀ k (h : k < row.length), s.cellAt i k = row[k]) : s.row i = row := by
  apply List.ext_getElem
  · rw [row_length, hlen]
  · intro k h1 h2
    rw [row_getElem, hcell k h2]

theorem row_eq_blankRow {i : Nat} (hwidth : s'.width = s.width)
    (hcell : ∀ x, 0 ≤ x → x ≤ s.width → s'.cellAt i x = (s.blankLine t).cell x) :
    s'.row i = s.blankRow t := by
  have hrw : s'.realWidth = s.realWidth := congrArg (· + 1) hwidth
  refine row_ext (by rw [blankRow, Block.slice_length, hrw]) fun k hk => ?_
  rw [blankRow, Block.slice_length] at hk
  unfold realWidth at hk
  rw [hcell k (by omega) (by omega)]
  simp only [blankRow, Block.slice_getElem, Int.zero_add]

theorem storeCell_rows (h : s.Wf) (c : ScreenChar) {i x : Nat} (hi : i < s.rows.length)
    (hx : (x : Int) ≤ s.width) :
    ∃ s', s.storeCell (s.rowLine i * s.realWidth + x) c = .ok s' ∧ Draws s s' ∧
      s'.rows = s.rows.set i (s.rows[i].set x c) := by
  have hle := h.rows_length_le
  obtain ⟨s', hok, hd, hcells⟩ := storeCell_spec h c (i := i) (x := x) (by omega) (by omega)
    (by omega) hx
  refine ⟨s', hok, hd, ?_⟩
  apply List.ext_getElem
  · rw [hd.rows_length_eq, List.length_set]
  · intro j h1 h2
    rw [hd.rows_length_eq] at h1
    have hcol : s'.realWidth.toNat = s.realWidth.toNat := by rw [hd.realWidth_eq]
    rw [rows_getElem, List.getElem_set]
    split
    · rename_i hij
      subst hij
      refine row_ext (by simp [rows_getElem, hcol]) fun k hk => ?_
      rw [List.length_set, rows_getElem, row_length] at hk
      unfold realWidth at hk
      rw [hcells i k (by omega) (by omega) (by omega) (by omega), List.getElem_set]
      by_cases hxk : x = k
      · rw [if_pos ⟨rfl, by omega⟩, if_pos hxk]
      · simp only [rows_getElem, row_getElem]
        rw [if_neg (by omega), if_neg hxk]
    · rename_i hij
      refine row_ext (by simp [rows_getElem, hcol]) fun k hk => ?_
      rw [rows_getElem, row_length] at hk
      unfold realWidth at hk
      simp only [rows_getElem, row_getElem]
      rw [hcells j k (by omega) (by omega) (by omega) (by omega), if_neg (by omega)]

/-- Writing the character of one cell of row `i`. -/
theorem storeCh_rows (h : s.Wf) (ch : UniChar) {i x : Nat} (hi : i < s.rows.length)
    (hx : (x : Int) ≤ s.width) :
    ∃ s', s.storeCh (s.rowLine i * s.realWidth + x) ch = .ok s' ∧ Draws s s' ∧
      s'.rows = s.rows.set i (s.rows[i].set x { s.cellAt i x with ch := ch }) := by
  have hle := h.rows_length_le
  obtain ⟨h0, h1⟩ := h.cell_range (i := i) (x := x) (by omega) (by omega) (by omega) hx
  obtain ⟨s', hok, hd, hrows⟩ := storeCell_rows h { s.cellAt i x with ch := ch } hi hx
  refine ⟨s', ?_, hd, hrows⟩
  rw [h.cellAt_eq] at hok
  simp only [storeCh, Block.load_of_lt h0 h1, ok_bind, hok]

/-! ## Appending a row -/

/-- Making room in the scrollback only sets dirty flags. -/
theorem keepTopLine_spec (h : s.Wf) :
    ∃ s₁, s.keepTopLine = .ok s₁ ∧ Draws s.addLineToScrollback.2 s₁ ∧
      s₁.bufferLines = s.bufferLines := by
  have hw := h.width_pos
  have hh := h.height_pos
  have hb : s.addLineToScrollback.2.bufferLines = s.bufferLines ∧
      s.addLineToScrollback.2.width = s.width ∧ s.addLineToScrollback.2.height = s.height := by
    rw [h.addLineToScrollback_eq]
    split <;> exact ⟨rfl, rfl, rfl⟩
  simp only [keepTopLine, if_pos h.max_pos]
  split
  · obtain ⟨s₁, h₁, hd₁, hb₁⟩ := setDirty_of_area (s := s.addLineToScrollback.2)
      (by rw [hb.2.1, hb.2.2]; exact h.area_nonneg)
    exact ⟨s₁, h₁, hd₁, hb₁.trans hb.1⟩
  · have harea : 0 ≤ s.width * (s.height - 1) := Int.mul_nonneg (by omega) (by omega)
    obtain ⟨d, hd⟩ : ∃ d, s.addLineToScrollback.2.dirty.move 0 s.addLineToScrollback.2.width
        (s.addLineToScrollback.2.width * (s.addLineToScrollback.2.height - 1)) = .ok d :=
      ⟨_, if_neg (by rw [hb.2.1, hb.2.2]; omega)⟩
    obtain ⟨s₁, h₁, hd₁, hb₁⟩ := dirtyFill_spec true
      (s.addLineToScrollback.2.width * (s.addLineToScrollback.2.height - 1))
      (n := s.addLineToScrollback.2.width) (by rw [hb.2.1]; omega)
      { s.addLineToScrollback.2 with dirty := d }
    refine ⟨s₁, by rw [hd]; exact h₁, (Draws.dirty (move_size hd)).trans hd₁, hb₁.trans hb.1⟩

theorem addLineToScrollback_sameDefault (s : Screen) : SameDefault s s.addLineToScrollback.2 := by
  unfold addLineToScrollback
  split
  · simp only
    split
    · split <;> exact ⟨rfl, rfl, rfl, rfl, rfl, rfl⟩
    · exact ⟨rfl, rfl, rfl, rfl, rfl, rfl⟩
  · exact ⟨rfl, rfl, rfl, rfl, rfl, rfl⟩

theorem keepTopLine_sameDefault (hok : s.keepTopLine = .ok s') : SameDefault s s' := by
  have hadd := addLineToScrollback_sameDefault s
  unfold keepTopLine at hok
  split at hok
  · simp only at hok
    split at hok
    · exact hadd.trans (setDirty_sameDefault hok)
    · obtain ⟨d, -, hok⟩ := bind_eq_ok.mp hok
      obtain ⟨h1, h2, h3, h4, h5, h6⟩ := dirtyFill_sameDefault hok
      exact hadd.trans ⟨h1, h2, h3, h4, h5, h6⟩
  · exact setDirty_sameDefault hok

/-- How many rows are lost when one is appended. -/
def lostRows (s : Screen) : Nat := if s.currentScrollbackLines = s.maxScrollbackLines then 1 else 0

theorem Wf.rotate_cellAt (h : s.Wf) {i : Int} (hi : 0 ≤ i) (hi' : i < s.totalHeight) (x : Int) :
    s.rotate.cellAt i x = s.cellAt (i + s.lostRows) x := by
  have hs := h.scrollback_range
  have hrw := h.realWidth_pos
  have hbuf : s.rotate.bufferLines = s.bufferLines ∧ s.rotate.realWidth = s.realWidth := by
    rw [h.rotate_eq]
    split <;> exact ⟨rfl, rfl⟩
  have hline : s.rotate.rowLine i = s.rowLine (i + s.lostRows) := by
    rw [h.rotate_eq]
    unfold lostRows
    split
    · simp only [rowLine, scrollbackLine, realWidth, totalHeight] at *
      rw [line_ediv hrw]
      unfold wrapLine
      split <;> split <;> split <;> omega
    · simp [rowLine, scrollbackLine, realWidth, totalHeight]
  rw [h.rotate.cellAt_eq, h.cellAt_eq, hbuf.1, hbuf.2, hline]

theorem Wf.rotate_count (h : s.Wf) :
    s.rotate.currentScrollbackLines = s.currentScrollbackLines + 1 - s.lostRows := by
  rw [h.rotate_eq, lostRows]
  split
  · simp only
    omega
  · simp

theorem Wf.rotate_top (h : s.Wf) : s.rotate.topLine = wrapLine s.totalHeight (s.topLine + 1) := by
  rw [h.rotate_eq]
  split <;> exact line_ediv h.realWidth_pos

/-- The part of a line feed that touches the cells: the ring is rotated and the
bottom row becomes a default line. -/
theorem setNewLine_cells (h : s.Wf) (t : Terminal) (hm : s.FullMargins)
    (hy : s.height - 1 ≤ s.cursorY) :
    ∃ s', s.setNewLine t = .ok s' ∧ Draws s.rotate s' ∧ s'.blankLine t = s.blankLine t ∧
      ∀ i x, 0 ≤ i → i < s.totalHeight → 0 ≤ x → x ≤ s.width →
        s'.cellAt i x = if i = s.rotate.currentScrollbackLines + (s.height - 1)
          then (s.blankLine t).cell x else s.cellAt (i + s.lostRows) x := by
  have hh := h.height_pos
  obtain ⟨s₁, h₁, hkeep, hb₁⟩ := keepTopLine_spec h
  have hdown : ¬(s.cursorY < s.scrollBottom ∨
      s.cursorY < s.height - 1 ∧ s.cursorY > s.scrollBottom) := by
    rw [hm.2]
    omega
  have hptr : s₁.screenTop = s.screenTop ∧ s₁.width = s.width := by
    obtain ⟨⟨b, d, line, fg, bg, w, -, -, rfl⟩, -⟩ := hkeep
    rw [h.addLineToScrollback_eq]
    split <;> exact ⟨rfl, rfl⟩
  -- the rotated screen, with other dirty flags
  have hd₂ := hkeep.withScreenTop (incrementLinePointer s.screenTop s.totalHeight s.width).1
  have hrot : s.rotate.totalHeight = s.totalHeight ∧ s.rotate.height = s.height ∧
      s.rotate.width = s.width ∧ s.rotate.bufferLines = s.bufferLines := by
    rw [h.rotate_eq]
    split <;> exact ⟨rfl, rfl, rfl, rfl⟩
  generalize hs₂ : { s₁ with
    screenTop := (incrementLinePointer s.screenTop s.totalHeight s.width).1 } = s₂ at hd₂
  change Draws s.rotate s₂ at hd₂
  have hb₂ : s₂.bufferLines = s.rotate.bufferLines := by
    rw [← hs₂, hrot.2.2.2]
    exact hb₁
  have hwf₂ := hd₂.wf h.rotate
  have hheight : s₂.height = s.height := hd₂.height_eq.trans hrot.2.1
  have htotal : s₂.totalHeight = s.totalHeight := hd₂.totalHeight_eq.trans hrot.1
  have hwidth : s₂.width = s.width := hd₂.width_eq.trans hrot.2.2.1
  have hlast := hwf₂.visible_range (y := s.height - 1) (by omega) (by omega)
  have hblank : s₂.blankLine t = s.blankLine t := by
    rw [← hs₂, ← (keepTopLine_sameDefault h₁).blankLine_eq]
    exact SameDefault.blankLine_eq ⟨rfl, rfl, rfl, rfl, rfl, rfl⟩
  obtain ⟨s', h', hd', hcells⟩ := setDefaultLine_cells hwf₂ t hlast.1 hlast.2
  refine ⟨s', ?_, hd₂.trans hd', (setDefaultLine_blankLine h').trans hblank, ?_⟩
  · have hline := hwf₂.visibleLine (y := s.height - 1) (by omega) (by omega)
    have hnext : (incrementLinePointer s₁.screenTop s.totalHeight s₁.width).1 =
        (incrementLinePointer s.screenTop s.totalHeight s.width).1 := by rw [hptr.1, hptr.2]
    rw [setNewLine, if_neg hdown, if_pos hm, h₁, ok_bind]
    simp only [hnext, hs₂]
    rw [show s₁.height = s.height by rw [← hheight, ← hs₂], hline, ok_bind, h']
  · intro i x hi hi' hx hx'
    rw [hcells i x hi (by omega) hx (by omega), hd₂.count_eq, hblank,
      hd₂.cellAt_of_eq h.rotate hb₂, h.rotate_cellAt hi hi']

/-- A line feed at the bottom of a screen without margins appends a default line. -/
theorem setNewLine_addsBlank (h : s.Wf) (t : Terminal) (hm : s.FullMargins)
    (hy : s.height - 1 ≤ s.cursorY) :
    ∃ s', s.setNewLine t = .ok s' ∧ Draws s.rotate s' ∧ s'.blankLine t = s.blankLine t ∧
      s'.rows = (s.rows ++ [s.blankRow t]).rtake s.totalHeight.toNat := by
  have hh := h.height_pos
  have hT : s.totalHeight = s.maxScrollbackLines + s.height := rfl
  have hmax := h.max_pos
  have hlen := h.rows_length_eq
  have hle := h.rows_length_le
  have hc := h.rotate_count
  have hlost : s.lostRows = s.rows.length + 1 - s.totalHeight.toNat := by
    have hcount := h.count_range
    unfold lostRows
    split <;> omega
  obtain ⟨s', hok, hd, hblank, hcells⟩ := setNewLine_cells h t hm hy
  have hrot : s.rotate.height = s.height ∧ s.rotate.width = s.width := by
    rw [h.rotate_eq]
    split <;> exact ⟨rfl, rfl⟩
  have hwidth : s'.width = s.width := hd.width_eq.trans hrot.2
  have hrw : s'.realWidth = s.realWidth := congrArg (· + 1) hwidth
  have hlen' : (s'.rows.length : Int) = s.rows.length + 1 - s.lostRows := by
    rw [(hd.wf h.rotate).rows_length_eq, hd.count_eq, hd.height_eq, hrot.1, hc]
    omega
  refine ⟨s', hok, hd, hblank, ?_⟩
  apply List.ext_getElem
  · rw [List.rtake, List.length_drop, List.length_append, List.length_singleton]
    omega
  · intro i h1 h2
    simp only [List.rtake, List.getElem_drop, List.length_append, List.length_singleton, ← hlost]
    rw [rows_getElem]
    by_cases hlast : s.lostRows + i < s.rows.length
    · rw [List.getElem_append_left hlast, rows_getElem]
      refine row_ext (by rw [row_length, hrw]) fun k hk => ?_
      rw [row_length] at hk
      unfold realWidth at hk
      rw [row_getElem, hcells i k (by omega) (by omega) (by omega) (by omega), if_neg (by omega)]
      congr 1
      omega
    · rw [List.getElem_append_right (by omega)]
      simp only [List.getElem_singleton]
      refine row_eq_blankRow hwidth fun x hx hx' => ?_
      rw [hcells i x (by omega) (by omega) hx hx', if_pos (by omega)]

/-- A line feed in the bottom row of a screen without margins appends a blank row. -/
theorem setNewLine_bottom (h : s.Wf) (t : Terminal) (hm : s.FullMargins)
    (hy : s.cursorY = s.height - 1) :
    ∃ s' new, s.setNewLine t = .ok s' ∧ Draws s.rotate s' ∧
      s'.rows = (s.rows ++ [new]).rtake s.totalHeight.toNat ∧
      new.length = s.realWidth.toNat ∧ ∀ c ∈ new, c.isNul = true := by
  obtain ⟨s', hok, hd, -, hrows⟩ := setNewLine_addsBlank h t hm (by omega)
  refine ⟨s', s.blankRow t, hok, hd, hrows, Block.slice_length _ _ _, ?_⟩
  intro c hc
  simpa [ScreenChar.isNul] using h.blankRow_nul t c hc

end Screen

end MobileTerminal
