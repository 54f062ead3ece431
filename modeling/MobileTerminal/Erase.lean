import MobileTerminal.Sequence

/-!
# Erasing in the display

The loop of `eraseInDisplay:` walks over raw cells. Counted from the first cell
of the scrollback, cell `p` has the address `wrapLine B (scrollback_top + p)` in
a buffer of `B` cells, so the loop clears an interval of such positions
(`eraseLoop_spec`): the right one, as long as it starts inside the buffer or
just at its end.

The loop wraps its pointer by one comparison in each round, and the start of it
is `screen_top + idx1` without a wrap. Parameters 1 and 2 start at the first
visible cell, which is in the buffer. Parameter 0 starts at the cursor; when the
screen lies across the end of the ring and the cursor in the part behind it, the
start lies behind the end of the buffer, and the first round takes it for the
first cell. Then as many cells are cleared as should be, but from the start of
the buffer on: `Misplaced` names them by their positions.

So the result is right exactly when the start is not behind, or what is cleared
and what is left are blank anyway (`eraseInDisplay_iff`). The proof never looks
into the ring: both cases are the same loop lemma at two starts, and the
comparison is one of intervals of positions.
-/

namespace MobileTerminal

namespace Screen

variable {t : Terminal} {s s' : Screen}

/-- The number of cells of the buffer. -/
def bufferCells (s : Screen) : Int := s.totalHeight * s.realWidth

/-- The address of the cell that is `p` cells after the start of the scrollback. -/
def address (s : Screen) (p : Int) : Int := wrapLine s.bufferCells (s.scrollbackTop + p)

/-- The position of column `x` of row `i`. -/
def position (s : Screen) (i x : Int) : Int := i * s.realWidth + x

/-- The first visible cell. -/
def screenStart (s : Screen) : Int := s.currentScrollbackLines * s.realWidth

/-- The number of cells of the visible rows, marks included. -/
def screenCells (s : Screen) : Int := s.height * s.realWidth

/-- The products of line numbers and the line length, as linear facts. -/
theorem Wf.cells_range (h : s.Wf) :
    0 ≤ s.scrollbackTop ∧ s.scrollbackTop < s.bufferCells ∧ 0 ≤ s.screenStart ∧
      0 < s.screenCells ∧ s.screenStart + s.screenCells ≤ s.bufferCells := by
  have hrw := h.realWidth_pos
  have hs := h.scrollback_range
  have hc := h.count_range
  have hh := h.height_pos
  have hT : s.totalHeight = s.maxScrollbackLines + s.height := rfl
  refine ⟨?_, ?_, Int.mul_nonneg hc.1 hrw.le, Int.mul_pos (by omega) hrw, ?_⟩
  · rw [h.scrollback_aligned]
    exact addr_nonneg_line hs.1 hrw
  · rw [h.scrollback_aligned]
    exact (line_lt_iff hrw).mpr hs.2
  · unfold screenStart screenCells bufferCells
    rw [← Int.add_mul]
    exact (line_le_iff hrw).mpr (by omega)

theorem Wf.screenTop_eq (h : s.Wf) : s.screenTop = s.address s.screenStart := by
  have hrw := h.realWidth_pos
  have hlt : s.scrollbackTop + s.screenStart < s.bufferCells ↔
      s.scrollbackLine + s.currentScrollbackLines < s.totalHeight := by
    rw [h.scrollback_aligned, screenStart, bufferCells, ← Int.add_mul, line_lt_iff hrw]
  unfold address wrapLine
  rw [h.top_aligned, h.top_eq]
  by_cases hw : s.scrollbackLine + s.currentScrollbackLines < s.totalHeight
  · rw [wrapLine_of_lt hw, if_pos (hlt.mpr hw), h.scrollback_aligned, screenStart, Int.add_mul]
  · rw [wrapLine_of_ge (by omega), if_neg (fun hc => hw (hlt.mp hc)), h.scrollback_aligned,
      screenStart, bufferCells, Int.sub_mul, Int.add_mul]

/-- Column `x` of row `i` is the cell at its position. -/
theorem Wf.cellAt_position (h : s.Wf) {i x : Int} (hx : 0 ≤ x) (hx' : x ≤ s.width) :
    s.cellAt i x = s.bufferLines.cell (s.address (s.position i x)) := by
  have hrw := h.realWidth_pos
  have hsum : s.scrollbackTop + s.position i x = (s.scrollbackLine + i) * s.realWidth + x := by
    rw [h.scrollback_aligned, position, Int.add_mul]
    omega
  have hlt : s.scrollbackTop + s.position i x < s.bufferCells ↔
      s.scrollbackLine + i < s.totalHeight := by
    rw [hsum, bufferCells, addr_lt_iff hx (by unfold realWidth; omega)]
  rw [h.cellAt_eq, rowLine]
  congr 1
  unfold address
  by_cases hw : s.scrollbackLine + i < s.totalHeight
  · rw [wrapLine_of_lt hw, wrapLine_of_lt (hlt.mpr hw), hsum]
  · rw [wrapLine_of_ge (by omega), wrapLine_of_ge (not_lt.mp fun hc => hw (hlt.mp hc)), hsum,
      Int.sub_mul, bufferCells]
    omega

theorem position_range {i x : Int} (hi : 0 ≤ i) (hi' : i < s.totalHeight)
    (hx : 0 ≤ x) (hx' : x ≤ s.width) :
    0 ≤ s.position i x ∧ s.position i x < s.bufferCells := by
  have hx'' : x < s.realWidth := by
    unfold realWidth
    omega
  exact ⟨addr_nonneg hi hx hx'', (addr_lt_iff hx hx'').mpr hi'⟩

/-! ## The loop -/

/-- Clearing `n` cells from position `p` on. The pointer may start at the end of the buffer
instead of at its beginning, which is what the first comparison of the loop allows for. -/
theorem eraseLoop_spec (h : s.Wf) (t : Terminal) {lo hi p : Int} (hp : 0 ≤ p) (hlo : lo ≤ hi)
    (hn : p + (hi - lo) ≤ s.bufferCells)
    (hstart : (if s.screenTop + lo ≥ s.bufferCells then 0 else s.screenTop + lo) = s.address p) :
    ∃ a s', s.eraseLoop t lo hi = .ok (a, s') ∧ Draws s s' ∧
      ∀ q, 0 ≤ q → q < s.bufferCells → s'.bufferLines.cell (s.address q) =
        if p ≤ q ∧ q < p + (hi - lo) then t.blank else s.bufferLines.cell (s.address q) := by
  have hcells := h.cells_range
  have hloop := forUp_total lo (hi - lo).toNat (s := (s.screenTop + lo, s))
    (f := fun _ (q : Int × Screen) => do
      let aScreenChar := if q.1 ≥ s.totalHeight * s.realWidth then 0 else q.1
      let s₁ ← storeCell aScreenChar t.blank q.2
      .ok (aScreenChar + 1, s₁))
    (P := fun i (q : Int × Screen) =>
      (p + (i - lo) < s.bufferCells →
        (if q.1 ≥ s.bufferCells then 0 else q.1) = s.address (p + (i - lo))) ∧ Draws s q.2 ∧
      ∀ r, 0 ≤ r → r < s.bufferCells → q.2.bufferLines.cell (s.address r) =
        if p ≤ r ∧ r < p + (i - lo) then t.blank else s.bufferLines.cell (s.address r))
    ?_ ?_
  · obtain ⟨⟨a, s'⟩, hok, -, hd, hc⟩ := hloop
    refine ⟨a, s', hok, hd, ?_⟩
    rw [show p + (lo + ((hi - lo).toNat : Int) - lo) = p + (hi - lo) by omega] at hc
    exact hc
  · rintro i ⟨a, s₁⟩ hi₀ hi₁ ⟨ha, hd, hc⟩
    have ha := ha (by omega)
    have hrange : 0 ≤ s.address (p + (i - lo)) ∧ s.address (p + (i - lo)) < s.bufferCells :=
      ⟨wrapLine_nonneg (by omega), wrapLine_lt (by omega)⟩
    have hsize : s₁.bufferLines.size = s.bufferCells := by
      obtain ⟨⟨b, d, line, fg, bg, w, hb, -, rfl⟩, -⟩ := hd
      exact hb.trans h.buffer_size
    have hstore : s₁.storeCell (s.address (p + (i - lo))) t.blank = .ok { s₁ with
        bufferLines := s₁.bufferLines.set (s.address (p + (i - lo))) t.blank } := by
      have hlt : s.address (p + (i - lo)) < s₁.bufferLines.size := by omega
      simp only [storeCell, Block.store_of_lt t.blank hrange.1 hlt, ok_bind]
    have hc : ∀ r, 0 ≤ r → r < s.bufferCells → s₁.bufferLines.cell (s.address r) =
        if p ≤ r ∧ r < p + (i - lo) then t.blank else s.bufferLines.cell (s.address r) := hc
    refine ⟨(s.address (p + (i - lo)) + 1, _), ?_, ?_, hd.trans (storeCell_draws hstore), ?_⟩
    · simp only [show s.totalHeight * s.realWidth = s.bufferCells from rfl, ha, hstore, ok_bind]
    · intro hlt
      simp only [address]
      unfold wrapLine
      split <;> split <;> split <;> omega
    · intro r hr hr'
      have hinj : s.address r = s.address (p + (i - lo)) ↔ r = p + (i - lo) := by
        constructor
        · intro heq
          have := wrapLine_inj (by omega) (by omega) heq
          omega
        · rintro rfl
          rfl
      simp only [Block.set, hinj, hc r hr hr']
      by_cases heq : r = p + (i - lo)
      · rw [if_pos heq, if_pos (by omega)]
      · rw [if_neg heq]
        by_cases hin : p ≤ r ∧ r < p + (i - lo)
        · rw [if_pos hin, if_pos (by omega)]
        · rw [if_neg hin, if_neg (by omega)]
  · refine ⟨?_, .refl s, ?_⟩
    · intro _
      simpa using hstart
    · intro r hr hr'
      rw [if_neg (by omega)]

/-! ## `eraseInDisplay:` -/

/-- The position of the cursor, counted from the first visible cell. -/
def cursorPosition (s : Screen) : Int := s.position s.cursorY s.cursorX

/-- The visible positions that parameter `p` is to clear: from here .. -/
def eraseFrom (p : Int) (s : Screen) : Int := if p = 0 then s.cursorPosition else 0

/-- .. up to, not including, here. -/
def eraseTo (p : Int) (s : Screen) : Int :=
  if p = 1 then s.cursorPosition + 1 else s.position (s.height - 1) s.width

/-- Exactly the cells of the span have become blank, with the wrap marks between
them; no other visible cell and no cell of the scrollback has changed. -/
structure ErasedInDisplay (t : Terminal) (p : Int) (s s' : Screen) : Prop where
  cleared : ∀ y x, 0 ≤ y → y < s.height → 0 ≤ x → x ≤ s.width →
    s.eraseFrom p ≤ s.position y x → s.position y x < s.eraseTo p →
    s'.visibleCell y x = t.blank
  kept : ∀ y x, 0 ≤ y → y < s.height → 0 ≤ x → x < s.width →
    ¬(s.eraseFrom p ≤ s.position y x ∧ s.position y x < s.eraseTo p) →
    s'.visibleCell y x = s.visibleCell y x
  scrollback : ∀ i x, 0 ≤ i → i < s.currentScrollbackLines → 0 ≤ x → x ≤ s.width →
    s'.cellAt i x = s.cellAt i x

/-- `screen_top + idx1` does not lie behind the end of the buffer. -/
def EraseInFront (s : Screen) : Prop := s.screenTop + s.cursorPosition ≤ s.bufferCells

/-- The visible positions that are cleared when it does: as many, but from the
first cell of the buffer on. -/
def Misplaced (s : Screen) (k : Int) : Prop :=
  s.bufferCells - s.screenTop ≤ k ∧
    k < s.bufferCells - s.screenTop + (s.screenCells - s.cursorPosition)

/-- What a misplaced span gets wrong was blank anyway. -/
structure MisplacedHarmless (t : Terminal) (s : Screen) : Prop where
  missed : ∀ y x, 0 ≤ y → y < s.height → 0 ≤ x → x ≤ s.width →
    s.cursorPosition ≤ s.position y x → s.position y x < s.eraseTo 0 →
    ¬s.Misplaced (s.position y x) → s.visibleCell y x = t.blank
  hit : ∀ y x, 0 ≤ y → y < s.height → 0 ≤ x → x < s.width →
    s.position y x < s.cursorPosition → s.Misplaced (s.position y x) →
    s.visibleCell y x = t.blank

theorem position_lt_screenCells {y x : Int} (hy' : y < s.height) (hx : 0 ≤ x)
    (hx' : x ≤ s.width) : s.position y x < s.screenCells :=
  (addr_lt_iff hx (by unfold realWidth; omega)).mpr hy'

theorem position_nonneg {y x : Int} (hy : 0 ≤ y) (hx : 0 ≤ x) (hx' : x ≤ s.width) :
    0 ≤ s.position y x := addr_nonneg hy hx (by unfold realWidth; omega)

/-- Only the last mark stands behind the visible cells. -/
theorem position_lt_last {y x : Int} (hy' : y < s.height) (hx : 0 ≤ x) (hx' : x < s.width) :
    s.position y x < s.screenCells - 1 := by
  have := position_lt_screenCells (s := s) (x := x + 1) hy' (by omega) (by omega)
  unfold position at *
  omega

/-- The end of the last visible row, before its mark. -/
theorem position_last (s : Screen) : s.position (s.height - 1) s.width = s.screenCells - 1 := by
  unfold position screenCells realWidth
  ring

/-- Clearing `n` cells from visible position `k` on, in terms of the rows. -/
theorem eraseCells_spec (h : s.Wf) (t : Terminal) (lo hi : Int) {k : Int} (hk : 0 ≤ k) (hlo : lo ≤ hi)
    (hn : k + (hi - lo) ≤ s.screenCells)
    (hstart : (if s.screenTop + lo ≥ s.bufferCells then 0 else s.screenTop + lo) =
      s.address (s.screenStart + k)) :
    ∃ a s', s.eraseLoop t lo hi = .ok (a, s') ∧ Draws s s' ∧
      (∀ y x, 0 ≤ y → y < s.height → 0 ≤ x → x ≤ s.width → s'.visibleCell y x =
        if k ≤ s.position y x ∧ s.position y x < k + (hi - lo) then t.blank
        else s.visibleCell y x) ∧
      ∀ i x, 0 ≤ i → i < s.currentScrollbackLines → 0 ≤ x → x ≤ s.width →
        s'.cellAt i x = s.cellAt i x := by
  have hr := h.cells_range
  obtain ⟨a, s', hok, hd, hc⟩ := eraseLoop_spec h t (p := s.screenStart + k) (by omega) hlo
    (by omega) hstart
  have hcell : ∀ i x, 0 ≤ i → i < s.totalHeight → 0 ≤ x → x ≤ s.width → s'.cellAt i x =
      if s.screenStart + k ≤ s.position i x ∧ s.position i x < s.screenStart + k + (hi - lo)
      then t.blank else s.cellAt i x := by
    intro i x hi hi' hx hx'
    have hp := position_range hi hi' hx hx'
    have hsame : s'.address (s'.position i x) = s.address (s.position i x) := by
      obtain ⟨⟨b, d, line, fg, bg, w, hb, -, rfl⟩, -⟩ := hd
      rfl
    rw [(hd.wf h).cellAt_position hx (by rw [hd.width_eq]; exact hx'), hsame,
      h.cellAt_position hx hx', hc _ hp.1 hp.2]
  refine ⟨a, s', hok, hd, ?_, ?_⟩
  · intro y x hy hy' hx hx'
    have hv := h.visible_range hy hy'
    have hpos : s.position (s.currentScrollbackLines + y) x = s.screenStart + s.position y x := by
      unfold position screenStart
      ring
    rw [(hd.wf h).visibleCell_eq hy (by rw [hd.height_eq]; exact hy'), hd.count_eq,
      hcell _ x hv.1 hv.2 hx hx', hpos, h.visibleCell_eq hy hy']
    by_cases hin : k ≤ s.position y x ∧ s.position y x < k + (hi - lo)
    · rw [if_pos hin, if_pos (by omega)]
    · rw [if_neg hin, if_neg (by omega)]
  · intro i x hi hi' hx hx'
    have hT : s.totalHeight = s.maxScrollbackLines + s.height := rfl
    have hcount := h.count_range
    have hh := h.height_pos
    have hbefore : s.position i x < s.screenStart :=
      (addr_lt_iff hx (by unfold realWidth; omega)).mpr hi'
    rw [hcell i x hi (by omega) hx hx', if_neg (by omega)]

/-- A start inside the buffer, or at its end, is the cell it should be. -/
theorem Wf.start_in_front (h : s.Wf) {lo : Int} (hlo : 0 ≤ lo) (hlo' : lo ≤ s.screenCells)
    (hfront : s.screenTop + lo ≤ s.bufferCells) :
    (if s.screenTop + lo ≥ s.bufferCells then 0 else s.screenTop + lo) =
      s.address (s.screenStart + lo) := by
  have hr := h.cells_range
  have hmax : s.screenStart + s.screenCells ≤ s.bufferCells := hr.2.2.2.2
  rw [h.screenTop_eq] at hfront ⊢
  unfold address wrapLine at *
  split <;> split <;> split at hfront <;> omega

/-- A start behind the end is taken for the first cell of the buffer. -/
theorem Wf.start_behind (h : s.Wf) {lo : Int} (hlo : lo ≤ s.screenCells)
    (hbehind : s.bufferCells < s.screenTop + lo) :
    (if s.screenTop + lo ≥ s.bufferCells then 0 else s.screenTop + lo) =
      s.address (s.screenStart + (s.bufferCells - s.screenTop)) := by
  have hr := h.cells_range
  rw [if_pos (by omega)]
  rw [h.screenTop_eq] at hbehind ⊢
  unfold address wrapLine at *
  split at hbehind <;> split <;> omega

theorem eraseInDisplay_of_loop (h : s.Wf) {p a : Int} {s₁ : Screen}
    (hn : 0 ≤ ((s.eraseSpan p).y2 - (s.eraseSpan p).y1) * s.width +
      ((s.eraseSpan p).x2 - (s.eraseSpan p).x1))
    (hloop : s.eraseLoop t ((s.eraseSpan p).y1 * s.realWidth + (s.eraseSpan p).x1)
      ((s.eraseSpan p).y2 * s.realWidth + (s.eraseSpan p).x2) = .ok (a, s₁))
    (hd : Draws s s₁) :
    ∃ s', s.eraseInDisplay t p = .ok s' ∧
      (∀ y x, 0 ≤ y → y < s.height → s'.visibleCell y x = s₁.visibleCell y x) ∧
      ∀ i x, s'.cellAt i x = s₁.cellAt i x := by
  rw [← hd.width_eq] at hn
  obtain ⟨s', hfill, hd', hb⟩ := dirtyFill_spec true
    ((s.eraseSpan p).y1 * s₁.width + (s.eraseSpan p).x1) hn s₁
  have hcell := hd'.cellAt_of_eq (hd.wf h) hb
  refine ⟨s', ?_, ?_, hcell⟩
  · simp only [eraseInDisplay, hloop, ok_bind, hfill]
  · intro y x hy hy'
    have hh := (hd.trans hd').height_eq
    rw [((hd.trans hd').wf h).visibleCell_eq hy (by rw [hh]; exact hy'), hcell,
      (hd.wf h).visibleCell_eq hy (by rw [hd.height_eq]; exact hy'), hd'.count_eq]

/-- Parameters 1 and 2 start at the first visible cell. -/
theorem eraseInDisplay_from_top (h : s.Wf) (t : Terminal) (hy : 0 ≤ s.cursorY)
    (hy' : s.cursorY < s.height) {p : Int} (hp : p = 1 ∨ p = 2) :
    ∃ s', s.eraseInDisplay t p = .ok s' ∧ ErasedInDisplay t p s s' := by
  have hx := h.column
  have hw := h.width_pos
  have hr := h.cells_range
  have hcur := position_nonneg (s := s) hy hx.1 hx.2.le
  have hcur' := position_lt_screenCells hy' hx.1 hx.2.le
  have hlast := position_last s
  have hspan : (s.eraseSpan p).y1 = 0 ∧ (s.eraseSpan p).x1 = 0 ∧
      (s.eraseSpan p).y2 * s.realWidth + (s.eraseSpan p).x2 =
        (if p = 1 then s.cursorPosition + 1 else s.screenCells) ∧
      0 ≤ (s.eraseSpan p).y2 * s.width + (s.eraseSpan p).x2 := by
    have hrow := Int.mul_nonneg hy (show 0 ≤ s.width by omega)
    have harea := Int.mul_nonneg (show 0 ≤ s.height by omega) (show 0 ≤ s.width by omega)
    rcases hp with rfl | rfl
    · simp only [eraseSpan, if_true, if_pos hx.2, cursorPosition, position, true_and]
      omega
    · simp only [eraseSpan, show ¬(2 : Int) = 1 by decide, if_false, if_true, screenCells,
        Int.add_zero, true_and]
      omega
  obtain ⟨a, s₁, hloop, hd, hvis, hback⟩ := eraseCells_spec h t 0
    (if p = 1 then s.cursorPosition + 1 else s.screenCells) (k := 0) (Int.le_refl 0)
    (by unfold cursorPosition; split <;> omega) (by unfold cursorPosition; split <;> omega)
    (h.start_in_front (Int.le_refl 0) hr.2.2.2.1.le (by
      have := wrapLine_lt (T := s.bufferCells) (k := s.scrollbackTop + s.screenStart) (by omega)
      rw [h.screenTop_eq, address]
      omega))
  obtain ⟨s', hok, hv, hc⟩ := eraseInDisplay_of_loop h (t := t) (p := p) (a := a)
    (by rw [hspan.1, hspan.2.1]; simpa using hspan.2.2.2)
    (by rw [hspan.1, hspan.2.1, hspan.2.2.1]; simpa using hloop) hd
  have hfrom : s.eraseFrom p = 0 := by
    rcases hp with rfl | rfl <;> rfl
  refine ⟨s', hok, ⟨?_, ?_, ?_⟩⟩
  · intro y x hy hy' hx hx' hge hlt
    have hpos := position_nonneg (s := s) hy hx hx'
    rw [hv y x hy hy', hvis y x hy hy' hx hx', if_pos]
    unfold eraseTo at hlt
    split at hlt <;> omega
  · intro y x hy hy' hx hx' hout
    have hpos := position_nonneg (s := s) hy hx hx'.le
    have hpos' := position_lt_last hy' hx hx'
    rw [hv y x hy hy', hvis y x hy hy' hx hx'.le, if_neg]
    unfold eraseTo at hout
    split at hout <;> omega
  · intro i x hi hi' hx hx'
    rw [hc, hback i x hi hi' hx hx']

/-- Parameter 0 from a cursor whose cell is found. -/
theorem eraseInDisplay_from_cursor (h : s.Wf) (t : Terminal) (hy' : s.cursorY < s.height)
    {k : Int} (hk : 0 ≤ k) (hk' : k ≤ s.cursorPosition)
    (hstart : (if s.screenTop + s.cursorPosition ≥ s.bufferCells then 0
      else s.screenTop + s.cursorPosition) = s.address (s.screenStart + k)) :
    ∃ s', s.eraseInDisplay t 0 = .ok s' ∧
      (∀ y x, 0 ≤ y → y < s.height → 0 ≤ x → x ≤ s.width → s'.visibleCell y x =
        if k ≤ s.position y x ∧ s.position y x < k + (s.screenCells - s.cursorPosition)
        then t.blank else s.visibleCell y x) ∧
      ∀ i x, 0 ≤ i → i < s.currentScrollbackLines → 0 ≤ x → x ≤ s.width →
        s'.cellAt i x = s.cellAt i x := by
  have hx := h.column
  have hcur' : s.cursorPosition < s.screenCells := position_lt_screenCells hy' hx.1 hx.2.le
  obtain ⟨a, s₁, hloop, hd, hvis, hback⟩ := eraseCells_spec h t s.cursorPosition
    s.screenCells hk hcur'.le (by omega) hstart
  have hlen : 0 ≤ (s.height - s.cursorY) * s.width + (0 - s.cursorX) := by
    have hw := h.width_pos
    have hrow := Int.mul_nonneg (show 0 ≤ s.height - s.cursorY - 1 by omega)
      (show 0 ≤ s.width by omega)
    have hsplit : (s.height - s.cursorY) * s.width =
        (s.height - s.cursorY - 1) * s.width + s.width := by ring
    omega
  obtain ⟨s', hok, hv, hc⟩ := eraseInDisplay_of_loop h (t := t) (p := 0) (a := a)
    (by simpa [eraseSpan] using hlen)
    (by simpa [eraseSpan, cursorPosition, position, screenCells] using hloop) hd
  refine ⟨s', hok, ?_, ?_⟩
  · intro y x hy hy' hx hx'
    rw [hv y x hy hy', hvis y x hy hy' hx hx']
  · intro i x hi hi' hx hx'
    rw [hc, hback i x hi hi' hx hx']

/-- Parameter 0 when the start is in front: the right cells are cleared. -/
theorem eraseInDisplay_in_front (h : s.Wf) (t : Terminal) (hy : 0 ≤ s.cursorY)
    (hy' : s.cursorY < s.height) (hfront : s.EraseInFront) :
    ∃ s', s.eraseInDisplay t 0 = .ok s' ∧ ErasedInDisplay t 0 s s' := by
  have hx := h.column
  have hcur : 0 ≤ s.cursorPosition := position_nonneg hy hx.1 hx.2.le
  have hcur' : s.cursorPosition < s.screenCells := position_lt_screenCells hy' hx.1 hx.2.le
  obtain ⟨s', hok, hvis, hback⟩ := eraseInDisplay_from_cursor h t hy' hcur (Int.le_refl _)
    (h.start_in_front hcur hcur'.le hfront)
  have hlast := position_last s
  refine ⟨s', hok, ⟨?_, ?_, hback⟩⟩
  · intro y x hy hy' hx hx' hge hlt
    simp only [eraseFrom, eraseTo, if_true, show ¬(0 : Int) = 1 by decide, if_false] at hge hlt
    rw [hvis y x hy hy' hx hx', if_pos (by omega)]
  · intro y x hy hy' hx hx' hout
    have hpos := position_lt_last hy' hx hx'
    simp only [eraseFrom, eraseTo, if_true, show ¬(0 : Int) = 1 by decide, if_false] at hout
    rw [hvis y x hy hy' hx hx'.le, if_neg (by omega)]

/-- Parameter 0 when the start is behind: as many cells are cleared, but from
the first cell of the buffer on. -/
theorem eraseInDisplay_behind (h : s.Wf) (t : Terminal) (hy' : s.cursorY < s.height)
    (hbehind : ¬s.EraseInFront) :
    ∃ s', s.eraseInDisplay t 0 = .ok s' ∧
      (∀ y x, 0 ≤ y → y < s.height → 0 ≤ x → x ≤ s.width →
        (s.Misplaced (s.position y x) → s'.visibleCell y x = t.blank) ∧
        (¬s.Misplaced (s.position y x) → s'.visibleCell y x = s.visibleCell y x)) ∧
      ∀ i x, 0 ≤ i → i < s.currentScrollbackLines → 0 ≤ x → x ≤ s.width →
        s'.cellAt i x = s.cellAt i x := by
  have hx := h.column
  have hcur' : s.cursorPosition < s.screenCells := position_lt_screenCells hy' hx.1 hx.2.le
  have hbehind : s.bufferCells < s.screenTop + s.cursorPosition := not_le.mp hbehind
  have htop : s.screenTop ≤ s.bufferCells := by
    have hr := h.cells_range
    have := wrapLine_lt (T := s.bufferCells) (k := s.scrollbackTop + s.screenStart) (by omega)
    rw [h.screenTop_eq, address]
    omega
  obtain ⟨s', hok, hvis, hback⟩ := eraseInDisplay_from_cursor h t hy'
    (k := s.bufferCells - s.screenTop) (by omega) (by omega) (h.start_behind hcur'.le hbehind)
  refine ⟨s', hok, ?_, hback⟩
  intro y x hy hy' hx hx'
  exact ⟨fun hin => (hvis y x hy hy' hx hx').trans (if_pos hin),
    fun hout => (hvis y x hy hy' hx hx').trans (if_neg hout)⟩

/-- `eraseInDisplay:` clears exactly the right cells, for parameters 1 and 2
always, and for parameter 0 exactly when `screen_top + idx1` does not lie behind
the end of the buffer or the cells it gets wrong were blank anyway. -/
theorem eraseInDisplay_iff {F : Foundation} {c : VT100.Config} (hr : VT100.Reachable F c)
    (hy : 0 ≤ c.2.screen.cursorY) (hy' : c.2.screen.cursorY < c.2.screen.height)
    (t : Terminal) {p : Int} (hp : p = 0 ∨ p = 1 ∨ p = 2) :
    (∃ s', c.2.screen.eraseInDisplay t p = .ok s' ∧ ErasedInDisplay t p c.2.screen s') ↔
      (p = 0 → c.2.screen.EraseInFront ∨ MisplacedHarmless t c.2.screen) := by
  have h := (VT100.reachable_wf hr).screen
  generalize c.2.screen = s at *
  rcases hp with rfl | hp
  · by_cases hfront : s.EraseInFront
    · simp only [hfront, true_or, implies_true, iff_true]
      exact eraseInDisplay_in_front h t hy hy' hfront
    · obtain ⟨s', hok, hvis, hback⟩ := eraseInDisplay_behind h t hy' hfront
      have hlast := position_last s
      have hx := h.column
      constructor
      · rintro ⟨s'', hok', herased⟩ -
        obtain rfl : s' = s'' := Except.ok.inj (hok.symm.trans hok')
        refine Or.inr ⟨?_, ?_⟩
        · intro y x hy hy' hx hx' hge hlt hmis
          rw [← (hvis y x hy hy' hx hx').2 hmis]
          exact herased.cleared y x hy hy' hx hx' hge hlt
        · intro y x hy hy' hx hx' hlt hmis
          rw [← herased.kept y x hy hy' hx hx' (fun hin => absurd hin.1 (not_le.mpr hlt))]
          exact (hvis y x hy hy' hx hx'.le).1 hmis
      · intro hor
        obtain hharmless := (hor rfl).resolve_left hfront
        refine ⟨s', hok, ⟨?_, ?_, hback⟩⟩
        · intro y x hy hy' hx hx' hge hlt
          by_cases hmis : s.Misplaced (s.position y x)
          · exact (hvis y x hy hy' hx hx').1 hmis
          · rw [(hvis y x hy hy' hx hx').2 hmis]
            exact hharmless.missed y x hy hy' hx hx' hge hlt hmis
        · intro y x hy hy' hx hx' hout
          have hpos := position_lt_last hy' hx hx'
          by_cases hmis : s.Misplaced (s.position y x)
          · rw [(hvis y x hy hy' hx hx'.le).1 hmis, hharmless.hit y x hy hy' hx hx' ?_ hmis]
            simp only [eraseFrom, eraseTo, if_true, show ¬(0 : Int) = 1 by decide,
              if_false] at hout
            omega
          · exact (hvis y x hy hy' hx hx'.le).2 hmis
  · simp only [show ¬p = 0 by omega, false_implies, iff_true]
    exact eraseInDisplay_from_top h t hy hy' hp

/-- With two rows of text on a new object and the cursor at the start of the second, which is
erased: the span starts in front. -/
theorem text_eraseInDisplay : ∃ v v₁ v₂ s', VT100.init ⟨0, 0, 0⟩ = .ok v ∧
    v.readInputStream Foundation.latin1 VT100.textBytes = .ok v₁ ∧
    v₁.readInputStream Foundation.latin1 [0x0d] = .ok v₂ ∧
    (v₂.screen.cursorX = 0 ∧ v₂.screen.cursorY = 1) ∧
    v₂.screen.eraseInDisplay v₂.terminal 0 = .ok s' ∧
    ErasedInDisplay v₂.terminal 0 v₂.screen s' := by
  obtain ⟨v, v₁, first, row, hv, h₁, hrest, -, hs₁, -⟩ :=
    VT100.init_text Foundation.latin1_asciiExact ⟨0, 0, 0⟩
  obtain ⟨v₂, h₂, -, hs⟩ := hrest.carriageReturn (F := Foundation.latin1) hs₁ (by decide)
  have hcursor : v₂.screen.cursorX = 0 ∧ v₂.screen.cursorY = 1 := ⟨hs.cursorX_eq, hs.cursorY_eq⟩
  have hfront : v₂.screen.EraseInFront := by
    have htop := hs.wf.top_aligned
    have hzero : v₂.screen.topLine = 0 := hs.top_eq
    rw [hzero, Int.zero_mul] at htop
    have hwidth : v₂.screen.realWidth = 81 := congrArg (· + 1) hs.width_eq
    have hmax : v₂.screen.maxScrollbackLines = 1000 := hs.max_eq
    have hheight : v₂.screen.height = 25 := hs.height_eq
    simp only [EraseInFront, cursorPosition, position, hcursor.1, hcursor.2, htop, bufferCells,
      totalHeight, hwidth, hmax, hheight]
    decide
  obtain ⟨s', hok, herased⟩ := (eraseInDisplay_iff
    (((VT100.init_reachable (F := Foundation.latin1) hv).readInputStream h₁).readInputStream h₂)
    hs.cursor_range.1 hs.cursor_range.2 v₂.terminal (Or.inl rfl)).mpr fun _ => Or.inl hfront
  exact ⟨v, v₁, v₂, s', hv, h₁, h₂, hcursor, hok, herased⟩

/-- The cell left of which the cursor's row was printed. -/
theorem Shown.cursor_cell {max : Int} {w h x : Nat} {done : List (List ScreenChar)}
    {row : List ScreenChar} (hs : s.Shown max w h done row x) {k : Nat} (hk : k < row.length) :
    s.visibleCell s.cursorY k = row[k] := by
  obtain ⟨hlt, hrow⟩ := hs.row_eq
  rw [hs.wf.visibleCell_eq hs.cursor_range.1 hs.cursor_range.2, hs.cursor_index]
  rw [rows_getElem] at hrow
  subst hrow
  rw [row_getElem]

/-- After 1048 line feeds, an `a` and a carriage return on a new object, erasing
from the cursor leaves the `a` under the cursor where it is. -/
theorem lineFeeds_eraseInDisplay_misses : ∃ v v₁ v₂, VT100.init ⟨0, 0, 0⟩ = .ok v ∧
    v.readInputStream Foundation.latin1 (List.replicate 1048 0x0a ++ [0x61]) = .ok v₁ ∧
    v₁.readInputStream Foundation.latin1 [0x0d] = .ok v₂ ∧
    0 ≤ v₂.screen.cursorY ∧ v₂.screen.cursorY < v₂.screen.height ∧
    ¬∃ s', v₂.screen.eraseInDisplay v₂.terminal 0 = .ok s' ∧
      ErasedInDisplay v₂.terminal 0 v₂.screen s' := by
  obtain ⟨v, v₁, done, row, hv, h₁, hrest, -, hs₁, hdone, hrow⟩ :=
    VT100.init_lineFeeds Foundation.latin1_asciiExact ⟨0, 0, 0⟩ 1048 [0x61]
      (by simp [IsPrintable]) (by decide)
  obtain ⟨v₂, h₂, -, hs⟩ := hrest.carriageReturn (F := Foundation.latin1) hs₁ (by decide)
  refine ⟨v, v₁, v₂, hv, h₁, h₂, hs.cursor_range.1, hs.cursor_range.2, ?_⟩
  generalize v₂.screen = s at hs ⊢
  have hwidth : s.width = 80 := hs.width_eq
  have hheight : s.height = 25 := hs.height_eq
  have hx : s.cursorX = 0 := hs.cursorX_eq
  have hy : s.cursorY = 24 := by
    rw [hs.cursorY_eq, hdone]
    rfl
  have htop : s.screenTop = 1024 * 81 := by
    rw [hs.wf.top_aligned, hs.top_eq, hdone, realWidth, hwidth]
    rfl
  have hbuf : s.bufferCells = 1025 * 81 := by
    rw [bufferCells, hs.total_eq, realWidth, hwidth]
    rfl
  have hcells : s.screenCells = 25 * 81 := by
    rw [screenCells, hheight, realWidth, hwidth]
    rfl
  have hpos : ∀ y x, s.position y x = y * 81 + x := by
    intro y x
    rw [position, realWidth, hwidth]
    rfl
  have hcur : s.cursorPosition = 24 * 81 := by
    rw [cursorPosition, hpos, hx, hy]
    rfl
  have hbehind : ¬s.EraseInFront := by
    rw [EraseInFront, htop, hcur, hbuf]
    decide
  obtain ⟨s', hok, hvis, -⟩ := eraseInDisplay_behind hs.wf v₂.terminal (by omega) hbehind
  rintro ⟨s'', hok', herased⟩
  obtain rfl : s' = s'' := Except.ok.inj (hok.symm.trans hok')
  have hmiss : ¬s.Misplaced (s.position s.cursorY 0) := by
    rw [Misplaced, hpos, hy, hbuf, htop, hcells, hcur]
    decide
  have hblank := herased.cleared s.cursorY 0 (by omega) (by omega) (by decide) (by omega)
    (by simp only [eraseFrom, if_true, hcur, hpos, hy]; decide)
    (by simp only [eraseTo, hpos, hy, hheight, hwidth, hcur]; decide)
  have hlen : 0 < row.length := by rw [hs.row_length]; decide
  have hcell : s.visibleCell s.cursorY 0 = row[0] := hs.cursor_cell hlen
  rw [(hvis s.cursorY 0 (by omega) (by omega) (by decide) (by omega)).2 hmiss, hcell] at hblank
  have ha : row[0] = v.terminal.printed 0x61 := by
    cases row with
    | nil => cases hlen
    | cons c row => exact (List.cons.inj hrow).1
  rw [ha] at hblank
  exact absurd (congrArg ScreenChar.ch hblank) (by decide : (0x61 : UInt8).toUInt16 ≠ 0)

end Screen

end MobileTerminal
