import MobileTerminal.Asserts
import MobileTerminal.Scroll
import MobileTerminal.Scrollback

/-!
# Where an operation writes

A handler that edits a line must leave the other lines alone, and one that
scrolls a region must leave the rows outside of it alone. In a ring that is not
obvious from the code: rows are reached through addresses that wrap around, and
a `memmove` takes many of them at once.

`ChangesOnly P s s'`: the ring, its pointers and the margins are as before, and
so is every cell of every row that is not in `P`, the wrap marks among them.
Rows are counted from the oldest one of the scrollback, so visible row `y` has
the number `current_scrollback_lines + y`, and the scrollback is protected with
the rest: a handler that is confined to visible rows has not touched it.

The relation is transitive and monotone in `P`, so a handler follows from the
operations it is made of. Each handler is confined to the row of the cursor, to
the region between the margins, or to the rows below the cursor in it.
-/

namespace MobileTerminal

namespace Screen

variable {F : Foundation} {t : Terminal} {s s' s'' : Screen} {P Q : Int → Prop}

/-- The ring and its pointers, the size and the margins are as before. What `SameRing` leaves
free are the cells, the flags and the cursor. -/
structure SameRing (s s' : Screen) : Prop where
  width_eq : s'.width = s.width
  height_eq : s'.height = s.height
  max_eq : s'.maxScrollbackLines = s.maxScrollbackLines
  count_eq : s'.currentScrollbackLines = s.currentScrollbackLines
  top_eq : s'.screenTop = s.screenTop
  margins_eq : s'.scrollTop = s.scrollTop ∧ s'.scrollBottom = s.scrollBottom

namespace SameRing

theorem refl (s : Screen) : SameRing s s := ⟨rfl, rfl, rfl, rfl, rfl, rfl, rfl⟩

theorem trans (h : SameRing s s') (h' : SameRing s' s'') : SameRing s s'' :=
  ⟨h'.width_eq.trans h.width_eq, h'.height_eq.trans h.height_eq, h'.max_eq.trans h.max_eq,
    h'.count_eq.trans h.count_eq, h'.top_eq.trans h.top_eq,
    h'.margins_eq.1.trans h.margins_eq.1, h'.margins_eq.2.trans h.margins_eq.2⟩

theorem totalHeight_eq (h : SameRing s s') : s'.totalHeight = s.totalHeight := by
  rw [totalHeight, totalHeight, h.max_eq, h.height_eq]

end SameRing

theorem Draws.sameRing (hd : Draws s s') : SameRing s s' := by
  obtain ⟨⟨b, d, line, fg, bg, w, -, -, rfl⟩, -⟩ := hd
  exact ⟨rfl, rfl, rfl, rfl, rfl, rfl, rfl⟩

/-- Only rows with a number in `P` have changed, counted from the oldest row of the
scrollback. -/
structure ChangesOnly (P : Int → Prop) (s s' : Screen) : Prop where
  ring : SameRing s s'
  cells : ∀ i x, 0 ≤ i → i < s.totalHeight → 0 ≤ x → x ≤ s.width → ¬P i →
    s'.cellAt i x = s.cellAt i x

namespace ChangesOnly

theorem refl (s : Screen) : ChangesOnly P s s := ⟨.refl s, fun _ _ _ _ _ _ _ => rfl⟩

theorem trans (h : ChangesOnly P s s') (h' : ChangesOnly P s' s'') : ChangesOnly P s s'' := by
  refine ⟨h.ring.trans h'.ring, fun i x hi hi' hx hx' hP => ?_⟩
  have hT := h.ring.totalHeight_eq
  have hw := h.ring.width_eq
  exact (h'.cells i x hi (by omega) hx (by omega) hP).trans (h.cells i x hi hi' hx hx' hP)

theorem mono (h : ChangesOnly P s s') (hPQ : ∀ i, P i → Q i) : ChangesOnly Q s s' :=
  ⟨h.ring, fun i x hi hi' hx hx' hQ => h.cells i x hi hi' hx hx' fun hP => hQ (hPQ i hP)⟩

/-- Flags and the cached default line are not cells. -/
theorem of_buffer (hd : Draws s s') (h : s.Wf) (hb : s'.bufferLines = s.bufferLines) :
    ChangesOnly P s s' :=
  ⟨hd.sameRing, fun i x _ _ _ _ _ => hd.cellAt_of_eq h hb i x⟩

theorem withCursor (h : ChangesOnly P s s') (x y : Int) :
    ChangesOnly P s { s' with cursorX := x, cursorY := y } :=
  ⟨⟨h.ring.width_eq, h.ring.height_eq, h.ring.max_eq, h.ring.count_eq, h.ring.top_eq,
    h.ring.margins_eq⟩, h.cells⟩

theorem of_ok (h : ChangesOnly P s s') (hok : (.ok s' : Res Screen) = .ok s'') :
    ChangesOnly P s s'' := Except.ok.inj hok ▸ h

theorem forUp {f : Int → Screen → Res Screen} {lo : Int} {n : Nat} (h : s.Wf)
    (hf : ∀ i s₁ s₂, lo ≤ i → i < lo + n → Draws s s₁ → s₁.Wf → f i s₁ = .ok s₂ →
      Draws s₁ s₂ ∧ ChangesOnly P s₁ s₂)
    (hok : forUp f lo n s = .ok s') : Draws s s' ∧ ChangesOnly P s s' := by
  refine forUp_inv (P := fun _ s' => Draws s s' ∧ ChangesOnly P s s') ?_ ⟨.refl s, .refl s⟩ hok
  rintro i s₁ s₂ hlo hhi ⟨hd, hc⟩ hs
  obtain ⟨hd', hc'⟩ := hf i s₁ s₂ hlo hhi hd (hd.wf h) hs
  exact ⟨hd.trans hd', hc.trans hc'⟩

theorem forDown {f : Int → Screen → Res Screen} {hi : Int} {n : Nat} (h : s.Wf)
    (hf : ∀ i s₁ s₂, i ≤ hi → hi - n < i → Draws s s₁ → s₁.Wf → f i s₁ = .ok s₂ →
      Draws s₁ s₂ ∧ ChangesOnly P s₁ s₂)
    (hok : forDown f hi n s = .ok s') : Draws s s' ∧ ChangesOnly P s s' := by
  refine forDown_inv (P := fun _ s' => Draws s s' ∧ ChangesOnly P s s') ?_ ⟨.refl s, .refl s⟩ hok
  rintro i s₁ s₂ hhi hlo ⟨hd, hc⟩ hs
  obtain ⟨hd', hc'⟩ := hf i s₁ s₂ hhi hlo hd (hd.wf h) hs
  exact ⟨hd.trans hd', hc.trans hc'⟩

end ChangesOnly

/-! ## Cells -/

theorem dirtyFill_changes {v : Bool} {k n : Int} (h : s.Wf) (hok : s.dirtyFill v k n = .ok s') :
    ChangesOnly P s s' :=
  .of_buffer (dirtyFill_draws hok) h (dirtyFill_bufferLines hok)

theorem setDirty_changes (h : s.Wf) (hok : s.setDirty = .ok s') : ChangesOnly P s s' :=
  .of_buffer (setDirty_draws hok) h (setDirty_bufferLines hok)

variable {i x : Int}

theorem storeCell_changes {c : ScreenChar} (h : s.Wf) (hi : 0 ≤ i) (hi' : i < s.totalHeight)
    (hx : 0 ≤ x) (hx' : x ≤ s.width)
    (hok : s.storeCell (s.rowLine i * s.realWidth + x) c = .ok s') :
    ChangesOnly (· = i) s s' := by
  obtain ⟨s₁, h₁, hd, hcells⟩ := storeCell_spec h c hi hi' hx hx'
  obtain rfl := Except.ok.inj (h₁.symm.trans hok)
  refine ⟨hd.sameRing, fun j z hj hj' hz hz' hne => ?_⟩
  rw [hcells j z hj hj' hz hz', if_neg fun heq => hne heq.1]

theorem storeCh_changes {ch : UniChar} (h : s.Wf) (hi : 0 ≤ i) (hi' : i < s.totalHeight)
    (hx : 0 ≤ x) (hx' : x ≤ s.width)
    (hok : s.storeCh (s.rowLine i * s.realWidth + x) ch = .ok s') : ChangesOnly (· = i) s s' := by
  obtain ⟨s₁, h₁, hd, hcells⟩ := storeCh_spec h ch hi hi' hx hx'
  obtain rfl := Except.ok.inj (h₁.symm.trans hok)
  refine ⟨hd.sameRing, fun j z hj hj' hz hz' hne => ?_⟩
  rw [hcells j z hj hj' hz hz', if_neg fun heq => hne heq.1]

theorem moveCells_changes {a n : Int} (h : s.Wf) (hi : 0 ≤ i) (hi' : i < s.totalHeight)
    (hx : 0 ≤ x) (hn : x + n ≤ s.realWidth)
    (hok : s.moveCells (s.rowLine i * s.realWidth + x) a n = .ok s') :
    ChangesOnly (· = i) s s' := by
  have hd := moveCells_draws hok
  obtain ⟨b, hb, hok⟩ := bind_eq_ok.mp hok
  obtain ⟨-, rfl⟩ := Block.copy_eq_ok.mp hb
  cases hok
  refine ⟨hd.sameRing, fun j z hj hj' hz hz' hne => ?_⟩
  rw [(hd.wf h).cellAt_eq, h.cellAt_eq, hd.rowLine_eq, hd.realWidth_eq,
    Block.paste_part_cell _ _ hz (by unfold realWidth; omega) hx hn, if_neg]
  rintro ⟨hline, -⟩
  exact hne ((rowLine_inj hj hj' hi hi').mp hline)

theorem blankCells_changes {n : Nat} (h : s.Wf) (hi : 0 ≤ i) (hi' : i < s.totalHeight)
    (hx : 0 ≤ x) (hn : x + n ≤ s.width)
    (hok : s.blankCells t (s.rowLine i * s.realWidth + x) n = .ok s') :
    ChangesOnly (· = i) s s' := by
  refine (ChangesOnly.forUp h (fun k s₁ s₂ hk hk' hd hwf hs => ?_) hok).2
  have hw := hd.width_eq
  rw [← hd.rowLine_eq, ← hd.realWidth_eq, Int.add_assoc] at hs
  exact ⟨storeCell_draws hs, storeCell_changes hwf hi (by rw [hd.totalHeight_eq]; exact hi')
    (by omega) (by omega) hs⟩

theorem clearLine_changes {line : Block ScreenChar} (h : s.Wf) (hi : 0 ≤ i)
    (hi' : i < s.totalHeight) (hok : s.clearLine (s.rowLine i * s.realWidth) line = .ok s') :
    ChangesOnly (· = i) s s' := by
  have hd := clearLine_draws hok
  obtain ⟨b, hb, hok⟩ := bind_eq_ok.mp hok
  obtain ⟨-, rfl⟩ := Block.copy_eq_ok.mp hb
  cases hok
  refine ⟨hd.sameRing, fun j z hj hj' hz hz' hne => ?_⟩
  rw [(hd.wf h).cellAt_eq, h.cellAt_eq, hd.rowLine_eq, hd.realWidth_eq,
    Block.paste_line_cell _ _ hz (by unfold realWidth; omega), if_neg]
  exact fun hline => hne ((rowLine_inj hj hj' hi hi').mp hline)

/-! ## The row of the cursor -/

/-- The number of the cursor's row. -/
def cursorRow (s : Screen) : Int := s.currentScrollbackLines + s.cursorY

theorem Wf.cursorRow_range (h : s.Wf) (hy : s.OnScreen) :
    0 ≤ s.cursorRow ∧ s.cursorRow < s.totalHeight := h.visible_range hy.1 hy.2

theorem Wf.cursorLine (h : s.Wf) (hy : s.OnScreen) :
    s.getLineAtScreenIndex s.cursorY = .ok (s.rowLine s.cursorRow * s.realWidth) :=
  h.visibleLine hy.1 hy.2

theorem clampCells_range {n : Int} (h : s.Wf) (hn : 0 ≤ n) (hmax : n + s.cursorX < 2 ^ 31) :
    0 ≤ s.clampCells n ∧ s.cursorX + s.clampCells n ≤ s.width := by
  have hx := h.column
  have hsum : cint (n + s.cursorX) = n + s.cursorX := cint_of_isInt ⟨by omega, by omega⟩
  unfold clampCells
  rw [hsum]
  split <;> omega

theorem deleteCharacters_changes {n : Int} (h : s.Wf) (hn : 0 ≤ n)
    (hmax : n + s.cursorX < 2 ^ 31) (hok : s.deleteCharacters t n = .ok s') :
    ChangesOnly (· = s.cursorRow) s s' := by
  have hx := h.column
  have hm := clampCells_range h hn hmax
  unfold deleteCharacters at hok
  split at hok
  · rename_i hin
    have hy : s.OnScreen := ⟨hin.2.2.1, hin.2.2.2⟩
    obtain ⟨hi, hi'⟩ := h.cursorRow_range hy
    rw [h.cursorLine hy, ok_bind] at hok
    generalize s.clampCells n = m at hm hok
    obtain ⟨s₁, h₁, hok⟩ := bind_eq_ok.mp hok
    obtain ⟨s₂, h₂, hok⟩ := bind_eq_ok.mp hok
    obtain ⟨hd₁, hc₁⟩ : Draws s s₁ ∧ ChangesOnly (· = s.cursorRow) s s₁ := by
      split at h₁
      · exact ⟨moveCells_draws h₁, moveCells_changes h hi hi' hx.1
          (by unfold realWidth; omega) h₁⟩
      · cases h₁
        exact ⟨.refl s, .refl s⟩
    have hwf₁ := hd₁.wf h
    rw [hd₁.width_eq, ← hd₁.rowLine_eq, ← hd₁.realWidth_eq] at h₂
    have hc₂ := blankCells_changes hwf₁ hi (by rw [hd₁.totalHeight_eq]; exact hi') (by omega)
      (by rw [hd₁.width_eq]; omega) h₂
    have hwf₂ := (blankCells_draws h₂).wf hwf₁
    exact (hc₁.trans hc₂).trans (dirtyFill_changes hwf₂ hok)
  · exact (ChangesOnly.refl s).of_ok hok

theorem insertBlank_changes {n : Int} (h : s.Wf) (hy : s.OnScreen) (hn : 0 ≤ n)
    (hmax : n + s.cursorX < 2 ^ 31) (hok : s.insertBlank t n = .ok s') :
    ChangesOnly (· = s.cursorRow) s s' := by
  have hx := h.column
  have hm := clampCells_range h hn hmax
  obtain ⟨hi, hi'⟩ := h.cursorRow_range hy
  unfold insertBlank at hok
  split at hok
  · exact (ChangesOnly.refl s).of_ok hok
  · rw [h.cursorLine hy, ok_bind] at hok
    generalize s.clampCells n = m at hm hok
    obtain ⟨s₁, h₁, hok⟩ := bind_eq_ok.mp hok
    obtain ⟨s₂, h₂, hok⟩ := bind_eq_ok.mp hok
    have hd₁ := moveCells_draws h₁
    have hwf₁ := hd₁.wf h
    rw [Int.add_assoc] at h₁
    have hc₁ := moveCells_changes h hi hi' (by omega) (by unfold realWidth; omega) h₁
    rw [hd₁.cursor_eq.1, ← hd₁.rowLine_eq, ← hd₁.realWidth_eq] at h₂
    have hc₂ := blankCells_changes hwf₁ hi (by rw [hd₁.totalHeight_eq]; exact hi') hx.1
      (by rw [hd₁.width_eq]; omega) h₂
    have hwf₂ := (blankCells_draws h₂).wf hwf₁
    exact (hc₁.trans hc₂).trans (dirtyFill_changes hwf₂ hok)

theorem eraseCharacters_changes {n : Int} (h : s.Wf) (hy : s.OnScreen) (hn : 0 ≤ n)
    (hmax : n + s.cursorX < 2 ^ 31) (hok : s.eraseCharacters t n = .ok s') :
    ChangesOnly (· = s.cursorRow) s s' := by
  have hx := h.column
  have hm := clampCells_range h hn hmax
  obtain ⟨hi, hi'⟩ := h.cursorRow_range hy
  unfold eraseCharacters at hok
  split at hok
  · rw [h.cursorLine hy, ok_bind] at hok
    generalize s.clampCells n = m at hm hok
    obtain ⟨s₁, h₁, hok⟩ := bind_eq_ok.mp hok
    have hc₁ := blankCells_changes h hi hi' hx.1 (by omega) h₁
    exact hc₁.trans (dirtyFill_changes ((blankCells_draws h₁).wf h) hok)
  · exact (ChangesOnly.refl s).of_ok hok

theorem eraseInLine_changes {p : Int} (h : s.Wf) (hy : s.OnScreen)
    (hok : s.eraseInLine t p = .ok s') : ChangesOnly (· = s.cursorRow) s s' := by
  have hx := h.column
  obtain ⟨hi, hi'⟩ := h.cursorRow_range hy
  unfold eraseInLine at hok
  rw [h.cursorLine hy, ok_bind] at hok
  obtain ⟨s₁, h₁, hok⟩ := bind_eq_ok.mp hok
  have hc₁ := blankCells_changes h hi hi' (by split <;> omega) (by
    repeat' split
    all_goals omega) h₁
  exact hc₁.trans (dirtyFill_changes ((blankCells_draws h₁).wf h) hok)

theorem placeCell_changes {c : ScreenChar} (h : s.Wf) (hy : s.OnScreen)
    (hok : s.placeCell c = .ok s') : ChangesOnly (· = s.cursorRow) s s' := by
  have hx := h.column
  obtain ⟨hi, hi'⟩ := h.cursorRow_range hy
  unfold placeCell at hok
  rw [h.cursorLine hy, ok_bind] at hok
  obtain ⟨s₁, h₁, hok⟩ := bind_eq_ok.mp hok
  have hc₁ := storeCell_changes h hi hi' hx.1 (Int.le_of_lt hx.2) h₁
  -- what follows are flags and the column
  have hstep : ChangesOnly (· = s.cursorRow) s s₁.stepRight :=
    ⟨hc₁.ring.trans ⟨rfl, rfl, rfl, rfl, rfl, rfl, rfl⟩, hc₁.cells⟩
  exact hstep.of_ok hok

/-- The line feed behind the last column comes after the mark of the row. -/
theorem wrapToNextLine_changes (h : Wf { s with cursorX := 0 })
    (hy : OnScreen { s with cursorX := 0 }) (hok : s.wrapToNextLine t = .ok s') :
    ∃ s₁, Draws { s with cursorX := 0 } s₁ ∧
      ChangesOnly (· = s.cursorRow) { s with cursorX := 0 } s₁ ∧ s₁.setNewLine t = .ok s' := by
  obtain ⟨hi, hi'⟩ := h.cursorRow_range hy
  unfold wrapToNextLine at hok
  simp only [h.cursorLine hy, ok_bind] at hok
  obtain ⟨s₁, h₁, hok⟩ := bind_eq_ok.mp hok
  exact ⟨s₁, storeCh_draws h₁, storeCh_changes h hi hi' (Int.le_trans (by decide) h.width_pos)
    (Int.le_refl _) h₁, hok⟩

/-! ## Rows of the screen -/

/-- The numbers of the visible rows from `a` to `b`. -/
def RowsBetween (s : Screen) (a b i : Int) : Prop :=
  s.currentScrollbackLines + a ≤ i ∧ i ≤ s.currentScrollbackLines + b

/-- The rows between the margins. -/
def InRegion (s : Screen) : Int → Prop := s.RowsBetween s.scrollTop s.scrollBottom

theorem Draws.rowsBetween_eq (hd : Draws s s') (a b : Int) :
    s'.RowsBetween a b = s.RowsBetween a b := by
  unfold RowsBetween
  rw [hd.count_eq]

/-- A change of one of the rows from `a` to `b`, on a screen that has been drawn on. -/
theorem ChangesOnly.between {s'' : Screen} {y a b : Int}
    (hc : ChangesOnly (· = s'.currentScrollbackLines + y) s' s'') (hd : Draws s s') (ha : a ≤ y)
    (hb : y ≤ b) : ChangesOnly (s.RowsBetween a b) s' s'' := by
  refine hc.mono ?_
  rintro j rfl
  rw [← hd.rowsBetween_eq]
  unfold RowsBetween
  omega

/-- A line is cleared whose row has been looked up. -/
theorem clearRow_changes {line : Block ScreenChar} {y : Int} (h : s.Wf) (hy : 0 ≤ y)
    (hy' : y < s.height) (hok : (do
      let aLine ← s.getLineAtScreenIndex y
      s.clearLine aLine line) = .ok s') :
    Draws s s' ∧ ChangesOnly (· = s.currentScrollbackLines + y) s s' := by
  obtain ⟨hi, hi'⟩ := h.visible_range hy hy'
  rw [h.visibleLine hy hy', ok_bind] at hok
  exact ⟨clearLine_draws hok, clearLine_changes h hi hi' hok⟩

theorem copyVisible_changes {y z : Int} (h : s.Wf) (hy : 0 ≤ y) (hy' : y < s.height) (hz : 0 ≤ z)
    (hz' : z < s.height) (hok : (do
      let sourceLine ← s.getLineAtScreenIndex z
      let targetLine ← s.getLineAtScreenIndex y
      s.copyLine targetLine sourceLine) = .ok s') :
    Draws s s' ∧ ChangesOnly (· = s.currentScrollbackLines + y) s s' := by
  obtain ⟨s₁, h₁, hd, hcells⟩ := copyVisible_spec h hy hy' hz hz'
  obtain rfl := Except.ok.inj (h₁.symm.trans hok)
  refine ⟨hd, hd.sameRing, fun j x hj hj' hx hx' hne => ?_⟩
  rw [hcells j x hj hj' hx hx', if_neg hne]

theorem clearRows_changes {line : Block ScreenChar} {y : Int} {n : Nat} (h : s.Wf)
    (hH : s.height < 2 ^ 31) (hy : 0 ≤ y) (hn : y + n ≤ s.height)
    (hok : s.clearRows line y n = .ok s') :
    Draws s s' ∧ ChangesOnly (s.RowsBetween y (y + n - 1)) s s' := by
  refine ChangesOnly.forUp h (fun i s₁ s₂ hi hi' hd hwf hs => ?_) hok
  rw [cint_of_isInt (show IsInt (y + i) from ⟨by omega, by omega⟩)] at hs
  obtain ⟨hd₁, hc₁⟩ := clearRow_changes hwf (by omega) (by rw [hd.height_eq]; omega) hs
  exact ⟨hd₁, hc₁.between hd (by omega) (by omega)⟩

/-! ## Scrolling -/

theorem blankRow_changes {y : Int} (h : s.Wf) (hy : 0 ≤ y) (hy' : y < s.height) (hok : (do
      let targetLine ← s.getLineAtScreenIndex y
      let s ← s.setDefaultLine t targetLine
      s.dirtyRegion) = .ok s') : ChangesOnly (· = s.currentScrollbackLines + y) s s' := by
  obtain ⟨s₁, h₁, hd, hcells⟩ := blankRow_cells h t hy hy'
  obtain rfl := Except.ok.inj (h₁.symm.trans hok)
  exact ⟨hd.sameRing, fun j x hj hj' hx hx' hne => by rw [hcells j x hj hj' hx hx', if_neg hne]⟩

theorem scrollUpRegion_changes (h : s.Wf) (hok : s.scrollUpRegion t = .ok s') :
    ChangesOnly s.InRegion s s' := by
  have hm := h.margins
  unfold scrollUpRegion at hok
  split at hok
  · rename_i hlt
    obtain ⟨s₁, h₁, hok⟩ := bind_eq_ok.mp hok
    by_cases hfront : s.RegionInFront
    · obtain ⟨s₂, h₂, hd, hcells⟩ := moveRegionUp_spec h hlt hfront
      obtain rfl := Except.ok.inj (h₂.symm.trans h₁)
      have hc₁ : ChangesOnly s.InRegion s s₂ := by
        refine ⟨hd.sameRing, fun j x hj hj' hx hx' hout => ?_⟩
        rw [hcells j x hj hj' hx hx', if_neg]
        unfold InRegion RowsBetween at hout
        unfold firstRow lastRow
        omega
      have hc₂ := blankRow_changes (hd.wf h) (by rw [hd.margins_eq.2]; omega)
        (by rw [hd.margins_eq.2, hd.height_eq]; exact hm.2.2) hok
      rw [hd.margins_eq.2] at hc₂
      exact hc₁.trans (hc₂.between hd (by omega) (by omega))
    · rw [moveRegionUp_behind h hlt hfront] at h₁
      cases h₁
  · exact (ChangesOnly.refl s).of_ok hok

theorem moveRegionDown_changes (h : s.Wf) (hok : s.moveRegionDown = .ok s') :
    ChangesOnly s.InRegion s s' := by
  by_cases hlt : s.scrollTop < s.scrollBottom
  · by_cases hfront : s.RegionInFront
    · obtain ⟨s₁, h₁, hd, hcells⟩ := moveRegionDown_spec h hlt hfront
      obtain rfl := Except.ok.inj (h₁.symm.trans hok)
      refine ⟨hd.sameRing, fun j x hj hj' hx hx' hout => ?_⟩
      rw [hcells j x hj hj' hx hx', if_neg]
      unfold InRegion RowsBetween at hout
      unfold firstRow lastRow
      omega
    · rw [moveRegionDown_behind h hlt hfront] at hok
      cases hok
  · rw [moveRegionDown, if_neg hlt] at hok
    exact (ChangesOnly.refl s).of_ok hok

theorem scrollDown_changes (h : s.Wf) (hok : s.scrollDown t = .ok s') :
    ChangesOnly s.InRegion s s' := by
  have hm := h.margins
  obtain ⟨-, -, hok⟩ := bind_eq_ok.mp hok
  obtain ⟨s₁, h₁, hok⟩ := bind_eq_ok.mp hok
  have hd := moveRegionDown_draws h₁
  have hc := blankRow_changes (hd.wf h) (by rw [hd.margins_eq.1]; exact hm.1)
    (by rw [hd.margins_eq.1, hd.height_eq]; omega) hok
  rw [hd.margins_eq.1] at hc
  exact (moveRegionDown_changes h h₁).trans (hc.between hd (by omega) (by omega))

/-! ## Inserting and deleting lines -/

theorem moveRowsDown_changes {n : Int} (h : s.Wf) (hn : s.LinesFit n)
    (hok : s.moveRowsDown n = .ok s') :
    ChangesOnly (s.RowsBetween s.cursorY s.scrollBottom) s s' := by
  have hm := h.margins
  have hnum := hn.numLinesMoved_eq h
  unfold moveRowsDown at hok
  rw [hn.cint_sum, hnum] at hok
  obtain ⟨hy, hH, hpos, hsum⟩ := hn
  unfold OnScreen at hy
  split at hok
  · refine (ChangesOnly.forDown h (fun i s₁ s₂ hi hi' hd hwf hs => ?_) hok).2
    rw [hd.cursor_eq.2, cint_of_isInt (show IsInt (s.cursorY + i) from ⟨by omega, by omega⟩),
      cint_of_isInt (show IsInt (s.cursorY + i + n) from ⟨by omega, by omega⟩)] at hs
    obtain ⟨hd₁, hc₁⟩ := copyVisible_changes hwf (by omega) (by rw [hd.height_eq]; omega)
      (by omega) (by rw [hd.height_eq]; omega) hs
    exact ⟨hd₁, hc₁.between hd (by omega) (by omega)⟩
  · exact (ChangesOnly.refl s).of_ok hok

theorem moveRowsUp_changes {n : Int} (h : s.Wf) (hn : s.LinesFit n)
    (hok : s.moveRowsUp n = .ok s') :
    ChangesOnly (s.RowsBetween s.cursorY s.scrollBottom) s s' := by
  have hm := h.margins
  have hnum := hn.numLinesMoved_eq h
  unfold moveRowsUp at hok
  rw [hn.cint_sum, hnum] at hok
  obtain ⟨hy, hH, hpos, hsum⟩ := hn
  unfold OnScreen at hy
  split at hok
  · refine (ChangesOnly.forUp h (fun i s₁ s₂ hi hi' hd hwf hs => ?_) hok).2
    rw [hd.cursor_eq.2, cint_of_isInt (show IsInt (s.cursorY + i) from ⟨by omega, by omega⟩),
      cint_of_isInt (show IsInt (s.cursorY + i + n) from ⟨by omega, by omega⟩)] at hs
    obtain ⟨hd₁, hc₁⟩ := copyVisible_changes hwf (by omega) (by rw [hd.height_eq]; omega)
      (by omega) (by rw [hd.height_eq]; omega) hs
    exact ⟨hd₁, hc₁.between hd (by omega) (by omega)⟩
  · exact (ChangesOnly.refl s).of_ok hok

/-- The end of both operations: rows are cleared and flagged. -/
theorem clearAndFill_changes {s₁ : Screen} {y k m : Int} {n : Nat} (h : s.Wf)
    (hH : s.height < 2 ^ 31) (hd : Draws s s₁) (hc : ChangesOnly P s s₁) (hy : 0 ≤ y)
    (hn : y + n ≤ s.height) (hP : ∀ i, s.RowsBetween y (y + n - 1) i → P i) {v : Bool}
    (hok : (do
      let aDefaultLine := s₁.getDefaultLineWithWidth t s₁.width
      let s ← aDefaultLine.1.clearRows aDefaultLine.2 y n
      s.dirtyFill v k m) = .ok s') : ChangesOnly P s s' := by
  have hline := getDefaultLine_draws t.foregroundColorCode t.backgroundColorCode s₁.width s₁
  have hdl := hd.trans hline
  have hwf := hdl.wf h
  obtain ⟨s₂, h₂, hok⟩ := bind_eq_ok.mp hok
  obtain ⟨hd₂, hc₂⟩ := clearRows_changes hwf (by rw [hdl.height_eq]; exact hH) hy
    (by rw [hdl.height_eq]; exact hn) h₂
  rw [hdl.rowsBetween_eq] at hc₂
  have hcl : ChangesOnly P s₁ _ :=
    .of_buffer hline (hd.wf h) (getDefaultLine_bufferLines _ _ _ s₁)
  exact (hc.trans hcl).trans ((hc₂.mono hP).trans (dirtyFill_changes (hd₂.wf hwf) hok))

theorem Draws.clampLines_eq (hd : Draws s s') (n : Int) : s'.clampLines n = s.clampLines n := by
  unfold clampLines
  rw [hd.cursor_eq.2, hd.margins_eq.2]

/-- Not even one row is cleared when the cursor is below the bottom margin. -/
theorem clampLines_cases {n : Int} (hn : s.LinesFit n) :
    0 ≤ s.clampLines n ∨ s.clampLines n = s.scrollBottom - s.cursorY + 1 := by
  have hpos := hn.2.2.1
  unfold clampLines
  split <;> omega

theorem insertLines_changes {n : Int} (h : s.Wf) (hn : s.LinesFit n)
    (hok : s.insertLines t n = .ok s') :
    ChangesOnly (s.RowsBetween s.cursorY s.scrollBottom) s s' := by
  have hm := h.margins
  have hle := clampLines_le hn
  have hcases := clampLines_cases hn
  have hy := hn.1
  unfold OnScreen at hy
  obtain ⟨s₁, h₁, hok⟩ := bind_eq_ok.mp hok
  have hd := moveRowsDown_draws h₁
  simp only [hd.clampLines_eq, hd.cursor_eq.2] at hok
  obtain ⟨s₂, h₂, hok⟩ := bind_eq_ok.mp hok
  refine clearAndFill_changes h hn.2.1 hd (moveRowsDown_changes h hn h₁) hy.1 ?_ (fun i hi => ?_)
    (bind_eq_ok.mpr ⟨s₂, h₂, hok⟩)
  · omega
  · unfold RowsBetween at *
    omega

theorem deleteLines_changes {n : Int} (h : s.Wf) (hn : s.LinesFit n)
    (hok : s.deleteLines t n = .ok s') :
    ChangesOnly (s.RowsBetween s.cursorY s.scrollBottom) s s' := by
  have hm := h.margins
  have hle := clampLines_le hn
  have hcases := clampLines_cases hn
  have hy := hn.1
  unfold OnScreen at hy
  obtain ⟨s₁, h₁, hok⟩ := bind_eq_ok.mp hok
  have hd := moveRowsUp_draws h₁
  simp only [hd.clampLines_eq, hd.margins_eq.2] at hok
  obtain ⟨s₂, h₂, hok⟩ := bind_eq_ok.mp hok
  refine clearAndFill_changes h hn.2.1 hd (moveRowsUp_changes h hn h₁) ?_ ?_ (fun i hi => ?_)
    (bind_eq_ok.mpr ⟨s₂, h₂, hok⟩)
  · omega
  · omega
  · unfold RowsBetween at *
    omega

end Screen

end MobileTerminal
