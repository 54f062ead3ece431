import MobileTerminal.History
import MobileTerminal.Lines

/-!
# Line feed, index and scroll up

`setNewLine` and the token `IND` are two codes for one move: down by a row, and
at the bottom margin a scroll of the region. They differ in the last row of the
screen when the bottom margin lies above it: there the line feed scrolls the
region it is not in, and `IND` stays. Even there a reader may see no difference,
namely when the region consists of default lines already (`newLine_index_iff`).

`scrollUp` hands a screen without margins to `setNewLine`, which scrolls only
when the cursor is in the last row. Anywhere above, it moves the cursor instead.
So the token `SU` scrolls by its parameter exactly from the last row
(`scrollUp_token_iff`), with one exception at the other end: a parameter greater
than the height goes on appending default lines to the scrollback after the
whole screen has left, which shows unless the scrollback holds nothing else.

Both results compare what a reader sees: the rows of scrollback and screen and
the row of the cursor, as lists and numbers. `EndAlike` includes runs that end
in a fault, since the two codes reach the same fault in the same states.
-/

namespace MobileTerminal

namespace Screen

variable {F : Foundation} {t : Terminal} {s s' : Screen} {tok : VT100TCC}

/-! ## Line feed and index

Two operations end alike when a reader cannot tell their ends apart, or when
they stop with the same fault. -/

/-- The row of the cursor and all rows a reader sees are the same. -/
structure SameRows (s s' : Screen) : Prop where
  row : s'.cursorY = s.cursorY
  visible : s'.visibleRows = s.visibleRows
  scrollback : s'.scrollbackRows = s.scrollbackRows

/-- Two calls end alike: with the same view, or with the same fault. -/
def EndAlike (r r' : Res Screen) : Prop :=
  (∃ s s', r = .ok s ∧ r' = .ok s' ∧ SameRows s s') ∨ ∃ e, r = .error e ∧ r' = .error e

theorem SameRows.refl (s : Screen) : SameRows s s := ⟨rfl, rfl, rfl⟩

theorem SameRows.symm (h : SameRows s s') : SameRows s' s :=
  ⟨h.row.symm, h.visible.symm, h.scrollback.symm⟩

theorem SameRows.trans {s'' : Screen} (h : SameRows s s') (h' : SameRows s' s'') :
    SameRows s s'' :=
  ⟨h'.row.trans h.row, h'.visible.trans h.visible, h'.scrollback.trans h.scrollback⟩

theorem Draws.sameRows (hd : Draws s s') (hb : s'.bufferLines = s.bufferLines) : SameRows s s' := by
  refine ⟨hd.cursor_eq.2, ?_, ?_⟩
  · rw [visibleRows, visibleRows, hd.rows_of_eq hb, hd.count_eq]
  · rw [scrollbackRows, scrollbackRows, hd.rows_of_eq hb, hd.count_eq]

theorem touch_sameRows (k : Int) (s : Screen) : SameRows s (s.touch k) :=
  (touch_draws k s).sameRows rfl

theorem EndAlike.refl (r : Res Screen) : EndAlike r r := by
  cases r with
  | ok s => exact .inl ⟨s, s, rfl, rfl, .refl s⟩
  | error e => exact .inr ⟨e, rfl, rfl⟩

theorem endAlike_ok (h : SameRows s s') : EndAlike (.ok s) (.ok s') :=
  .inl ⟨s, s', rfl, rfl, h⟩

/-- What `putToken:` adds to the token's own code is not seen. -/
theorem endAlike_putToken {r : Res Screen} :
    EndAlike r (s.putToken F t tok) ↔ EndAlike r (s.dispatch F t tok) := by
  unfold putToken
  cases hrun : s.dispatch F t tok with
  | error e => rfl
  | ok s₁ =>
      have hview : SameRows s₁ (if s.cursorX ≠ s₁.cursorX ∨ s.cursorY ≠ s₁.cursorY then
          s₁.touch (s.cursorY * s₁.width + s.cursorX) else s₁) := by
        split
        · exact touch_sameRows _ _
        · exact .refl _
      simp only [ok_bind]
      generalize (if s.cursorX ≠ s₁.cursorX ∨ s.cursorY ≠ s₁.cursorY then
          s₁.touch (s.cursorY * s₁.width + s.cursorX) else s₁) = s₂ at hview
      constructor
      · rintro (⟨a, b, ha, hb, hab⟩ | ⟨e, -, he⟩)
        · cases hb
          exact .inl ⟨a, s₁, ha, rfl, hab.trans hview.symm⟩
        · cases he
      · rintro (⟨a, b, ha, hb, hab⟩ | ⟨e, -, he⟩)
        · cases hb
          exact .inl ⟨a, s₂, ha, rfl, hab.trans hview⟩
        · cases he

/-- A region of the screen becomes the one above it, and its last row a default line. -/
theorem scrollUp_rows (h : s.Wf) (t : Terminal) (hm : s.scrollTop < s.scrollBottom)
    (hfull : ¬s.FullMargins) (hfront : s.RegionInFront) :
    ∃ s', s.scrollUp t = .ok s' ∧ s.ShowsRows s' (deleteRows (s.blankRow t) s.scrollTop.toNat
      s.scrollBottom.toNat 1 s.visibleRows) := by
  have hmar := h.margins
  obtain ⟨s', hok, hd, hcells⟩ := scrollUp_cells h t hm hfull hfront
  unfold firstRow lastRow at hcells
  refine ⟨s', hok, hd.showsRows_delete h (m := 1) hmar.1 hmar.2.1 (by omega) (by omega)
    hmar.2.2 ?_⟩
  intro j x hj hj' hx hx'
  rw [hcells j x hj hj' hx hx']
  by_cases hlast : j = s.currentScrollbackLines + s.scrollBottom
  · rw [if_neg (by omega), if_pos hlast, if_neg (by omega), if_pos (by omega)]
  · rw [if_neg hlast]
    by_cases hin : s.currentScrollbackLines + s.scrollTop ≤ j ∧
        j < s.currentScrollbackLines + s.scrollBottom
    · rw [if_pos hin, if_pos (by omega)]
    · rw [if_neg hin, if_neg (by omega), if_neg (by omega)]

/-- Nothing changes when the rows of the region are default lines already. -/
theorem deleteRows_eq_self_iff {α : Type} {blank : α} {y b : Nat} {rows : List α} (hy : y < b)
    (hb : b < rows.length) :
    deleteRows blank y b 1 rows = rows ↔ ∀ i, y ≤ i → i ≤ b → rows[i]? = some blank := by
  have hget : ∀ i, (deleteRows blank y b 1 rows)[i]? = if y ≤ i ∧ i + 1 ≤ b then rows[i + 1]?
      else if y ≤ i ∧ i ≤ b then some blank else rows[i]? := deleteRows_getElem? (by omega) hb
  constructor
  · intro heq
    rw [heq] at hget
    have hlast : rows[b]? = some blank := by
      rw [hget b, if_neg (by omega), if_pos (by omega)]
    -- every row is the next one, down to the last
    have hup : ∀ k, k ≤ b - y → rows[b - k]? = some blank := by
      intro k
      induction k with
      | zero => exact fun _ => hlast
      | succ k ih =>
          intro hk
          rw [hget, if_pos (by omega), show b - (k + 1) + 1 = b - k by omega]
          exact ih (by omega)
    intro i hi hi'
    have hrow := hup (b - i) (by omega)
    rwa [show b - (b - i) = i by omega] at hrow
  · intro hblank
    apply List.ext_getElem?
    intro i
    rw [hget]
    by_cases hmoved : y ≤ i ∧ i + 1 ≤ b
    · rw [if_pos hmoved, hblank i hmoved.1 (by omega), hblank (i + 1) (by omega) hmoved.2]
    · rw [if_neg hmoved]
      by_cases hin : y ≤ i ∧ i ≤ b
      · rw [if_pos hin, hblank i hin.1 hin.2]
      · rw [if_neg hin]

/-- The cursor is in the last row, below a region of more than one row. -/
def BelowRegion (s : Screen) : Prop :=
  s.cursorY = s.height - 1 ∧ s.scrollBottom < s.cursorY ∧ s.scrollTop < s.scrollBottom

theorem setNewLine_movesDown (t : Terminal) (hdown : s.CanMoveDown) :
    ∃ s', s.setNewLine t = .ok s' ∧ SameRows { s with cursorY := s.cursorY + 1 } s' := by
  refine ⟨_, setNewLine_down t hdown, ?_⟩
  split
  · exact touch_sameRows _ _
  · exact .refl _

theorem index_moves (t : Terminal) (hne : s.cursorY ≠ s.scrollBottom) :
    s.index t = .ok { s with
      cursorY := if s.cursorY + 1 ≥ s.height then s.height - 1 else s.cursorY + 1 } := if_neg hne

/-- Away from the last row below a region the two do the same. -/
theorem newLine_index_alike (h : s.Wf) (t : Terminal) (hy : s.OnScreen) (hin : ¬s.BelowRegion) :
    EndAlike (s.setNewLine t) (s.index t) := by
  have hm := h.margins
  unfold OnScreen at hy
  unfold BelowRegion at hin
  by_cases hdown : s.CanMoveDown
  · obtain ⟨s', hok, hsame⟩ := setNewLine_movesDown t hdown
    unfold CanMoveDown at hdown
    rw [hok, index_moves t (by omega), if_neg (by omega)]
    exact endAlike_ok hsame.symm
  · by_cases hbottom : s.cursorY = s.scrollBottom
    · have hscroll : s.setNewLine t = s.scrollUp t := by
        by_cases hfull : s.FullMargins
        · rw [scrollUp, h.scrollAsserts_ok, ok_bind, if_pos hfull]
        · exact setNewLine_eq_scrollUp t s hdown hfull
      rw [hscroll, index, if_pos hbottom]
      exact .refl _
    · -- the last row, below a region of one row
      unfold CanMoveDown at hdown
      have hfull : ¬s.FullMargins := fun hfull => by have := hfull.2; omega
      rw [index_moves t hbottom, if_pos (by omega), setNewLine_eq_scrollUp t s hdown hfull, scrollUp,
        h.scrollAsserts_ok, ok_bind, if_neg hfull, scrollUpRegion, if_neg (by omega)]
      exact endAlike_ok ⟨by simp only; omega, rfl, rfl⟩

/-- In that row they end alike only when there is nothing to scroll. -/
theorem newLine_index_below (h : s.Wf) (t : Terminal) (hbelow : s.BelowRegion) :
    EndAlike (s.setNewLine t) (s.index t) ↔ s.RegionInFront ∧
      ∀ y, s.scrollTop ≤ y → y ≤ s.scrollBottom →
        s.visibleRows[y.toNat]? = some (s.blankRow t) := by
  have hm := h.margins
  have hlen := h.visibleRows_length
  obtain ⟨hlast, hbottom, hregion⟩ := hbelow
  have hfull : ¬s.FullMargins := fun hfull => by have := hfull.2; omega
  have hindex : s.index t = .ok { s with cursorY := s.height - 1 } := by
    rw [index_moves t (by omega), if_pos (by omega)]
  rw [hindex, setNewLine_eq_scrollUp t s (by omega) hfull]
  by_cases hfront : s.RegionInFront
  · obtain ⟨s', hok, hrows⟩ := scrollUp_rows h t hregion hfull hfront
    have hself : deleteRows (s.blankRow t) s.scrollTop.toNat s.scrollBottom.toNat 1 s.visibleRows =
        s.visibleRows ↔ ∀ i, s.scrollTop.toNat ≤ i → i ≤ s.scrollBottom.toNat →
          s.visibleRows[i]? = some (s.blankRow t) := deleteRows_eq_self_iff (by omega) (by omega)
    rw [hok]
    constructor
    · rintro (⟨a, b, ha, hb, hab⟩ | ⟨e, he, -⟩)
      · cases ha
        cases hb
        refine ⟨hfront, fun y hy hy' => ?_⟩
        exact hself.mp (hrows.visible.symm.trans hab.visible.symm) y.toNat (by omega) (by omega)
      · cases he
    · rintro ⟨-, hblank⟩
      refine endAlike_ok ⟨?_, ?_, hrows.scrollback.symm⟩
      · rw [hrows.cursor.2]
        exact hlast.symm
      · rw [hrows.visible, hself.mpr]
        · rfl
        · intro i hi hi'
          have hrow := hblank i (by omega) (by omega)
          rwa [Int.toNat_natCast] at hrow
  · rw [scrollUp_behind h t hregion hfull hfront]
    constructor
    · rintro (⟨a, b, ha, -, -⟩ | ⟨e, -, he⟩)
      · cases ha
      · cases he
    · exact fun hblank => absurd hblank.1 hfront

/-- The line feed and `IND` leave the same row of the cursor and the same rows,
unless the cursor is in the last row of the screen and below the region. There the
line feed still scrolls the region, and the two agree only when that changes nothing. -/
theorem newLine_index_iff {c : VT100.Config} (hr : VT100.Reachable F c) (t : Terminal)
    (hy : c.2.screen.OnScreen) (htok : tok.type = .ind) :
    EndAlike (c.2.screen.setNewLine t) (c.2.screen.putToken F t tok) ↔
      (c.2.screen.BelowRegion → c.2.screen.RegionInFront ∧
        ∀ y, c.2.screen.scrollTop ≤ y → y ≤ c.2.screen.scrollBottom →
          c.2.screen.visibleRows[y.toNat]? = some (c.2.screen.blankRow t)) := by
  have h := (VT100.reachable_wf hr).screen
  generalize c.2.screen = s at *
  have hdispatch : s.dispatch F t tok = s.index t := by simp only [dispatch, htok]
  rw [endAlike_putToken, hdispatch]
  by_cases hbelow : s.BelowRegion
  · rw [newLine_index_below h t hbelow]
    exact ⟨fun hblank _ => hblank, fun hblank => hblank hbelow⟩
  · exact ⟨fun _ hin => absurd hin hbelow, fun _ => newLine_index_alike h t hy hbelow⟩

/-- On a new object both move the cursor down. -/
theorem init_newLine_index : ∃ v, VT100.init ⟨0, 0, 0⟩ = .ok v ∧
    EndAlike (v.screen.setNewLine v.terminal)
      (v.screen.putToken Foundation.latin1 v.terminal { type := .ind }) := by
  obtain ⟨v, hv, -, hs⟩ := VT100.init_fresh ⟨0, 0, 0⟩
  have hy : v.screen.OnScreen := by
    unfold OnScreen
    rw [hs.cursor.2, hs.height_eq]
    decide
  refine ⟨v, hv, (newLine_index_iff (VT100.init_reachable hv) v.terminal hy rfl).mpr ?_⟩
  intro hbelow
  have hlast : v.screen.cursorY = v.screen.height - 1 := hbelow.1
  rw [hs.cursor.2, hs.height_eq] at hlast
  cases hlast

/-- An `A` in the second row, margins around that row and the next, and the cursor in
the last row: the line feed moves the `A` away, `IND` does not. -/
theorem textRow_newLine_index : ∃ v v₁ v₂ v₃, VT100.init ⟨0, 0, 0⟩ = .ok v ∧
    v.readInputStream Foundation.latin1 [0x0a, 0x41] = .ok v₁ ∧
    v₁.readInputStream Foundation.latin1 VT100.setMarginsBytes = .ok v₂ ∧
    v₂.readInputStream Foundation.latin1 VT100.lastRowBytes = .ok v₃ ∧ v₃.screen.OnScreen ∧
    ¬EndAlike (v₃.screen.setNewLine v₃.terminal)
      (v₃.screen.putToken Foundation.latin1 v₃.terminal { type := .ind }) := by
  obtain ⟨v, v₁, done, row, hv, h₁, hrest, ht, hs, hdone, hrow⟩ :=
    VT100.init_lineFeeds Foundation.latin1_asciiExact ⟨0, 0, 0⟩ 1 [0x41]
      (by simp [IsPrintable]) (by decide)
  have horigin : v₁.terminal.originMode = false := by
    obtain ⟨stream, len, total, off, heq⟩ := hrest.modes
    rw [heq, ht]
    rfl
  obtain ⟨v₂, v₃, h₂, h₃, hd, hb⟩ := VT100.readInputStream_margins_lastRow
    (F := Foundation.latin1) ⟨hrest.wf, hs.wf⟩ hrest.pending_eq hs.height_eq horigin
  have hwf₃ : v₃.screen.Wf := (VT100.reachable_wf ((((VT100.init_reachable hv).readInputStream
    h₁).readInputStream h₂).readInputStream h₃)).screen
  have hrows : v₃.screen.rows = v₁.screen.rows := hd.rows_of_eq hb
  have hheight : v₃.screen.height = 25 := hd.height_eq.trans hs.height_eq
  have hcount : v₃.screen.currentScrollbackLines = 0 := by
    rw [hd.count_eq]
    refine hs.count_eq.trans ?_
    rw [hdone]
    rfl
  have hmargins : v₃.screen.scrollTop = 1 ∧ v₃.screen.scrollBottom = 2 := hd.margins_eq
  have hcursor : v₃.screen.cursorY = 24 := hd.cursor_eq.2
  refine ⟨v, v₁, v₂, v₃, hv, h₁, h₂, h₃, ?_, ?_⟩
  · unfold OnScreen
    omega
  · rw [endAlike_putToken]
    intro halike
    have hbelow : v₃.screen.BelowRegion := by
      unfold BelowRegion
      omega
    have hblank := ((newLine_index_below hwf₃ v₃.terminal hbelow).mp halike).2 1 (by omega)
      (by omega)
    obtain ⟨hlt, hcell⟩ := hs.row_eq
    have hindex : (keptAbove defaultScrollback kDefaultHeight.toNat done).length = 1 := by
      rw [keptAbove, List.rtake, List.length_drop, hdone]
      rfl
    -- the second row is still the one with the text
    have hsecond : v₃.screen.visibleRows[(1 : Int).toNat]? = some row := by
      rw [visibleRows, hcount, hrows, Int.toNat_zero, List.drop_zero, Int.toNat_one, ← hindex,
        List.getElem?_eq_getElem hlt, hcell]
    rw [hsecond, Option.some.injEq] at hblank
    have hmem : v.terminal.printed 0x41 ∈ row := by
      apply List.mem_of_mem_take (i := 1)
      change row.take 1 = [v.terminal.printed 0x41] at hrow
      rw [hrow]
      exact List.mem_singleton_self _
    rw [hblank] at hmem
    have hnul := hwf₃.blankRow_nul v₃.terminal _ hmem
    cases hnul

/-! ## Scroll up

In the last row of a screen without margins the loop of the token is a sequence
of line feeds, each of which appends a default line. Seen from the scrollback
the screen is then shifted, as long as there are rows of it left to shift. -/

section

variable {α : Type} {b : α} {m k : Nat}

theorem take_replicate_append_iff (hm : 0 < m) {l : List α} :
    (List.replicate m b ++ l).take k = l.take k ↔ l.take k = List.replicate k b := by
  constructor
  · intro heq
    -- the first `m` elements are `b`, and every later one is the one `m` before it
    have hall : ∀ i, i < k → l[i]? = some b := by
      intro i
      induction i using Nat.strongRecOn with
      | ind i ih =>
          intro hi
          have hget := congrArg (fun l : List α => l[i]?) heq
          simp only [List.getElem?_take_of_lt hi] at hget
          rw [← hget]
          rw [List.getElem?_append, List.length_replicate]
          split
          · rename_i him
            exact List.getElem?_replicate_of_lt him
          · exact ih (i - m) (by omega) (by omega)
    apply List.ext_getElem?
    intro i
    rw [List.getElem?_take, List.getElem?_replicate]
    split
    · rename_i hi
      exact hall i hi
    · rfl
  · intro hblank
    have hall : ∀ i, i < k → l[i]? = some b := by
      intro i hi
      rw [← List.getElem?_take_of_lt hi, hblank, List.getElem?_replicate_of_lt hi]
    apply List.ext_getElem?
    intro i
    rw [List.getElem?_take, List.getElem?_take]
    split
    · rename_i hi
      rw [hall i hi]
      rw [List.getElem?_append, List.length_replicate]
      split
      · rename_i him
        exact List.getElem?_replicate_of_lt him
      · exact hall (i - m) (by omega)
    · rfl

/-- Copies of `b` at the end are not noticed among the last `k` only when these are copies of
`b` already. -/
theorem rtake_append_replicate_iff (hm : 0 < m) {l : List α} :
    (l ++ List.replicate m b).rtake k = l.rtake k ↔ l.rtake k = List.replicate k b := by
  have htake := take_replicate_append_iff (b := b) (k := k) hm (l := l.reverse)
  simp only [List.rtake_eq_reverse_take_reverse, List.reverse_append, List.reverse_replicate,
    List.reverse_inj]
  rw [htake]
  constructor
  · intro heq
    rw [heq, List.reverse_replicate]
  · intro heq
    rw [← List.reverse_reverse (List.take k l.reverse), heq, List.reverse_replicate]

end

/-- The screen is shifted up by `k` rows: they go to the end of the scrollback, the oldest
rows of which are lost, and default lines come in at the bottom. The cursor stays. -/
structure ShiftedUp (t : Terminal) (k : Nat) (s s' : Screen) : Prop where
  cursor : s'.cursorX = s.cursorX ∧ s'.cursorY = s.cursorY
  visible : s'.visibleRows = s.visibleRows.drop k ++ List.replicate k (s.blankRow t)
  scrollback : s'.scrollbackRows =
    (s.scrollbackRows ++ s.visibleRows.take k).rtake s.maxScrollbackLines.toNat

/-- `n` default lines have been appended at the bottom. -/
structure Fed (t : Terminal) (n : Nat) (s s' : Screen) : Prop where
  wf : s'.Wf
  margins : s'.FullMargins
  size : SameSize s s'
  cursor : s'.cursorX = s.cursorX ∧ s'.cursorY = s.cursorY
  blank : s'.blankRow t = s.blankRow t
  rows : s'.rows = (s.rows ++ List.replicate n (s.blankRow t)).rtake s.totalHeight.toNat

theorem Fed.zero (h : s.Wf) (hm : s.FullMargins) : Fed t 0 s s := by
  have hle := h.rows_length_le
  refine ⟨h, hm, ⟨rfl, rfl, rfl⟩, ⟨rfl, rfl⟩, rfl, ?_⟩
  rw [List.replicate_zero, List.append_nil, List.rtake, Nat.sub_eq_zero_of_le (by omega),
    List.drop_zero]

theorem Fed.scrollUp {n : Nat} (hf : Fed t n s s') (hy : s.height - 1 ≤ s.cursorY) :
    ∃ s'', s'.scrollUp t = .ok s'' ∧ Fed t (n + 1) s s'' := by
  obtain ⟨s'', hok, hd, hblank, hrows⟩ := setNewLine_addsBlank hf.wf t hf.margins
    (by rw [hf.size.height_eq, hf.cursor.2]; exact hy)
  have hrot : s'.rotate.cursorX = s'.cursorX ∧ s'.rotate.cursorY = s'.cursorY ∧
      s'.rotate.scrollTop = s'.scrollTop ∧ s'.rotate.scrollBottom = s'.scrollBottom ∧
      SameSize s' s'.rotate := by
    rw [hf.wf.rotate_eq]
    split <;> exact ⟨rfl, rfl, rfl, rfl, rfl, rfl, rfl⟩
  obtain ⟨hx, hy', htop, hbottom, hsize⟩ := hrot
  have hsize' := (hf.size.trans hsize).trans hd.sameRing.sameSize
  refine ⟨s'', ?_, hd.wf hf.wf.rotate, ?_, hsize', ?_, ?_, ?_⟩
  · rw [Screen.scrollUp, hf.wf.scrollAsserts_ok, ok_bind, if_pos hf.margins, hok]
  · have hmargins := hf.margins
    unfold FullMargins at *
    rw [hd.margins_eq.1, hd.margins_eq.2, htop, hbottom, hsize'.height_eq, ← hf.size.height_eq]
    exact hmargins
  · rw [hd.cursor_eq.1, hd.cursor_eq.2, hx, hy']
    exact hf.cursor
  · rw [← hf.blank, blankRow, blankRow, hblank, hd.realWidth_eq, realWidth, hsize.width_eq]
    rfl
  · rw [hrows, hf.rows, hf.blank, show s'.totalHeight = s.totalHeight by
      rw [totalHeight, totalHeight, hf.size.max_eq, hf.size.height_eq], rtake_append_rtake,
      List.append_assoc, ← List.replicate_succ']

/-- In the last row the loop of the token `SU` appends as many default lines as it has rounds. -/
theorem scrollUp_loop (h : s.Wf) (t : Terminal) (hm : s.FullMargins)
    (hy : s.height - 1 ≤ s.cursorY) (n : Nat) :
    ∃ s', forUp (fun _ s => s.scrollUp t) 0 n s = .ok s' ∧ Fed t n s s' := by
  have hloop := forUp_total 0 n (f := fun _ s => s.scrollUp t)
    (P := fun i s' => Fed t i.toNat s s') (s := s) ?_ (.zero h hm)
  · obtain ⟨s', hok, hf⟩ := hloop
    rw [Int.zero_add, Int.toNat_natCast] at hf
    exact ⟨s', hok, hf⟩
  · intro i s₁ hi hi' hf
    rw [show (i + 1).toNat = i.toNat + 1 by omega]
    exact hf.scrollUp hy

theorem Fed.count_eq {n : Nat} (hf : Fed t n s s') (h : s.Wf) :
    s'.currentScrollbackLines.toNat =
      min (s.currentScrollbackLines.toNat + n) s.maxScrollbackLines.toNat := by
  have hc := h.count_range
  have hh := h.height_pos
  have hlen := h.rows_length_eq
  have hlen' := hf.wf.rows_length_eq
  have hT : s.totalHeight = s.maxScrollbackLines + s.height := rfl
  rw [hf.rows, List.rtake, List.length_drop, List.length_append, List.length_replicate,
    hf.size.height_eq] at hlen'
  omega

theorem Fed.visible {n : Nat} (hf : Fed t n s s') (h : s.Wf) :
    s'.visibleRows = s.visibleRows.drop (min n s.height.toNat) ++
      List.replicate (min n s.height.toNat) (s.blankRow t) := by
  have hc := h.count_range
  have hh := h.height_pos
  have hlen := h.rows_length_eq
  have hcount := hf.count_eq h
  have hT : s.totalHeight = s.maxScrollbackLines + s.height := rfl
  rw [visibleRows, visibleRows, hf.rows, List.rtake, List.drop_drop, List.drop_drop,
    List.length_append, List.length_replicate,
    show s.rows.length + n - s.totalHeight.toNat + s'.currentScrollbackLines.toNat =
      s.currentScrollbackLines.toNat + n by omega, List.drop_append, List.drop_replicate]
  congr 1
  · rcases Nat.le_total n s.height.toNat with hn | hn
    · rw [Nat.min_eq_left hn]
    · rw [Nat.min_eq_right hn, List.drop_of_length_le (by omega), List.drop_of_length_le (by omega)]
  · congr 1
    omega

theorem Fed.scrollback {n : Nat} (hf : Fed t n s s') (h : s.Wf) :
    s'.scrollbackRows = ((s.rows ++ List.replicate n (s.blankRow t)).take
      (s.currentScrollbackLines.toNat + n)).rtake s.maxScrollbackLines.toNat := by
  have hc := h.count_range
  have hh := h.height_pos
  have hlen := h.rows_length_eq
  have hcount := hf.count_eq h
  have hT : s.totalHeight = s.maxScrollbackLines + s.height := rfl
  rw [scrollbackRows, hf.rows, List.rtake, List.rtake, List.take_drop]
  simp only [List.length_append, List.length_replicate, List.length_take]
  congr 1
  · omega
  · congr 1
    omega

/-- Where the claimed scrollback and the one the loop leaves differ: it goes on appending default
lines after the whole screen has left. -/
theorem Fed.shiftedUp_iff {n : Nat} (hf : Fed t n s s') (h : s.Wf) :
    ShiftedUp t (min n s.height.toNat) s s' ↔ n ≤ s.height.toNat ∨
      s.rows.rtake s.maxScrollbackLines.toNat =
        List.replicate s.maxScrollbackLines.toNat (s.blankRow t) := by
  have hc := h.count_range
  have hh := h.height_pos
  have hlen := h.rows_length_eq
  have hiff : ShiftedUp t (min n s.height.toNat) s s' ↔ s'.scrollbackRows =
      (s.rows.take (s.currentScrollbackLines.toNat + min n s.height.toNat)).rtake
        s.maxScrollbackLines.toNat := by
    rw [← scrollbackRows_append_take]
    exact ⟨fun hs => hs.scrollback, fun hs => ⟨hf.cursor, hf.visible h, hs⟩⟩
  rw [hiff, hf.scrollback h]
  rcases Nat.lt_or_ge s.height.toNat n with hn | hn
  · rw [Nat.min_eq_right (by omega), List.take_of_length_le (l := s.rows) (by omega),
      List.take_append, List.take_of_length_le (l := s.rows) (by omega), List.take_replicate,
      rtake_append_replicate_iff (by omega)]
    constructor
    · exact .inr
    · rintro (hle | hblank)
      · omega
      · exact hblank
  · rw [Nat.min_eq_left hn, List.take_append_of_le_length (by omega)]
    exact ⟨fun _ => .inl hn, fun _ => rfl⟩

/-- Above the last row the first round moves the cursor down, and no round moves it up again. -/
theorem scrollUp_moves {n : Nat} (h : s.Wf) (hm : s.FullMargins) (hy : s.cursorY < s.height - 1)
    (hn : 0 < n) (hok : forUp (fun _ s => s.scrollUp t) 0 n s = .ok s') :
    s.cursorY < s'.cursorY := by
  have hloop := forUp_inv (P := fun i s' => s'.Wf ∧ s'.FullMargins ∧ s'.height = s.height ∧
      s.cursorY ≤ s'.cursorY ∧ (0 < i → s.cursorY < s'.cursorY)) ?_
    ⟨h, hm, rfl, Int.le_refl _, fun hi => absurd hi (Int.lt_irrefl 0)⟩ hok
  · exact hloop.2.2.2.2 (by omega)
  · rintro i s₁ s₂ hi hi' ⟨hwf, hfull, hheight, hle, hlt⟩ hs
    have hwf₂ := scrollUp_wf hwf hs
    rw [scrollUp, hwf.scrollAsserts_ok, ok_bind, if_pos hfull] at hs
    have hbottom := hfull.2
    refine ⟨hwf₂, ?_⟩
    obtain ⟨hdown, hd⟩ | ⟨hstay, -, hd⟩ | ⟨-, hpart, -⟩ := setNewLine_cases hwf hs
    · have hheight₂ : s₂.height = s₁.height := hd.height_eq
      have hmargins₂ : s₂.scrollTop = s₁.scrollTop ∧ s₂.scrollBottom = s₁.scrollBottom :=
        hd.margins_eq
      have hcursor₂ : s₂.cursorY = s₁.cursorY + 1 := hd.cursor_eq.2
      refine ⟨⟨hmargins₂.1.trans hfull.1, by omega⟩, by omega, by omega, fun _ => by omega⟩
    · have hrot : s₁.rotate.cursorY = s₁.cursorY ∧ s₁.rotate.height = s₁.height ∧
          s₁.rotate.scrollTop = s₁.scrollTop ∧ s₁.rotate.scrollBottom = s₁.scrollBottom := by
        rw [hwf.rotate_eq]
        split <;> exact ⟨rfl, rfl, rfl, rfl⟩
      have hheight₂ := hd.height_eq
      have hmargins₂ := hd.margins_eq
      have hcursor₂ := hd.cursor_eq.2
      unfold CanMoveDown at hstay
      refine ⟨⟨by rw [hmargins₂.1, hrot.2.2.1, hfull.1], by omega⟩, by omega, by omega,
        fun _ => by omega⟩
    · exact absurd hfull hpart

theorem shiftedUp_touch {k : Nat} (a : Int) :
    ShiftedUp t k s (s'.touch a) ↔ ShiftedUp t k s s' := by
  have hsame := touch_sameRows a s'
  constructor
  · rintro ⟨hcursor, hvisible, hscrollback⟩
    exact ⟨hcursor, hsame.visible.symm.trans hvisible, hsame.scrollback.symm.trans hscrollback⟩
  · rintro ⟨hcursor, hvisible, hscrollback⟩
    exact ⟨hcursor, hsame.visible.trans hvisible, hsame.scrollback.trans hscrollback⟩

/-- What a dirty flag does not change holds after the token when it holds after its own code. -/
theorem putToken_ends {P : Screen → Prop} (hP : ∀ a s, P (s.touch a) ↔ P s) :
    (∃ s', s.putToken F t tok = .ok s' ∧ P s') ↔ ∃ s', s.dispatch F t tok = .ok s' ∧ P s' := by
  unfold putToken
  cases hrun : s.dispatch F t tok with
  | error e => rfl
  | ok s₁ =>
      simp only [ok_bind, Except.ok.injEq, exists_eq_left']
      split
      · exact hP _ _
      · rfl

/-- The token `SU` on a screen without margins scrolls by its parameter and leaves the cursor
alone exactly when the cursor is in the last row, and the parameter is not greater than the
number of rows or the scrollback to be is full of default lines. -/
theorem scrollUp_token_iff {c : VT100.Config} (hr : VT100.Reachable F c) (t : Terminal) {n : Nat}
    (hm : c.2.screen.FullMargins) (htok : tok.type = .su) (hn : tok.csi.p.cell 0 = n) :
    let s := c.2.screen
    (∃ s', s.putToken F t tok = .ok s' ∧ ShiftedUp t (min n s.height.toNat) s s') ↔
      n = 0 ∨ s.height - 1 ≤ s.cursorY ∧ (n ≤ s.height.toNat ∨
        s.rows.rtake s.maxScrollbackLines.toNat =
          List.replicate s.maxScrollbackLines.toNat (s.blankRow t)) := by
  have h := (VT100.reachable_wf hr).screen
  generalize c.2.screen = s at *
  have hdispatch : s.dispatch F t tok = forUp (fun _ s => s.scrollUp t) 0 n s := by
    simp only [dispatch, htok, hn, Int.toNat_natCast]
  simp only [putToken_ends fun a _ => shiftedUp_touch a, hdispatch]
  rcases Nat.eq_zero_or_pos n with hzero | hpos
  · have hnone : ShiftedUp t (min n s.height.toNat) s s := by
      rw [hzero]
      exact ((Fed.zero h hm).shiftedUp_iff h).mpr (.inl (Nat.zero_le _))
    exact ⟨fun _ => .inl hzero, fun _ => ⟨s, by rw [hzero]; rfl, hnone⟩⟩
  · rcases lt_or_ge s.cursorY (s.height - 1) with hy | hy
    · constructor
      · rintro ⟨s', hok, hs⟩
        have hmoved := scrollUp_moves h hm hy hpos hok
        have hstays := hs.cursor.2
        omega
      · rintro (hzero | ⟨hlast, -⟩)
        · omega
        · omega
    · obtain ⟨s', hok, hf⟩ := scrollUp_loop h t hm hy n
      have hiff := hf.shiftedUp_iff h
      constructor
      · rintro ⟨s₁, h₁, hs⟩
        obtain rfl := Except.ok.inj (hok.symm.trans h₁)
        exact .inr ⟨hy, hiff.mp hs⟩
      · rintro (hzero | ⟨-, hcase⟩)
        · omega
        · exact ⟨s', hok, hiff.mpr hcase⟩

/-- `ESC [ S` -/
def upBytes : List UInt8 := [0x1b, 0x5b, 0x53]

theorem up_token : ∃ tok : VT100TCC,
    (∀ t s, decodeControl t upBytes s = .ok (tok, 3, s)) ∧ tok.type = .su ∧
      tok.csi.p.cell 0 = (1 : Nat) :=
  ⟨_, fun _ _ => rfl, rfl, rfl⟩

/-- From the last row of a new screen the token scrolls. -/
theorem lastRow_scrollUp : ∃ v v₁ tok s', VT100.init ⟨0, 0, 0⟩ = .ok v ∧
    v.readInputStream Foundation.latin1 VT100.lastRowBytes = .ok v₁ ∧
    decodeControl v₁.terminal upBytes v₁.screen = .ok (tok, 3, v₁.screen) ∧
    v₁.screen.putToken Foundation.latin1 v₁.terminal tok = .ok s' ∧
    ShiftedUp v₁.terminal 1 v₁.screen s' := by
  obtain ⟨v, hv, ht, hs⟩ := VT100.init_fresh ⟨0, 0, 0⟩
  obtain ⟨tok, hdecode, htype, hp0⟩ := up_token
  obtain ⟨v₁, h₁, hd₁, -⟩ := VT100.readInputStream_lastRow (F := Foundation.latin1)
    (VT100.init_wf hv) (by rw [ht]; rfl) hs.height_eq (by rw [ht]; rfl)
  have hy : v₁.screen.cursorY = 24 := hd₁.cursor_eq.2
  have hheight : v₁.screen.height = 25 := hd₁.height_eq.trans hs.height_eq
  have hmargins : v₁.screen.FullMargins := by
    refine ⟨hd₁.margins_eq.1.trans hs.margins.1, hd₁.margins_eq.2.trans ?_⟩
    rw [hheight]
    refine hs.margins.2.trans ?_
    rw [hs.height_eq]
    rfl
  have hiff := scrollUp_token_iff ((VT100.init_reachable hv).readInputStream h₁) v₁.terminal
    hmargins htype hp0
  simp only [hheight, hy] at hiff
  obtain ⟨s', hok, hup⟩ := hiff.mpr (.inr ⟨by decide, .inl (by decide)⟩)
  exact ⟨v, v₁, tok, s', hv, h₁, hdecode _ _, hok, hup⟩

/-- From the first row of a new screen it moves the cursor down instead, and nothing scrolls.
-/
theorem init_scrollUp_moves : ∃ v tok, VT100.init ⟨0, 0, 0⟩ = .ok v ∧ v.screen.FullMargins ∧
    decodeControl v.terminal upBytes v.screen = .ok (tok, 3, v.screen) ∧
    ¬∃ s', v.screen.putToken Foundation.latin1 v.terminal tok = .ok s' ∧
      ShiftedUp v.terminal 1 v.screen s' := by
  obtain ⟨v, hv, -, hs⟩ := VT100.init_fresh ⟨0, 0, 0⟩
  obtain ⟨tok, hdecode, htype, hp0⟩ := up_token
  refine ⟨v, tok, hv, hs.margins, hdecode _ _, ?_⟩
  rw [putToken_ends fun a _ => shiftedUp_touch a]
  rintro ⟨s', hok, hup⟩
  have hloop : forUp (fun _ s => s.scrollUp v.terminal) 0 1 v.screen = .ok s' := by
    simpa only [dispatch, htype, hp0, Int.toNat_natCast] using hok
  have hmoved := scrollUp_moves hs.wf hs.margins (by rw [hs.cursor.2, hs.height_eq]; decide)
    (by decide) hloop
  have hstays := hup.cursor.2
  omega

end Screen

end MobileTerminal
