import MobileTerminal.Confine
import MobileTerminal.CursorRow
import MobileTerminal.Erase
import MobileTerminal.AltScreen
import MobileTerminal.Sequence

/-!
# The scrollback is append-only

Rows enter the scrollback in one way only: a line feed in the last row of a
screen without margins, which the top row leaves. No token takes a row out of
it, edits one or changes their order, except that the ring forgets the oldest
rows when it is full.

`Leaves s s' rows` is a course of operations in which the rows `rows` leave the
screen in this order and nothing else happens to the scrollback; then it ends as
the scrollback of before with `rows` behind it, cut down to its last
`max_scrollback_lines` rows (`Leaves.scrollback`). Cutting after every row or
once at the end makes no difference (`rtake_append_rtake`), so courses can be
put one behind the other, and every token is one, with the control characters
inside its sequence (`scrollback_append_only`).

Most handlers are in `ChangesOnly` with rows of the screen, hence courses in
which no row leaves. The work is in the parameters that overflow: a sum that has
wrapped around passes the test that was to clamp it, and the handler then runs
over more cells or rows than the screen has. In a buffer whose cells an `int`
can count it leaves the buffer at once, and so does not complete.
-/

namespace MobileTerminal

variable {F : Foundation} {t : Terminal}

namespace Screen

variable {s s' s'' : Screen} {rows rows' : List (List ScreenChar)}

/-- The size of the screen and of its ring. -/
structure SameSize (s s' : Screen) : Prop where
  width_eq : s'.width = s.width
  height_eq : s'.height = s.height
  max_eq : s'.maxScrollbackLines = s.maxScrollbackLines

theorem SameSize.trans (h : SameSize s s') (h' : SameSize s' s'') : SameSize s s'' :=
  ⟨h'.width_eq.trans h.width_eq, h'.height_eq.trans h.height_eq, h'.max_eq.trans h.max_eq⟩

theorem SameRing.sameSize (h : SameRing s s') : SameSize s s' := ⟨h.width_eq, h.height_eq, h.max_eq⟩

/-- A course of operations: a piece of it either leaves the scrollback as it is or is a line
feed through which the top row leaves. `rows` are the rows that have left, in order. -/
inductive Leaves : Screen → Screen → List (List ScreenChar) → Prop where
  /-- The scrollback stays as it is. -/
  | stay {s s' : Screen} (h : s.Wf) (hsize : SameSize s s')
      (hrows : s'.scrollbackRows = s.scrollbackRows) : Leaves s s' []
  /-- A line feed in the last row: the top row leaves. -/
  | feed {t : Terminal} {s s' : Screen} (h : s.Wf) (hfull : s.FullMargins)
      (hy : s.cursorY = s.height - 1) (hok : s.setNewLine t = .ok s') :
      Leaves s s' (s.visibleRows.take 1)
  | trans {s s' s'' : Screen} {rows rows' : List (List ScreenChar)} (h : Leaves s s' rows)
      (h' : Leaves s' s'' rows') : Leaves s s'' (rows ++ rows')

/-! ## What a course does to the scrollback -/

/-- What has been cut off before need not be cut off again. -/
theorem rtake_append_rtake {α : Type} (n : Nat) (l l' : List α) :
    (l.rtake n ++ l').rtake n = (l ++ l').rtake n := by
  simp only [List.rtake, List.length_append, List.length_drop, List.drop_append, List.drop_drop]
  congr 1
  · congr 1
    omega
  · congr 1
    omega

theorem feed_size (h : s.Wf) (hfull : s.FullMargins) (hy : s.cursorY = s.height - 1)
    (hok : s.setNewLine t = .ok s') : SameSize s s' := by
  obtain ⟨s₁, h₁, hd, -⟩ := setNewLine_cells h t hfull (by omega)
  obtain rfl := Except.ok.inj (h₁.symm.trans hok)
  refine SameSize.trans ?_ hd.sameRing.sameSize
  rw [h.rotate_eq]
  split <;> exact ⟨rfl, rfl, rfl⟩

theorem feed_scrollback (h : s.Wf) (hfull : s.FullMargins) (hy : s.cursorY = s.height - 1)
    (hok : s.setNewLine t = .ok s') : s'.scrollbackRows =
      (s.scrollbackRows ++ s.visibleRows.take 1).rtake s.maxScrollbackLines.toNat := by
  have hh := h.height_pos
  have hc := h.count_range
  have hlen := h.rows_length_eq
  have hT : s.totalHeight = s.maxScrollbackLines + s.height := rfl
  obtain ⟨s₁, new, h₁, hd, hrows, -, -⟩ := setNewLine_bottom h t hfull hy
  obtain rfl := Except.ok.inj (h₁.symm.trans hok)
  have hcount : s₁.currentScrollbackLines = s.currentScrollbackLines + 1 - s.lostRows :=
    hd.count_eq.trans h.rotate_count
  have hlost : s.lostRows = s.currentScrollbackLines.toNat + 1 - s.maxScrollbackLines.toNat := by
    unfold lostRows
    split <;> omega
  rw [scrollbackRows_append_take, scrollbackRows, hrows, hcount, List.rtake, List.rtake,
    List.take_drop, List.take_append_of_le_length (by simp only [List.length_append, List.length_singleton]; omega)]
  simp only [List.length_append, List.length_singleton, List.length_take]
  congr 1
  · omega
  · congr 1
    omega

theorem Leaves.size (h : Leaves s s' rows) : SameSize s s' := by
  induction h with
  | stay _ hsize _ => exact hsize
  | feed h hfull hy hok => exact feed_size h hfull hy hok
  | trans _ _ ih ih' => exact ih.trans ih'

/-- After a course the scrollback is the one of before with the rows that have left
the screen, as far back as it goes. -/
theorem Leaves.scrollback (h : Leaves s s' rows) :
    s'.scrollbackRows = (s.scrollbackRows ++ rows).rtake s.maxScrollbackLines.toNat := by
  induction h with
  | @stay s s' h hsize hrows =>
      have hlen := h.scrollbackRows_length
      have hc := h.count_range
      rw [hrows, List.append_nil, List.rtake, Nat.sub_eq_zero_of_le (by omega), List.drop_zero]
  | feed h hfull hy hok => exact feed_scrollback h hfull hy hok
  | @trans s s' s'' rows rows' h h' ih ih' =>
      rw [ih', h.size.max_eq, ih, rtake_append_rtake, List.append_assoc]

/-! ## Courses -/

/-- Some rows, if any, leave the screen. -/
def Appends (s s' : Screen) : Prop := ∃ rows, Leaves s s' rows

namespace Appends

theorem trans (h : Appends s s') (h' : Appends s' s'') : Appends s s'' := by
  obtain ⟨rows, h⟩ := h
  obtain ⟨rows', h'⟩ := h'
  exact ⟨_, h.trans h'⟩

theorem size (h : Appends s s') : SameSize s s' := by
  obtain ⟨rows, h⟩ := h
  exact h.size

/-- Other fields of the screen than those of the ring. -/
theorem of_same (h : s.Wf) (hsize : SameSize s s') (hrows : s'.scrollbackRows = s.scrollbackRows) :
    Appends s s' := ⟨[], .stay h hsize hrows⟩

theorem refl (h : s.Wf) : Appends s s := of_same h ⟨rfl, rfl, rfl⟩ rfl

theorem moved (h : s.Wf) (x y : Int) : Appends s { s with cursorX := x, cursorY := y } :=
  of_same h ⟨rfl, rfl, rfl⟩ rfl

theorem touched (h : Appends s s') (hwf : s'.Wf) (i : Int) : Appends s (s'.touch i) :=
  h.trans (of_same hwf ⟨rfl, rfl, rfl⟩ rfl)

theorem ite {p : Prop} [Decidable p] (h : Appends s s') (h' : Appends s s'') :
    Appends s (if p then s' else s'') := by
  split
  · exact h
  · exact h'

theorem of_ok (h : Appends s s') (hok : (.ok s' : Res Screen) = .ok s'') : Appends s s'' :=
  Except.ok.inj hok ▸ h

theorem of_changes {P : Int → Prop} (h : s.Wf) (hd : Draws s s') (hc : ChangesOnly P s s')
    (hP : ∀ i, P i → s.currentScrollbackLines ≤ i) : Appends s s' := by
  have hcount := h.count_range
  have hh := h.height_pos
  have hT : s.totalHeight = s.maxScrollbackLines + s.height := rfl
  refine of_same h hc.ring.sameSize ?_
  refine h.scrollbackRows_congr (hd.wf h) hc.ring.width_eq hc.ring.count_eq
    fun i x hi hi' hx hx' => hc.cells i x hi (by omega) hx hx' fun hPi => ?_
  have := hP i hPi
  omega

theorem forUp {f : Int → Screen → Res Screen} {Q : Screen → Prop} {lo : Int} {n : Nat}
    (hf : ∀ i s s', s.Wf → Q s → f i s = .ok s' → (s'.Wf ∧ Q s') ∧ Appends s s') (h : s.Wf)
    (hQ : Q s) (hok : MobileTerminal.forUp f lo n s = .ok s') : Appends s s' := by
  have hinv := forUp_inv (P := fun _ s' => (s'.Wf ∧ Q s') ∧ Appends s s') ?_ ⟨⟨h, hQ⟩, refl h⟩ hok
  · exact hinv.2
  · rintro i s₁ s₂ - - ⟨⟨hwf₁, hQ₁⟩, ha₁⟩ hs
    obtain ⟨hwf₂, ha₂⟩ := hf i s₁ s₂ hwf₁ hQ₁ hs
    exact ⟨hwf₂, ha₁.trans ha₂⟩

end Appends

theorem OnScreen.cursorRow_visible (hy : s.OnScreen) (i : Int) (hi : i = s.cursorRow) :
    s.currentScrollbackLines ≤ i := by
  unfold OnScreen at hy
  unfold cursorRow at hi
  omega

theorem Wf.inRegion_visible (h : s.Wf) (i : Int) (hi : s.InRegion i) :
    s.currentScrollbackLines ≤ i := by
  have hm := h.margins
  unfold InRegion RowsBetween at hi
  omega

/-! ## Line feeds and text -/

theorem setNewLine_appends (h : s.Wf) (hy : s.OnScreen) (hok : s.setNewLine t = .ok s') :
    Appends s s' := by
  have hm := h.margins
  unfold OnScreen at hy
  obtain ⟨hmove, -⟩ | ⟨hstay, hfull, -⟩ | ⟨hstay, hfull, hd⟩ := setNewLine_cases h hok
  · rw [setNewLine_down t hmove] at hok
    have hmoved := Appends.moved h s.cursorX (s.cursorY + 1)
    exact Appends.of_ok (.ite (hmoved.touched { h with } _) hmoved) hok
  · have hlast : s.cursorY = s.height - 1 := by
      unfold CanMoveDown at hstay
      unfold FullMargins at hfull
      omega
    exact ⟨_, .feed h hfull hlast hok⟩
  · rw [setNewLine_eq_scrollUp t s hstay hfull] at hok
    obtain ⟨-, -, hok⟩ := bind_eq_ok.mp hok
    rw [if_neg hfull] at hok
    exact .of_changes h hd (scrollUpRegion_changes h hok) h.inRegion_visible

theorem putCell_appends {c : ScreenChar} (h : s.Wf) (hy : s.OnScreen)
    (hok : s.putCell t c = .ok s') : Appends s s' := by
  rw [putCell_eq] at hok
  obtain ⟨s₁, h₁, hok⟩ := bind_eq_ok.mp hok
  have hd₁ := placeCell_draws h₁
  -- the column may be behind the last one here, so the one of before stands in for it
  have hcol : Draws s { s₁ with cursorX := s.cursorX } := hd₁.withCursorX s.cursorX
  have hplaced : Appends s { s₁ with cursorX := s.cursorX } :=
    .of_changes h hcol ((placeCell_changes h hy h₁).withCursor s.cursorX s₁.cursorY)
      hy.cursorRow_visible
  split at hok
  · have hhome : Wf { s with cursorX := 0 } := h.withCursorX (Int.le_refl 0) h.width_pos
    have hwf : Wf { s₁ with cursorX := 0 } := (hd₁.withCursorX 0).wf hhome
    have hy₁ : OnScreen { s₁ with cursorX := 0 } := (hd₁.withCursorX 0).onScreen hy
    obtain ⟨s₂, hd₂, hc₂, hok⟩ := wrapToNextLine_changes hwf hy₁ hok
    have hstart : Appends s { s₁ with cursorX := 0 } :=
      hplaced.trans (.of_same (hcol.wf h) ⟨rfl, rfl, rfl⟩ rfl)
    exact (hstart.trans (.of_changes hwf hd₂ hc₂ hy₁.cursorRow_visible)).trans
      (setNewLine_appends (hd₂.wf hwf) (hd₂.onScreen hy₁) hok)
  · have hstart : Appends s s₁ := hplaced.trans (.of_same (hcol.wf h) ⟨rfl, rfl, rfl⟩ rfl)
    exact hstart.of_ok hok

theorem text_appends {cells : List ScreenChar} (h : s.Wf) (hy : s.OnScreen)
    (hok : cells.foldlM (fun s c => s.putCell t c) s = .ok s') : Appends s s' := by
  have hinv := foldlM_inv (P := fun s' => (s'.Wf ∧ s'.OnScreen) ∧ Appends s s') ?_
    ⟨⟨h, hy⟩, .refl h⟩ hok
  · exact hinv.2
  · rintro s₁ c s₂ ⟨⟨hwf₁, hy₁⟩, ha₁⟩ hs
    exact ⟨⟨putCell_wf hwf₁ hs, putCell_onScreen hwf₁ hy₁ hs⟩,
      ha₁.trans (putCell_appends hwf₁ hy₁ hs)⟩

theorem printStringToAnsi_appends (h : s.Wf) (string : List UniChar) :
    Appends s (s.printStringToAnsi string) :=
  .ite (.of_same h ⟨rfl, rfl, rfl⟩ rfl) (.refl h)

theorem putString_appends {string : List UniChar} {ascii : Bool} (h : s.Wf) (hy : s.OnScreen)
    (hok : s.putString F t string ascii = .ok s') : Appends s s' := by
  unfold putString at hok
  split at hok
  · exact (printStringToAnsi_appends h string).of_ok hok
  · unfold setString at hok
    split at hok
    · exact (Appends.refl h).of_ok hok
    · obtain ⟨cells, -, hok⟩ := bind_eq_ok.mp hok
      exact text_appends h hy hok

theorem lineFeed_appends (h : s.Wf) (hy : s.OnScreen) (hok : s.lineFeed t = .ok s') :
    Appends s s' := by
  obtain ⟨s₁, h₁, hok⟩ := bind_eq_ok.mp hok
  have ha₁ : s₁.Wf ∧ Appends s s₁ := by
    split at h₁
    · cases h₁
      exact ⟨printStringToAnsi_wf h _, printStringToAnsi_appends h _⟩
    · exact ⟨setNewLine_wf h h₁, setNewLine_appends h hy h₁⟩
  exact Appends.of_ok (ha₁.2.trans (.moved ha₁.1 0 s₁.cursorY)) hok

/-! ## Scrolling and erasing -/

theorem scrollUp_appends (h : s.Wf) (hy : s.OnScreen) (hok : s.scrollUp t = .ok s') :
    Appends s s' := by
  obtain ⟨-, -, hok⟩ := bind_eq_ok.mp hok
  split at hok
  · exact setNewLine_appends h hy hok
  · exact .of_changes h (scrollUpRegion_draws hok) (scrollUpRegion_changes h hok)
      h.inRegion_visible

theorem scrollDown_appends (h : s.Wf) (hok : s.scrollDown t = .ok s') : Appends s s' :=
  .of_changes h (scrollDown_draws hok) (scrollDown_changes h hok) h.inRegion_visible

theorem index_appends (h : s.Wf) (hy : s.OnScreen) (hok : s.index t = .ok s') : Appends s s' := by
  unfold index at hok
  split at hok
  · exact scrollUp_appends h hy hok
  · exact (Appends.moved h s.cursorX _).of_ok hok

theorem reverseIndex_appends (h : s.Wf) (hok : s.reverseIndex t = .ok s') : Appends s s' := by
  unfold reverseIndex at hok
  split at hok
  · exact scrollDown_appends h hok
  · exact (Appends.moved h s.cursorX _).of_ok hok

/-- Parameters other than 1 and 2 are taken for 0. -/
theorem eraseInDisplay_other (t : Terminal) (s : Screen) {p : Int} (hp : ¬(p = 1 ∨ p = 2)) :
    s.eraseInDisplay t p = s.eraseInDisplay t 0 := by
  rw [not_or] at hp
  have hspan : s.eraseSpan p = s.eraseSpan 0 := by
    simp [eraseSpan, hp.1, hp.2]
  simp only [eraseInDisplay, hspan]

theorem eraseInDisplay_appends {p : Int} (h : s.Wf) (hy : s.OnScreen)
    (hok : s.eraseInDisplay t p = .ok s') : Appends s s' := by
  have hd := eraseInDisplay_draws hok
  refine .of_same h hd.sameRing.sameSize
    (h.scrollbackRows_congr (hd.wf h) hd.width_eq hd.count_eq ?_)
  by_cases hp : p = 1 ∨ p = 2
  · obtain ⟨s₁, h₁, herased⟩ := eraseInDisplay_from_top h t hy.1 hy.2 hp
    obtain rfl := Except.ok.inj (h₁.symm.trans hok)
    exact herased.scrollback
  · rw [eraseInDisplay_other t s hp] at hok
    by_cases hfront : s.EraseInFront
    · obtain ⟨s₁, h₁, herased⟩ := eraseInDisplay_in_front h t hy.1 hy.2 hfront
      obtain rfl := Except.ok.inj (h₁.symm.trans hok)
      exact herased.scrollback
    · obtain ⟨s₁, h₁, -, hback⟩ := eraseInDisplay_behind h t hy.2 hfront
      obtain rfl := Except.ok.inj (h₁.symm.trans hok)
      exact hback

theorem alignRow_changes {c : ScreenChar} {y : Int} (h : s.Wf) (hy : 0 ≤ y) (hy' : y < s.height)
    (hok : (do
      let aLine ← s.getLineAtScreenIndex y
      let s ← forUp (fun j s => storeCell (aLine + j) c s) 0 s.width.toNat s
      s.storeCh (aLine + s.width) 0) = .ok s') :
    Draws s s' ∧ ChangesOnly (· = s.currentScrollbackLines + y) s s' := by
  have hw := h.width_pos
  obtain ⟨hi, hi'⟩ := h.visible_range hy hy'
  rw [h.visibleLine hy hy', ok_bind] at hok
  obtain ⟨s₁, h₁, hok⟩ := bind_eq_ok.mp hok
  have hrow : Draws s s₁ ∧ ChangesOnly (· = s.currentScrollbackLines + y) s s₁ := by
    refine ChangesOnly.forUp h (fun x s₂ s₃ hx hx' hd hwf hs => ?_) h₁
    rw [← hd.rowLine_eq, ← hd.realWidth_eq] at hs
    exact ⟨storeCell_draws hs, storeCell_changes hwf hi (by rw [hd.totalHeight_eq]; exact hi') hx
      (by rw [hd.width_eq]; omega) hs⟩
  obtain ⟨hd, hc⟩ := hrow
  rw [← hd.rowLine_eq, ← hd.realWidth_eq] at hok
  have hmark := storeCh_changes (hd.wf h) hi (by rw [hd.totalHeight_eq]; exact hi')
    (by rw [hd.width_eq]; omega) (Int.le_refl _) hok
  exact ⟨hd.trans (storeCh_draws hok), hc.trans hmark⟩

theorem alignmentDisplay_appends (h : s.Wf) (hok : s.alignmentDisplay t = .ok s') :
    Appends s s' := by
  have hd := alignmentDisplay_draws hok
  obtain ⟨s₁, h₁, hok⟩ := bind_eq_ok.mp hok
  have hrows : Draws s s₁ ∧ ChangesOnly (s.currentScrollbackLines ≤ ·) s s₁ := by
    refine ChangesOnly.forUp h (fun y s₂ s₃ hy hy' hd₂ hwf₂ hs => ?_) h₁
    obtain ⟨hd₃, hc₃⟩ := alignRow_changes hwf₂ hy (by rw [hd₂.height_eq]; omega) hs
    refine ⟨hd₃, hc₃.mono ?_⟩
    rintro i rfl
    rw [hd₂.count_eq]
    omega
  exact .of_changes h hd (hrows.2.trans (setDirty_changes (hrows.1.wf h) hok)) fun _ hi => hi

/-! ## Parameters that overflow

A parameter so large that its sum with the column or the row is no `int` passes the
test that is to clamp it. In a buffer whose cells an `int` can count, the operation
then leaves the buffer or asks for a row above the screen. -/

/-- The cells of the buffer and of one line more are counted by an `int`, as in
`malloc(new_total_height * (width + 1) * sizeof(screen_char_t))`. -/
def BufferFits (s : Screen) : Prop := s.bufferCells + s.realWidth ≤ 2 ^ 31

theorem SameSize.bufferFits (h : SameSize s s') (hfits : s.BufferFits) : s'.BufferFits := by
  unfold BufferFits bufferCells totalHeight realWidth at *
  rw [h.width_eq, h.height_eq, h.max_eq]
  exact hfits

theorem Wf.fits_range (h : s.Wf) (hfits : s.BufferFits) :
    2 * s.totalHeight + 2 ≤ 2 ^ 31 ∧ 3 * s.realWidth ≤ 2 ^ 31 := by
  have hw := h.width_pos
  have hh := h.height_pos
  have hmax := h.max_pos
  have hT : s.totalHeight = s.maxScrollbackLines + s.height := rfl
  have hcells : s.bufferCells + s.realWidth = (s.totalHeight + 1) * s.realWidth := by
    unfold bufferCells
    ring
  have hwide : (s.totalHeight + 1) * 2 ≤ (s.totalHeight + 1) * s.realWidth :=
    Int.mul_le_mul_of_nonneg_left (by unfold realWidth; omega) (by omega)
  have htall : 3 * s.realWidth ≤ (s.totalHeight + 1) * s.realWidth :=
    Int.mul_le_mul_of_nonneg_right (by omega) (by unfold realWidth; omega)
  unfold BufferFits at hfits
  omega

/-- Every cell of a completed run of blanks is in the buffer. -/
theorem blankCells_inside {a k : Int} {n : Nat} (hok : s.blankCells t a n = .ok s') (hk : 0 ≤ k)
    (hk' : k < n) : 0 ≤ a + k ∧ a + k < s.bufferLines.size := by
  obtain ⟨s₁, s₂, hsize, hstore⟩ := forUp_round
    (P := fun s' => s'.bufferLines.size = s.bufferLines.size)
    (fun i s₁ s₂ hsize hs => by
      obtain ⟨b, hb, hs⟩ := bind_eq_ok.mp hs
      cases hs
      exact (Block.size_of_store hb).trans hsize) rfl hok hk (by omega)
  obtain ⟨b, hb, -⟩ := bind_eq_ok.mp hstore
  rw [← hsize]
  exact (Block.store_eq_ok.mp hb).1

variable {n : Int}

theorem clampCells_overflow (h : s.Wf) (hn : IsInt n) (hover : 2 ^ 31 ≤ n + s.cursorX)
    (hfits : s.BufferFits) : s.clampCells n = n := by
  have hx := h.column
  have hrange := h.fits_range hfits
  have hrw : s.realWidth = s.width + 1 := rfl
  unfold IsInt at hn
  have hsum : cint (n + s.cursorX) = n + s.cursorX - 2 ^ 32 := by
    unfold cint
    omega
  unfold clampCells
  rw [hsum, if_neg (by omega)]

theorem Wf.cursorLine_range (h : s.Wf) (hy : s.OnScreen) :
    0 ≤ s.rowLine s.cursorRow * s.realWidth ∧
      s.rowLine s.cursorRow * s.realWidth + s.realWidth ≤ s.bufferCells := by
  obtain ⟨hi, hi'⟩ := h.cursorRow_range hy
  have hend := h.line_end_le hi hi'
  exact ⟨h.line_nonneg hi hi', by rw [h.buffer_size] at hend; exact hend⟩

theorem insertBlank_small (h : s.Wf) (hy : s.OnScreen) (hfits : s.BufferFits) (hn : IsInt n)
    (hok : s.insertBlank t n = .ok s') : n + s.cursorX < 2 ^ 31 := by
  have hx := h.column
  have hrange := h.fits_range hfits
  have hrw : s.realWidth = s.width + 1 := rfl
  by_contra hover
  unfold insertBlank at hok
  rw [if_neg (by omega), clampCells_overflow h hn (by omega) hfits, h.cursorLine hy, ok_bind] at hok
  obtain ⟨s₁, h₁, -⟩ := bind_eq_ok.mp hok
  -- the number of cells to move is negative
  obtain ⟨b, hb, -⟩ := bind_eq_ok.mp h₁
  have := (Block.copy_eq_ok.mp hb).1
  omega

theorem eraseCharacters_small (h : s.Wf) (hy : s.OnScreen) (hfits : s.BufferFits) (hn : IsInt n)
    (hok : s.eraseCharacters t n = .ok s') : n + s.cursorX < 2 ^ 31 := by
  have hx := h.column
  have hrange := h.fits_range hfits
  have hline := h.cursorLine_range hy
  have hsize : s.bufferLines.size = s.bufferCells := h.buffer_size
  have hrw : s.realWidth = s.width + 1 := rfl
  by_contra hover
  unfold eraseCharacters at hok
  rw [if_pos hx.2, clampCells_overflow h hn (by omega) hfits, h.cursorLine hy, ok_bind] at hok
  obtain ⟨s₁, h₁, -⟩ := bind_eq_ok.mp hok
  have hlast := blankCells_inside h₁ (k := n - 1) (by omega) (by omega)
  unfold BufferFits at hfits
  omega

theorem deleteCharacters_small (h : s.Wf) (hy : s.OnScreen) (hfits : s.BufferFits) (hn : IsInt n)
    (hok : s.deleteCharacters t n = .ok s') : n + s.cursorX < 2 ^ 31 := by
  have hx := h.column
  have hrange := h.fits_range hfits
  have hline := h.cursorLine_range hy
  have hrw : s.realWidth = s.width + 1 := rfl
  by_contra hover
  unfold deleteCharacters at hok
  rw [if_pos ⟨hx.1, hx.2, hy⟩, clampCells_overflow h hn (by omega) hfits, h.cursorLine hy, ok_bind,
    if_neg (by omega), ok_bind] at hok
  obtain ⟨s₁, h₁, -⟩ := bind_eq_ok.mp hok
  -- the first cell to blank is in front of the buffer
  have hfirst := blankCells_inside h₁ (k := 0) (Int.le_refl 0) (by omega)
  unfold BufferFits at hfits
  omega

/-- Every row of a completed clearing is one of the ring. -/
theorem clearRows_inside {line : Block ScreenChar} {y k : Int} {m : Nat} (h : s.Wf)
    (hok : s.clearRows line y m = .ok s') (hk : 0 ≤ k) (hk' : k < m) :
    0 ≤ cint (y + k) ∧ s.topLine + cint (y + k) < 2 * s.totalHeight := by
  obtain ⟨s₁, s₂, hd, hclear⟩ := forUp_round (P := Draws s)
    (fun _ _ _ hd hs => hd.trans (clearLineAt_draws hs)) (.refl s) hok hk (by omega)
  have hwf := hd.wf h
  obtain ⟨aLine, hline, hclear⟩ := bind_eq_ok.mp hclear
  obtain ⟨_, hassert, -⟩ := bind_eq_ok.mp hline
  have hidx : 0 ≤ cint (y + k) := nsAssert_eq_ok.mp hassert
  refine ⟨hidx, ?_⟩
  obtain rfl := Except.ok.inj ((hwf.screenLine hidx).symm.trans hline)
  obtain ⟨b, hb, -⟩ := bind_eq_ok.mp hclear
  have hrw := hwf.realWidth_pos
  have hend := (Block.copy_eq_ok.mp hb).1.resolve_left (by omega)
  rw [hwf.buffer_size] at hend
  have hlast : (wrapLine s₁.totalHeight (s₁.topLine + cint (y + k)) + 1) * s₁.realWidth ≤
      s₁.totalHeight * s₁.realWidth := by
    rw [Int.add_mul, Int.one_mul]
    exact hend.2.2.2.2
  have hlt := (line_le_iff hrw).mp hlast
  have htop := h.top_range
  rw [hd.totalHeight_eq, hd.topLine_eq] at hlt
  unfold wrapLine at hlt
  split at hlt <;> omega

theorem clampLines_overflow (h : s.Wf) (hy : s.OnScreen) (hn : IsInt n)
    (hover : 2 ^ 31 ≤ s.cursorY + n) (hfits : s.BufferFits) : s.clampLines n = n := by
  have hm := h.margins
  have hlt := h.height_lt_total
  have hrange := h.fits_range hfits
  unfold IsInt at hn
  unfold OnScreen at hy
  have hsum : cint (n + s.cursorY) = n + s.cursorY - 2 ^ 32 := by
    unfold cint
    omega
  unfold clampLines
  rw [hsum, if_neg (by omega)]

theorem insertLines_small (h : s.Wf) (hy : s.OnScreen) (hfits : s.BufferFits) (hn : IsInt n)
    (hok : s.insertLines t n = .ok s') : s.cursorY + n < 2 ^ 31 := by
  have htop := h.top_range
  have hlt := h.height_lt_total
  have hrange := h.fits_range hfits
  by_contra hover
  obtain ⟨s₁, h₁, hok⟩ := bind_eq_ok.mp hok
  have hd := moveRowsDown_draws h₁
  have hline := hd.trans (getDefaultLine_draws t.foregroundColorCode t.backgroundColorCode
    s₁.width s₁)
  simp only [hd.clampLines_eq, clampLines_overflow h hy hn (by omega) hfits, hd.cursor_eq.2] at hok
  obtain ⟨s₂, h₂, -⟩ := bind_eq_ok.mp hok
  unfold OnScreen at hy
  unfold IsInt at hn
  -- the row after the second time round the ring
  have hrow := clearRows_inside (hline.wf h) h₂ (k := 2 * s.totalHeight - s.topLine - s.cursorY)
    (by omega) (by omega)
  rw [hline.topLine_eq, hline.totalHeight_eq, cint_of_isInt ⟨by omega, by omega⟩] at hrow
  omega

theorem deleteLines_small (h : s.Wf) (hy : s.OnScreen) (hfits : s.BufferFits) (hn : IsInt n)
    (hok : s.deleteLines t n = .ok s') : s.cursorY + n < 2 ^ 31 := by
  have hm := h.margins
  have hlt := h.height_lt_total
  have hrange := h.fits_range hfits
  by_contra hover
  obtain ⟨s₁, h₁, hok⟩ := bind_eq_ok.mp hok
  have hd := moveRowsUp_draws h₁
  have hline := hd.trans (getDefaultLine_draws t.foregroundColorCode t.backgroundColorCode
    s₁.width s₁)
  simp only [hd.clampLines_eq, clampLines_overflow h hy hn (by omega) hfits, hd.margins_eq.2] at hok
  obtain ⟨s₂, h₂, -⟩ := bind_eq_ok.mp hok
  unfold OnScreen at hy
  unfold IsInt at hn
  -- the first row to clear is above the screen
  have hrow := clearRows_inside (hline.wf h) h₂ (k := 0) (Int.le_refl 0) (by omega)
  rw [cint_of_isInt ⟨by omega, by omega⟩] at hrow
  omega

theorem linesFit_of_small (h : s.Wf) (hy : s.OnScreen) (hfits : s.BufferFits) (hpos : 0 ≤ n)
    (hsmall : s.cursorY + n < 2 ^ 31) : s.LinesFit n := by
  have hlt := h.height_lt_total
  have hrange := h.fits_range hfits
  exact ⟨hy, by omega, hpos, hsmall⟩

theorem OnScreen.below_visible (hy : s.OnScreen) (i : Int)
    (hi : s.RowsBetween s.cursorY s.scrollBottom i) : s.currentScrollbackLines ≤ i := by
  unfold OnScreen at hy
  unfold RowsBetween at hi
  omega

/-! ## Tokens -/

theorem one_isInt : IsInt 1 := ⟨by decide, by decide⟩

theorem deleteCharacters_appends (h : s.Wf) (hy : s.OnScreen) (hfits : s.BufferFits)
    (hn : IsInt n) (hpos : 0 ≤ n) (hok : s.deleteCharacters t n = .ok s') : Appends s s' :=
  .of_changes h (deleteCharacters_draws hok) (deleteCharacters_changes h hpos
    (deleteCharacters_small h hy hfits hn hok) hok) hy.cursorRow_visible

theorem setTab_appends (h : s.Wf) (hok : s.setTab = .ok s') : Appends s s' := by
  obtain ⟨x, -, hok⟩ := bind_eq_ok.mp hok
  exact (Appends.moved h _ s.cursorY).of_ok hok

theorem backSpace_appends (h : s.Wf) : Appends s s.backSpace :=
  .ite (.moved h _ s.cursorY) (.refl h)

theorem putControl_appends {code : Nat} (h : s.Wf) (hy : s.OnScreen) (hfits : s.BufferFits)
    (hok : s.putControl t code = .ok s') : Appends s s' := by
  unfold putControl at hok
  split at hok
  · cases hok
    exact .of_same h ⟨rfl, rfl, rfl⟩ rfl
  · exact (backSpace_appends h).of_ok hok
  · exact setTab_appends h hok
  · exact lineFeed_appends h hy hok
  · exact lineFeed_appends h hy hok
  · exact lineFeed_appends h hy hok
  · exact (Appends.moved h 0 s.cursorY).of_ok hok
  · exact deleteCharacters_appends h hy hfits one_isInt (by decide) hok
  · exact (Appends.refl h).of_ok hok

theorem markTab_appends {v : Bool} (h : s.Wf) (hok : s.markTab v = .ok s') : Appends s s' := by
  unfold markTab at hok
  split at hok
  · obtain ⟨tabs, -, hok⟩ := bind_eq_ok.mp hok
    cases hok
    exact .of_same h ⟨rfl, rfl, rfl⟩ rfl
  · exact (Appends.refl h).of_ok hok

theorem columnMove_appends {p : Prop} [Decidable p] (h : s.Wf) (x : Int) :
    Appends s (let s₁ := if p then { s with cursorX := x } else s
      s₁.touch (s₁.cursorY * s₁.width + s₁.cursorX)) := by
  by_cases hp : p
  · simp only [if_pos hp]
    exact .of_same h ⟨rfl, rfl, rfl⟩ rfl
  · simp only [if_neg hp]
    exact .of_same h ⟨rfl, rfl, rfl⟩ rfl

/-- The row is set, and flagged if the column is on the screen. -/
theorem rowMove_appends {p : Prop} [Decidable p] (h : s.Wf) (y i : Int) :
    Appends s (if p then touch i { s with cursorY := y } else { s with cursorY := y }) :=
  .ite (.of_same h ⟨rfl, rfl, rfl⟩ rfl) (.of_same h ⟨rfl, rfl, rfl⟩ rfl)

theorem dispatch_appends {tok : VT100TCC} (h : s.Wf) (hy : s.OnScreen) (hfits : s.BufferFits)
    (htok : tok.ParamsOk) (hok : s.dispatch F t tok = .ok s') : Appends s s' := by
  have hint := htok.isInt
  have hnonneg := htok.nonneg
  obtain ⟨type, string, code, csi⟩ := tok
  simp only at hint hnonneg
  cases type with
  | string => exact putString_appends h hy hok
  | asciiString => exact putString_appends h hy hok
  | cc code => exact putControl_appends h hy hfits hok
  | cub => exact (columnMove_appends h _).of_ok hok
  | cuf => exact (columnMove_appends h _).of_ok hok
  | cuu => exact (rowMove_appends h _ _).of_ok hok
  | cud => exact (rowMove_appends h _ _).of_ok hok
  | cup =>
      cases hok
      exact .of_same h ⟨rfl, rfl, rfl⟩ rfl
  | hvp =>
      cases hok
      exact .of_same h ⟨rfl, rfl, rfl⟩ rfl
  | cha =>
      cases hok
      exact .of_same h ⟨rfl, rfl, rfl⟩ rfl
  | vpa =>
      cases hok
      exact .of_same h ⟨rfl, rfl, rfl⟩ rfl
  | vpr =>
      cases hok
      exact .of_same h ⟨rfl, rfl, rfl⟩ rfl
  | decsc =>
      cases hok
      exact .of_same h ⟨rfl, rfl, rfl⟩ rfl
  | decrc =>
      obtain ⟨_, -, hok⟩ := bind_eq_ok.mp hok
      obtain ⟨_, -, hok⟩ := bind_eq_ok.mp hok
      cases hok
      exact .of_same h ⟨rfl, rfl, rfl⟩ rfl
  | decstbm =>
      refine Appends.of_ok (.ite ?_ (.refl h)) hok
      exact .of_same h ⟨rfl, rfl, rfl⟩ rfl
  | decaln => exact alignmentDisplay_appends h hok
  | ed => exact eraseInDisplay_appends h hy hok
  | el =>
      exact .of_changes h (eraseInLine_draws hok) (eraseInLine_changes h hy hok)
        hy.cursorRow_visible
  | ech =>
      have hsmall := eraseCharacters_small h hy hfits hint hok
      exact .of_changes h (eraseCharacters_draws hok)
        (eraseCharacters_changes h hy (hnonneg rfl) hsmall hok) hy.cursorRow_visible
  | insblnk =>
      have hsmall := insertBlank_small h hy hfits hint hok
      exact .of_changes h (insertBlank_draws hok)
        (insertBlank_changes h hy (hnonneg rfl) hsmall hok) hy.cursorRow_visible
  | delch => exact deleteCharacters_appends h hy hfits hint (hnonneg rfl) hok
  | insln =>
      have hfit := linesFit_of_small h hy hfits (hnonneg rfl) (insertLines_small h hy hfits hint hok)
      exact .of_changes h (insertLines_draws hok) (insertLines_changes h hfit hok)
        hy.below_visible
  | delln =>
      have hfit := linesFit_of_small h hy hfits (hnonneg rfl) (deleteLines_small h hy hfits hint hok)
      exact .of_changes h (deleteLines_draws hok) (deleteLines_changes h hfit hok)
        hy.below_visible
  | su =>
      exact .forUp (Q := OnScreen) (fun _ _ _ hwf hy₁ hs =>
        ⟨⟨scrollUp_wf hwf hs, scrollUp_onScreen hwf hy₁ hs⟩, scrollUp_appends hwf hy₁ hs⟩) h hy hok
  | sd =>
      exact .forUp (Q := fun _ => True) (fun _ _ _ hwf _ hs =>
        ⟨⟨(scrollDown_draws hs).wf hwf, trivial⟩, scrollDown_appends hwf hs⟩) h trivial hok
  | nel =>
      have hhome : Wf { s with cursorX := 0 } := h.withCursorX (Int.le_refl 0) h.width_pos
      exact (Appends.moved h 0 s.cursorY).trans (index_appends hhome hy hok)
  | ind => exact index_appends h hy hok
  | ri => exact reverseIndex_appends h hok
  | hts => exact markTab_appends h hok
  | tbc =>
      simp only [dispatch] at hok
      split at hok
      · cases hok
        exact .of_same h ⟨rfl, rfl, rfl⟩ rfl
      · split at hok
        · exact markTab_appends h hok
        · exact (Appends.refl h).of_ok hok
  | decset =>
      refine Appends.of_ok (.ite ?_ (.refl h)) hok
      exact .of_same h ⟨rfl, rfl, rfl⟩ rfl
  | decrst =>
      refine Appends.of_ok (.ite ?_ (.refl h)) hok
      exact .of_same h ⟨rfl, rfl, rfl⟩ rfl
  | print =>
      refine Appends.of_ok (.ite ?_ (.ite ?_ ?_)) hok
      all_goals exact .of_same h ⟨rfl, rfl, rfl⟩ rfl
  | _ =>
      cases hok
      exact .of_same h ⟨rfl, rfl, rfl⟩ rfl

theorem putToken_appends {tok : VT100TCC} (h : s.Wf) (hy : s.OnScreen) (hfits : s.BufferFits)
    (htok : tok.ParamsOk) (hok : s.putToken F t tok = .ok s') : Appends s s' := by
  obtain ⟨s₁, h₁, hok⟩ := bind_eq_ok.mp hok
  have ha := dispatch_appends h hy hfits htok h₁
  exact Appends.of_ok (.ite (ha.touched (dispatch_wf h h₁) _) ha) hok

theorem control_appends {b : UInt8} (h : s.Wf) (hy : s.OnScreen) (hfits : s.BufferFits)
    (hok : control t s b = .ok s') : Appends s s' := by
  obtain hc | hc | hc | hc | hc | hc | hc := control_cases t s b <;> rw [hc] at hok
  · exact (Appends.refl h).of_ok hok
  · cases hok
    exact .of_same h ⟨rfl, rfl, rfl⟩ rfl
  · exact (backSpace_appends h).of_ok hok
  · exact setTab_appends h hok
  · exact setNewLine_appends h hy hok
  · cases hok
    exact .of_same h ⟨rfl, rfl, rfl⟩ rfl
  · exact deleteCharacters_appends h hy hfits one_isInt (by decide) hok

theorem saveBuffer_appends (h : s.Wf) (hok : s.saveBuffer = .ok s') : Appends s s' := by
  obtain ⟨temp, rfl, -⟩ := saveBuffer_spec h hok
  exact .of_same h ⟨rfl, rfl, rfl⟩ rfl

theorem restoreBuffer_appends (h : s.Wf) (hok : s.restoreBuffer = .ok s') : Appends s s' := by
  cases htemp : s.tempBuffer with
  | none =>
      simp only [restoreBuffer, htemp] at hok
      exact (Appends.refl h).of_ok hok
  | some temp =>
      have hsize := (restoreBuffer_draws hok).sameRing.sameSize
      exact .of_same h ⟨hsize.width_eq, hsize.height_eq, hsize.max_eq⟩
        (restoreBuffer_spec h htemp hok).2.1

theorem setDirty_appends (h : s.Wf) (hok : s.setDirty = .ok s') : Appends s s' :=
  .of_changes h (setDirty_draws hok) (setDirty_changes h hok) fun _ hi => hi

end Screen

namespace VT100

variable {v v' : VT100} {tok : VT100TCC}

theorem setPrivateMode_appends {p : Int} {mode : Bool} (h : v.screen.Wf)
    (hok : v.setPrivateMode p mode = .ok v') : v.screen.Appends v'.screen := by
  unfold setPrivateMode at hok
  split at hok
  case h_6 =>
    obtain ⟨s, hs, hok⟩ := bind_eq_ok.mp hok
    cases hok
    exact Screen.setDirty_appends h hs
  case h_12 =>
    obtain ⟨s, hs, hok⟩ := bind_eq_ok.mp hok
    cases hok
    split at hs
    · exact Screen.saveBuffer_appends h hs
    · exact Screen.restoreBuffer_appends h hs
  all_goals
    cases hok
    exact .refl h

theorem setMode_appends (h : v.screen.Wf) (hok : v.setMode tok = .ok v') :
    v.screen.Appends v'.screen := by
  unfold setMode at hok
  simp only at hok
  split at hok
  · exact setPrivateMode_appends h hok
  · exact setPrivateMode_appends h hok
  all_goals
    cases hok
    first
      | exact .refl h
      | (split <;> exact .refl h)

/-- A sequence is scanned: the control characters in it are executed. -/
theorem decodeControl_appends {datap : List UInt8} {s s' : Screen} {n : Nat} (h : s.Wf)
    (hy : s.OnScreen) (hfits : s.BufferFits)
    (hok : decodeControl t datap s = .ok (tok, n, s')) :
    (s'.Wf ∧ s'.OnScreen) ∧ s.Appends s' := by
  refine decodeControl_inv (P := fun s' => (s'.Wf ∧ s'.OnScreen) ∧ s.Appends s') ?_
    ⟨⟨h, hy⟩, .refl h⟩ hok
  rintro s₁ b s₂ ⟨⟨hwf₁, hy₁⟩, ha₁⟩ hs
  exact ⟨⟨Screen.control_wf hwf₁ hs, Screen.control_onScreen hwf₁ hy₁ hs⟩,
    ha₁.trans (Screen.control_appends hwf₁ hy₁ (ha₁.size.bufferFits hfits) hs)⟩

theorem setMode_onScreen (hy : v.screen.OnScreen) (hok : v.setMode tok = .ok v') :
    v'.screen.OnScreen := by
  obtain ⟨temp, hd⟩ := setMode_screen hok
  exact hd.onScreen hy

theorem getNextToken_appends (h : v.Wf) (hy : v.screen.OnScreen) (hfits : v.screen.BufferFits)
    (hok : v.getNextToken F = .ok (tok, v')) :
    v'.screen.OnScreen ∧ v.screen.Appends v'.screen := by
  have hsame : v.screen.OnScreen ∧ v.screen.Appends v.screen := ⟨hy, .refl h.screen⟩
  cases getNextToken_fetches hok with
  | empty hp => exact hsame
  | text hp htext h₁ =>
      rw [advance_screen h₁]
      exact hsame
  | @control v₁ v₂ _ _ n s b rest hp hb hdecode hmode hattr h₁ =>
      obtain ⟨⟨hwf, hy'⟩, ha⟩ := decodeControl_appends h.screen hy hfits hdecode
      rw [advance_screen h₁, setCharAttr_screen hattr]
      exact ⟨setMode_onScreen (v := { v with screen := s }) hy' hmode,
        ha.trans (setMode_appends (v := { v with screen := s }) hwf hmode)⟩
  | undecoded hp hb hdecode hne h₁ =>
      rw [advance_screen h₁]
      exact hsame
  | string hp hb hdecode hzero h₁ =>
      rw [advance_screen h₁]
      exact hsame
  | unknown hp hb h₁ =>
      rw [advance_screen h₁]
      exact hsame

theorem processToken_appends (h : v.Wf) (hy : v.screen.OnScreen) (hfits : v.screen.BufferFits)
    (htok : tok.ParamsOk) (hok : v.processToken F tok = .ok v') :
    v.screen.Appends v'.screen := by
  unfold processToken at hok
  split at hok
  · cases hok
    exact .refl h.screen
  · obtain ⟨s, hs, hok⟩ := bind_eq_ok.mp hok
    cases hok
    exact Screen.putToken_appends h.screen hy hfits htok hs

/-- A token is fetched and executed in a reachable state with the cursor on the
screen: the scrollback is the one of before, followed by the rows that have left the
top of the screen, down to its last `max_scrollback_lines` rows. -/
theorem scrollback_append_only {c : Config} {v₁ v₂ : VT100} (h : Reachable F c)
    (hy : c.2.screen.OnScreen) (hfits : c.2.screen.BufferFits)
    (hnext : c.2.getNextToken F = .ok (tok, v₁)) (hok : v₁.processToken F tok = .ok v₂) :
    ∃ rows, c.2.screen.Leaves v₂.screen rows ∧ v₂.screen.scrollbackRows =
      (c.2.screen.scrollbackRows ++ rows).rtake c.2.screen.maxScrollbackLines.toNat := by
  have hwf := reachable_wf h
  obtain ⟨hy₁, ha₁⟩ := getNextToken_appends hwf hy hfits hnext
  have ha₂ := processToken_appends (getNextToken_wf hwf hnext) hy₁ (ha₁.size.bufferFits hfits)
    (getNextToken_params hnext) hok
  obtain ⟨rows, hrows⟩ := ha₁.trans ha₂
  exact ⟨rows, hrows, hrows.scrollback⟩

/-- `ab` and 24 line feeds on a new object; the next one moves the row with the text out. -/
theorem text_scrollback_append_only : ∃ (v₀ v v₁ v₂ v₃ : VT100) (tok : VT100TCC),
    VT100.init ⟨0, 0, 0⟩ = .ok v₀ ∧
    v₀.readInputStream Foundation.latin1 ([0x61, 0x62] ++ List.replicate 24 0x0a) = .ok v ∧
    v.putStreamData [0x0a] = .ok v₁ ∧ v₁.getNextToken Foundation.latin1 = .ok (tok, v₂) ∧
    v₂.processToken Foundation.latin1 tok = .ok v₃ ∧ v₃.screen.currentScrollbackLines = 1 ∧
    ∃ rows, v₁.screen.Leaves v₃.screen rows ∧
      v₃.screen.scrollbackRows = (v₁.screen.scrollbackRows ++ rows).rtake 1000 := by
  have hlines : ∀ l ∈ [0x61, 0x62] :: List.replicate 23 ([] : List UInt8),
      ∀ b ∈ l, IsPrintable b := by
    simp [IsPrintable]
  have hlast : ∀ b ∈ ([] : List UInt8), IsPrintable b := by simp
  obtain ⟨v₀, hv₀, ht, hfresh⟩ := init_fresh ⟨0, 0, 0⟩
  obtain ⟨v, rss, full, row, hv, hrest, hrss, hs, hfull, -⟩ :=
    fresh_lines Foundation.latin1_asciiExact hfresh (by decide) (by decide) ht hlines hlast
  have hdone : (rss.flatten ++ full).length = 24 := by
    rw [List.length_append, Wrap.length_of_prints (by decide) hrss, hfull]
    simp [kDefaultWidth]
  obtain ⟨t, hput, hwf, -, hpending⟩ := Terminal.putStreamData_spec hrest.wf [0x0a]
  rw [hrest.pending_eq, List.nil_append] at hpending
  have hput : v.putStreamData [0x0a] = .ok { v with terminal := t } := by
    rw [VT100.putStreamData, hput, ok_bind]
  have hreach : Reachable Foundation.latin1 (.reading, { v with terminal := t }) :=
    ((init_reachable hv₀).readInputStream hv).step (e := .put [0x0a]) (.put hput) trivial
  -- the cursor is in the last row
  obtain ⟨v₂, v₃, new, hfetch, -, hprocess, -, -, hs₃⟩ := lineFeed_scrolls
    (F := Foundation.latin1) (v := { v with terminal := t }) ⟨hwf, hs.wf⟩ hs
    (by rw [hdone]; decide) hpending
  have hcount₃ : v₃.screen.currentScrollbackLines = 1 := by
    rw [hs₃.count_eq, List.length_append, hdone]
    rfl
  have hfits : v.screen.BufferFits := by
    unfold Screen.BufferFits Screen.bufferCells Screen.totalHeight Screen.realWidth
    rw [hs.width_eq, hs.height_eq, hs.max_eq]
    decide
  obtain ⟨rows, hrows, hback⟩ :=
    scrollback_append_only hreach hs.cursor_range hfits hfetch hprocess
  rw [show v.screen.maxScrollbackLines = 1000 from hs.max_eq] at hback
  have hbytes : [0x0a].intercalate (([0x61, 0x62] :: List.replicate 23 []) ++ [[]]) =
      [0x61, 0x62] ++ List.replicate 24 (0x0a : UInt8) := by decide
  rw [hbytes] at hv
  exact ⟨v₀, v, _, v₂, _, _, hv₀, hv, hput, hfetch, hprocess, hcount₃, rows, hrows, hback⟩

end VT100

end MobileTerminal
