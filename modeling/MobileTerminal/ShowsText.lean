import MobileTerminal.Shows

/-!
# Line feeds, text and erasing

The operations of the screen that take several steps, or a whole run of them:
line feeds, text, erasing and the alignment pattern.

A line feed at the lower margin needs a region that `scrollUp` can move: the
whole screen, or one that starts in front of the end of the buffer
(`ScrollsUp`). In the last row of the screen but below the region the code
scrolls a region the cursor is not in (`BelowRegion`), so this is left out. Text
may bring many line feeds, and `RoomForText` is the condition that serves for
all of them: it says that the cursor meets the last row of the region before the
last row of the screen, and placing a character keeps it.

The display places a text with a fold over its characters, the code with a loop
that wraps a line when it is full, at the next character. `Placing` is what
holds before each round of that loop. Erasing and the alignment pattern are
loops over cells and rows, and their invariants say which cells have been
written so far (`eraseSpan`, `Aligned`).
-/

namespace MobileTerminal

variable {F : Foundation} {t : Terminal}

namespace Screen

variable {s s' : Screen} {d : Display}

/-- The region can move up. -/
def ScrollsUp (s : Screen) : Prop :=
  s.FullMargins ∨ s.scrollTop < s.scrollBottom ∧ s.RegionInFront

/-- The region can move up, and the cursor gets to its last row before it gets to the last row
of the screen. -/
def RoomForText (s : Screen) : Prop :=
  s.FullMargins ∨ s.scrollTop < s.scrollBottom ∧ s.RegionInFront ∧ s.cursorY ≤ s.scrollBottom

theorem RoomForText.scrollsUp (h : s.RoomForText) : s.ScrollsUp := by
  rcases h with hfull | ⟨hm, hfront, -⟩
  · exact Or.inl hfull
  · exact Or.inr ⟨hm, hfront⟩

theorem RoomForText.not_below (h : s.RoomForText) : ¬s.BelowRegion := by
  rintro ⟨hlast, hbelow, -⟩
  rcases h with hfull | ⟨-, -, hle⟩
  · have := hfull.2
    omega
  · omega

theorem Draws.textFits (hd : Draws s s') (h : s.RoomForText) : s'.RoomForText := by
  obtain ⟨⟨b, d, line, fg, bg, w, -, -, rfl⟩, -⟩ := hd
  exact h

theorem Draws.scrollsUp (hd : Draws s s') (h : s.ScrollsUp) : s'.ScrollsUp := by
  obtain ⟨⟨b, d, line, fg, bg, w, -, -, rfl⟩, -⟩ := hd
  exact h

theorem rotate_margins (hwf : s.Wf) : s.rotate.scrollTop = s.scrollTop ∧
    s.rotate.scrollBottom = s.scrollBottom ∧ s.rotate.height = s.height := by
  rw [hwf.rotate_eq]
  split <;> exact ⟨rfl, rfl, rfl⟩

theorem RoomForText.setNewLine (h : s.RoomForText) (hwf : s.Wf) (hok : s.setNewLine t = .ok s') :
    s'.RoomForText := by
  rcases setNewLine_cases hwf hok with ⟨hmove, hd⟩ | ⟨-, hfull, hd⟩ | ⟨-, -, hd⟩
  · refine hd.textFits ?_
    rcases h with hfull | ⟨hm, hfront, hle⟩
    · exact Or.inl hfull
    · refine Or.inr ⟨hm, hfront, ?_⟩
      rcases hmove with hlt | ⟨-, hgt⟩
      · exact hlt
      · exact absurd hle (Int.not_le.mpr hgt)
  · have hrot := rotate_margins hwf
    exact hd.textFits (Or.inl ⟨hrot.1.trans hfull.1,
      hrot.2.1.trans (hfull.2.trans (congrArg (· - 1) hrot.2.2.symm))⟩)
  · exact hd.textFits h

namespace Shows

theorem withCursor (h : Shows t s d) (x y : Int) :
    Shows t { s with cursorX := x, cursorY := y } { d with cursorX := x, cursorY := y } :=
  ⟨congrArg (fun c : Controls => { c with cursorX := x, cursorY := y }) h.controls, h.cells,
    h.saved, h.scrollback⟩

theorem withCursorX (h : Shows t s d) (x : Int) :
    Shows t { s with cursorX := x } { d with cursorX := x } :=
  ⟨congrArg (fun c : Controls => { c with cursorX := x }) h.controls, h.cells, h.saved,
    h.scrollback⟩

theorem withCursorY (h : Shows t s d) (y : Int) :
    Shows t { s with cursorY := y } { d with cursorY := y } :=
  ⟨congrArg (fun c : Controls => { c with cursorY := y }) h.controls, h.cells, h.saved,
    h.scrollback⟩

/-! ## Line feeds -/

theorem scrollUp (h : Shows t s d) (hwf : s.Wf) (hscroll : s.ScrollsUp)
    (hy : s.FullMargins → s.cursorY = s.height - 1) :
    Refines (Shows t) (s.scrollUp t) d.scrollUp := by
  by_cases hfull : s.FullMargins
  · have := h.scrollUpFull hwf hfull (hy hfull)
    rw [Screen.scrollUp, hwf.scrollAsserts_ok, ok_bind, if_pos hfull]
    exact this
  · obtain ⟨hm, hfront⟩ := hscroll.resolve_left hfull
    exact h.scrollUpRegion hwf hm hfull hfront

theorem atBottom_iff (h : Shows t s d) :
    d.cursorY = d.scrollBottom ↔ s.cursorY = s.scrollBottom := by
  rw [h.cursorY, h.scrollBottom]

theorem nextRow (h : Shows t s d) :
    min (d.cursorY + 1) (d.height - 1) = min (s.cursorY + 1) (s.height - 1) := by
  rw [h.cursorY, h.height]

theorem newLine (h : Shows t s d) (hwf : s.Wf) (hy : s.OnScreen)
    (hscroll : s.cursorY = s.scrollBottom → s.ScrollsUp) (hbelow : ¬s.BelowRegion) :
    Refines (Shows t) (s.setNewLine t) d.newLine := by
  have hm := hwf.margins
  unfold OnScreen at hy
  by_cases hmove : s.CanMoveDown
  · have hne : s.cursorY ≠ s.scrollBottom := by
      unfold CanMoveDown at hmove
      omega
    have hlt : s.cursorY + 1 ≤ s.height - 1 := by
      unfold CanMoveDown at hmove
      omega
    rw [Display.newLine, if_neg (mt h.atBottom_iff.mp hne), h.nextRow, min_eq_left hlt,
      setNewLine_down t hmove]
    exact .ok ((h.withCursorY (s.cursorY + 1)).touch_ite _)
  · by_cases heq : s.cursorY = s.scrollBottom
    · rw [Display.newLine, if_pos (h.atBottom_iff.mpr heq)]
      by_cases hfull : s.FullMargins
      · have := hfull.2
        exact h.scrollUpFull hwf hfull (by omega)
      · rw [setNewLine_eq_scrollUp t s hmove hfull]
        exact h.scrollUp hwf (hscroll heq) fun hfull' => absurd hfull' hfull
    · -- the last row, below a region of one row, which does not move
      have hlast : s.cursorY = s.height - 1 ∧ s.scrollBottom < s.cursorY := by
        unfold CanMoveDown at hmove
        omega
      have hone : ¬s.scrollTop < s.scrollBottom := fun hlt => hbelow ⟨hlast.1, hlast.2, hlt⟩
      have hfull : ¬s.FullMargins := fun hfull => by
        have := hfull.2
        omega
      rw [Display.newLine, if_neg (mt h.atBottom_iff.mp heq), h.nextRow, min_eq_right (by omega),
        ← hlast.1, setNewLine_eq_scrollUp t s hmove hfull, Screen.scrollUp, hwf.scrollAsserts_ok,
        ok_bind, if_neg hfull, Screen.scrollUpRegion, if_neg hone]
      exact .ok (h.withCursorY s.cursorY)

theorem index (h : Shows t s d) (hwf : s.Wf) (hy : s.OnScreen)
    (hscroll : s.cursorY = s.scrollBottom → s.ScrollsUp) :
    Refines (Shows t) (s.index t) d.newLine := by
  unfold OnScreen at hy
  by_cases heq : s.cursorY = s.scrollBottom
  · rw [Display.newLine, if_pos (h.atBottom_iff.mpr heq), Screen.index, if_pos heq]
    refine h.scrollUp hwf (hscroll heq) fun hfull => ?_
    have := hfull.2
    omega
  · have hrow : (if s.cursorY + 1 ≥ s.height then s.height - 1 else s.cursorY + 1) =
        min (s.cursorY + 1) (s.height - 1) := by
      split <;> omega
    rw [Display.newLine, if_neg (mt h.atBottom_iff.mp heq), h.nextRow, index_moves t heq, hrow]
    exact .ok (h.withCursorY _)

theorem reverseIndex (h : Shows t s d) (hwf : s.Wf)
    (hscroll : s.cursorY = s.scrollTop → s.scrollTop < s.scrollBottom ∧ s.RegionInFront) :
    Refines (Shows t) (s.reverseIndex t) d.reverseIndex := by
  have htop : d.cursorY = d.scrollTop ↔ s.cursorY = s.scrollTop := by
    rw [h.cursorY, h.scrollTop]
  by_cases heq : s.cursorY = s.scrollTop
  · rw [Display.reverseIndex, if_pos (htop.mpr heq), Screen.reverseIndex, if_pos heq]
    exact h.scrollDown hwf (hscroll heq).1 (hscroll heq).2
  · have hrow : (if s.cursorY - 1 < 0 then 0 else s.cursorY - 1) = max (d.cursorY - 1) 0 := by
      rw [h.cursorY]
      split <;> omega
    rw [Display.reverseIndex, if_neg (mt htop.mp heq), Screen.reverseIndex, if_neg heq]
    dsimp only
    rw [hrow]
    exact .ok (h.withCursorY _)

/-! ## Text -/

/-- A cell of the cursor's row is written, for instance with a new character only. -/
theorem putCell_row (h : Shows t s d) (hwf : s.Wf) (hy : s.OnScreen) {x : Int} {c : ScreenChar}
    (hd : Draws s s')
    (hcells : ∀ j z, 0 ≤ j → j < s.totalHeight → 0 ≤ z → z ≤ s.width →
      s'.cellAt j z = if j = s.cursorRow ∧ z = x then c else s.cellAt j z) :
    Shows t s' { d with cell := Cells.put d.cursorY x c.ch d.cell } := by
  obtain ⟨hi, hi'⟩ := hwf.cursorRow_range hy
  have hc : ChangesOnly (· = s.cursorRow) s s' := ⟨hd.sameRing, fun j z hj hj' hz hz' hne => by
    rw [hcells j z hj hj' hz hz', if_neg fun heq => hne heq.1]⟩
  refine h.changesRow hwf hy hd hc (fun z hz hz' => ?_) fun y z hne => ?_
  · rw [hcells _ z hi hi' hz hz', Cells.put, h.cursorY]
    by_cases heq : z = x
    · rw [if_pos ⟨rfl, heq⟩, if_pos ⟨rfl, heq⟩]
    · rw [if_neg fun h => heq h.2, if_neg fun h => heq h.2]
      exact h.rowCell hwf hy hz hz'
  · exact if_neg fun heq => hne (heq.1.trans h.cursorY)

theorem stepRight (h : Shows t s d) : Shows t s.stepRight { d with cursorX := s.cursorX + 1 } :=
  ((h.touch _).withCursorX (s.cursorX + 1)).touch _

/-- The mark and the line feed behind the last column. -/
theorem wrapToNextLine (h : Shows t { s with cursorX := 0 } d) (hwf : Wf { s with cursorX := 0 })
    (hy : s.OnScreen) (hfits : s.RoomForText) :
    Refines (fun s' d' => (s'.Wf ∧ s'.OnScreen ∧ s'.RoomForText) ∧ Shows t s' d')
      (s.wrapToNextLine t)
      (Display.newLine { d with cell := Cells.put d.cursorY d.width 1 d.cell }) := by
  have hy₀ : OnScreen { s with cursorX := 0 } := hy
  obtain ⟨hi, hi'⟩ := hwf.cursorRow_range hy₀
  obtain ⟨s₁, h₁, hd, hcells⟩ := storeCh_spec hwf 1 hi hi'
    (Int.le_trans (by decide) hwf.width_pos) (Int.le_refl _)
  have hshows := h.putCell_row hwf hy₀ hd hcells
  have hwf₁ := hd.wf hwf
  have hy₁ := hd.onScreen hy₀
  have hfits₁ : s₁.RoomForText := hd.textFits (show RoomForText { s with cursorX := 0 } from hfits)
  obtain ⟨s', hok, hs'⟩ := hshows.newLine hwf₁ hy₁ (fun _ => hfits₁.scrollsUp) hfits₁.not_below
  have hwidth : d.width = s.width := h.width
  rw [hwidth]
  refine ⟨s', ?_, ⟨setNewLine_wf hwf₁ hok, setNewLine_onScreen hwf₁ hy₁ hok,
    hfits₁.setNewLine hwf₁ hok⟩, hs'⟩
  rw [Screen.wrapToNextLine, hwf.cursorLine hy₀, ok_bind, h₁, ok_bind]
  exact hok

/-- What the placement of text keeps. -/
def Placing (t : Terminal) (s : Screen) (d : Display) : Prop :=
  (s.Wf ∧ s.OnScreen ∧ s.RoomForText) ∧ Shows t s d

theorem putCell (h : Placing t s d) (c : ScreenChar) :
    Refines (Placing t) (s.putCell t c) (d.putChar c.ch) := by
  obtain ⟨⟨hwf, hy, hfits⟩, h⟩ := h
  have hcol := hwf.column
  obtain ⟨hi, hi'⟩ := hwf.cursorRow_range hy
  have hchar : (if c.ch = 0xffff then { c with ch := 0x23 } else c).ch =
      if c.ch = 0xffff then 0x23 else c.ch := by
    split <;> rfl
  obtain ⟨s₁, h₁, hd, hcells⟩ := storeCell_spec hwf
    (if c.ch = 0xffff then { c with ch := 0x23 } else c) hi hi' hcol.1 hcol.2.le
  have hs₁ := h.putCell_row hwf hy hd hcells
  rw [hchar, ← h.cursorX] at hs₁
  change Shows t s₁ (d.place c.ch) at hs₁
  have hlt_iff : d.cursorX + 1 < d.width ↔ s.cursorX + 1 < s.width := by
    rw [h.cursorX, h.width]
  have hend_iff : s₁.stepRight.cursorX ≥ s₁.stepRight.width ↔ ¬s.cursorX + 1 < s.width := by
    change s₁.cursorX + 1 ≥ s₁.width ↔ _
    rw [hd.cursor_eq.1, hd.width_eq, Int.not_lt]
  simp only [Screen.putCell, hwf.cursorLine hy, ok_bind, h₁, hend_iff]
  by_cases hlt : s.cursorX + 1 < s.width
  · have hx : s₁.cursorX + 1 = d.cursorX + 1 := by
      rw [hd.cursor_eq.1, h.cursorX]
    have hdraws : Draws { s with cursorX := s₁.cursorX + 1 } s₁.stepRight :=
      (hd.withCursorX (s₁.cursorX + 1)).trans (stepRight_draws s₁)
    have hwf' : Wf { s with cursorX := s₁.cursorX + 1 } := by
      rw [hd.cursor_eq.1]
      exact hwf.withCursorX (by omega) hlt
    rw [if_neg (not_not_intro hlt), Display.putChar_of_lt (hlt_iff.mpr hlt), ← hx]
    exact .ok ⟨⟨hdraws.wf hwf', hdraws.onScreen hy, hdraws.textFits hfits⟩, hs₁.stepRight⟩
  · -- the column is behind the last one until the wrap sets it back
    have hdraws : Draws { s with cursorX := 0 } { s₁.stepRight with cursorX := 0 } :=
      (hd.withCursorX 0).trans ((stepRight_draws s₁).withCursorX 0)
    have hy' : s₁.stepRight.OnScreen := hdraws.onScreen hy
    have hfits' : s₁.stepRight.RoomForText := hdraws.textFits hfits
    rw [if_pos hlt, Display.putChar_of_ge (mt hlt_iff.mp hlt)]
    exact (hs₁.stepRight.withCursorX 0).wrapToNextLine
      (hdraws.wf (hwf.withCursorX (Int.le_refl 0) hwf.width_pos)) hy' hfits'

theorem putCells (h : Placing t s d) (cells : List ScreenChar) :
    Refines (Placing t) (cells.foldlM (fun s c => s.putCell t c) s)
      ((text cells).foldl Display.putChar d) := by
  rw [text, List.foldl_map]
  exact Refines.foldlM (fun s d c h => putCell h c) h

/-- The cells that are about to be placed hold the characters of the string. -/
theorem stringCells (h : Shows t s d) (hwf : s.Wf) (ht : t.Wf) (string : List UniChar)
    (ascii : Bool) : ∃ cells, s.stringCells F t string ascii = .ok cells ∧
      text cells = d.shownChars F string ascii := by
  have hcharset : d.charset = s.charset := congrArg Controls.charset h.controls.symm
  have hshift : d.shift = t.charset := congrArg Controls.shift h.controls.symm
  have htext : ∀ chars : List UniChar, text (chars.map fun c =>
      { ch := c, bgColor := cuint t.backgroundColorCode, fgColor := cuint t.foregroundColorCode }) =
        chars := fun chars => by
    rw [text, List.map_map]
    exact List.map_id chars
  unfold Screen.stringCells Display.shownChars
  cases ascii with
  | false => exact ⟨_, rfl, htext _⟩
  | true =>
      have hload : (s.charset.load t.charset : Res Bool) = .ok (s.charset.cell t.charset) :=
        Block.load_of_lt ht.charset_range.1 (by rw [hwf.charsets]; have := ht.charset_range; omega)
      rw [hcharset, hshift]
      exact ⟨_, by rw [if_pos rfl, hload]; rfl, htext _⟩

theorem setString (h : Placing t s d) (ht : t.Wf) (string : List UniChar) (ascii : Bool) :
    Refines (Placing t) (s.setString F t string ascii)
      (if string = [] then d else (d.shownChars F string ascii).foldl Display.putChar d) := by
  by_cases hnil : string = []
  · subst hnil
    exact .ok h
  · have hlen : ¬string.length < 1 := fun hlt =>
      hnil (List.length_eq_zero_iff.mp (by omega))
    obtain ⟨cells, hcells, htext⟩ := h.2.stringCells (F := F) h.1.1 ht string ascii
    rw [Screen.setString, if_neg hlen, if_neg hnil, hcells, ok_bind, ← htext]
    exact putCells h cells

theorem printString (h : Shows t s d) (string : List UniChar) :
    Shows t (s.printStringToAnsi string) (d.printString string) := by
  have hprint : d.printToAnsiString = s.printToAnsiString :=
    congrArg Controls.printToAnsiString h.controls.symm
  unfold printStringToAnsi Display.printString
  cases string with
  | nil => exact h
  | cons c string =>
      rw [if_pos (by simp), if_neg (by simp), hprint]
      exact ⟨congrArg (fun k : Controls =>
          { k with printToAnsiString := s.printToAnsiString.map (· ++ c :: string) }) h.controls,
        h.cells, h.saved, h.scrollback⟩

/-- A text token. It needs the region only when it is placed on the screen. -/
theorem putString (h : Shows t s d) (hwf : s.Wf) (ht : t.Wf) (string : List UniChar)
    (ascii : Bool) (hfits : s.printToAnsi = false → s.OnScreen ∧ s.RoomForText) :
    Refines (Shows t) (s.putString F t string ascii) (d.putString F string ascii) := by
  have hprint : d.printToAnsi = s.printToAnsi := congrArg Controls.printToAnsi h.controls.symm
  unfold Screen.putString Display.putString
  rw [hprint]
  cases hp : s.printToAnsi with
  | true => exact .ok (h.printString string)
  | false =>
      obtain ⟨hy, htext⟩ := hfits hp
      exact (setString ⟨⟨hwf, hy, htext⟩, h⟩ ht string ascii).mono fun _ _ hs => hs.2

theorem lineFeed (h : Shows t s d) (hwf : s.Wf)
    (hfeed : s.printToAnsi = false → s.OnScreen ∧ (s.cursorY = s.scrollBottom → s.ScrollsUp) ∧
      ¬s.BelowRegion) : Refines (Shows t) (s.lineFeed t) d.lineFeed := by
  have hprint : d.printToAnsi = s.printToAnsi := congrArg Controls.printToAnsi h.controls.symm
  have hstep : Refines (Shows t)
      (if s.printToAnsi then .ok (s.printStringToAnsi [0x0a]) else s.setNewLine t)
      (if d.printToAnsi then d.printString [0x0a] else d.newLine) := by
    rw [hprint]
    cases hp : s.printToAnsi with
    | true => exact .ok (h.printString [0x0a])
    | false =>
        obtain ⟨hy, hscroll, hbelow⟩ := hfeed hp
        exact h.newLine hwf hy hscroll hbelow
  exact hstep.bind (g := fun d => { d with cursorX := 0 }) fun s₁ _ h₁ => .ok (h₁.withCursorX 0)

end Shows

/-! ## Erasing -/

theorem position_le_iff (y y' : Int) {x x' : Int} (hx : 0 ≤ x) (hxw : x ≤ s.width) (hx' : 0 ≤ x')
    (hxw' : x' ≤ s.width) :
    s.position y x ≤ s.position y' x' ↔ y < y' ∨ y = y' ∧ x ≤ x' := by
  unfold position realWidth
  rcases Int.lt_trichotomy y y' with hlt | rfl | hgt
  · have := Int.mul_le_mul_of_nonneg_right (show y + 1 ≤ y' from hlt)
      (show 0 ≤ s.width + 1 by omega)
    rw [Int.add_mul, Int.one_mul] at this
    omega
  · omega
  · have := Int.mul_le_mul_of_nonneg_right (show y' + 1 ≤ y from hgt)
      (show 0 ≤ s.width + 1 by omega)
    rw [Int.add_mul, Int.one_mul] at this
    omega

namespace Shows

/-- The cells of a span of positions become blank. -/
theorem eraseSpan (h : Shows t s d) (hwf : s.Wf) {p : Int} (lo hi : Int) (hlo : 0 ≤ lo)
    (hle : lo ≤ hi) (hhi : hi ≤ s.screenCells) (hfront : s.screenTop + lo ≤ s.bufferCells)
    (hfrom : (s.eraseSpan p).y1 * s.realWidth + (s.eraseSpan p).x1 = lo)
    (hto : (s.eraseSpan p).y2 * s.realWidth + (s.eraseSpan p).x2 = hi)
    (hn : 0 ≤ ((s.eraseSpan p).y2 - (s.eraseSpan p).y1) * s.width +
      ((s.eraseSpan p).x2 - (s.eraseSpan p).x1)) {g : Int → Int → UniChar}
    (hg : ∀ y x, 0 ≤ y → y < s.height → 0 ≤ x → x ≤ s.width →
      (if lo ≤ s.position y x ∧ s.position y x < hi then 0 else d.cell y x) = g y x) :
    Refines (Shows t) (s.eraseInDisplay t p) { d with cell := g } := by
  obtain ⟨a, s₁, hloop, hd, hvis, hback⟩ := eraseCells_spec hwf t lo hi hlo hle (by omega)
    (hwf.start_in_front hlo (by omega) hfront)
  rw [← hfrom, ← hto] at hloop
  obtain ⟨s', hok, hvis', hcell'⟩ := eraseInDisplay_of_loop hwf hn hloop hd
  have hd' := eraseInDisplay_draws hok
  refine ⟨s', hok, h.draws hwf hd' (fun y x hy hy' hx hx' => ?_) fun i x hi hi' hx hx' => ?_⟩
  · rw [← hd'.visibleCell_eq hwf hy hy', hvis' y x hy hy', hvis y x hy hy' hx hx',
      ← hg y x hy hy' hx hx', show lo + (hi - lo) = hi by omega]
    split
    · rfl
    · exact h.cells y x hy hy' hx hx'
  · rw [hcell' i x, hback i x hi hi' hx hx']

theorem eraseInDisplay (h : Shows t s d) (hwf : s.Wf) (hy : s.OnScreen) (p : Int)
    (hfront : p ≠ 1 → p ≠ 2 → s.EraseInFront) :
    Refines (Shows t) (s.eraseInDisplay t p) (d.eraseInDisplay p) := by
  have hcol := hwf.column
  have hw := hwf.width_pos
  have hr := hwf.cells_range
  have hcur := position_nonneg (s := s) hy.1 hcol.1 hcol.2.le
  have hcur' := position_lt_screenCells hy.2 hcol.1 hcol.2.le
  have hrow := Int.mul_nonneg hy.1 (show 0 ≤ s.width by omega)
  have harea := hwf.area_nonneg
  have htop : s.screenTop + 0 ≤ s.bufferCells := by
    have := hwf.screenTop_eq
    unfold address wrapLine at this
    split at this <;> omega
  unfold Display.eraseInDisplay
  by_cases h1 : p = 1
  · subst h1
    rw [if_pos rfl]
    refine h.eraseSpan hwf 0 (s.cursorPosition + 1) (Int.le_refl 0)
      (by unfold cursorPosition; omega) (by unfold cursorPosition; omega) htop
      (by simp [Screen.eraseSpan])
      (by simp only [Screen.eraseSpan, if_true, if_pos hcol.2, cursorPosition, position]; omega)
      (by simp only [Screen.eraseSpan, if_true, if_pos hcol.2, Int.sub_zero]; omega)
      fun y x hy0 hy' hx hx' => ?_
    have hle := position_le_iff (s := s) y s.cursorY hx hx' hcol.1 hcol.2.le
    have hpos := position_nonneg (s := s) hy0 hx hx'
    rw [Cells.fillTo, h.cursorY, h.cursorX]
    exact if_congr (by unfold cursorPosition; omega) rfl rfl
  · rw [if_neg h1]
    by_cases h2 : p = 2
    · subst h2
      rw [if_pos rfl]
      refine h.eraseSpan hwf 0 s.screenCells (Int.le_refl 0) (by omega)
        (Int.le_refl _) htop (by simp [Screen.eraseSpan]) (by simp [Screen.eraseSpan, screenCells])
        (by simpa [Screen.eraseSpan, Int.mul_comm] using harea) fun y x hy0 hy' hx hx' => ?_
      exact if_pos ⟨position_nonneg hy0 hx hx', position_lt_screenCells hy' hx hx'⟩
    · rw [if_neg h2]
      have hspan : s.eraseSpan p =
          { x1 := s.cursorX, y1 := s.cursorY, x2 := 0, y2 := s.height } := by
        simp only [Screen.eraseSpan, if_neg h1, if_neg h2]
      refine h.eraseSpan hwf s.cursorPosition s.screenCells hcur hcur'.le
        (Int.le_refl _) (hfront h1 h2) (by rw [hspan]; rfl)
        (by rw [hspan, screenCells, Int.add_zero])
        (by
          have hrows := Int.mul_le_mul_of_nonneg_right (show 1 ≤ s.height - s.cursorY by
            have := hy.2
            omega) (show 0 ≤ s.width by omega)
          rw [hspan]
          dsimp only
          omega) fun y x hy0 hy' hx hx' => ?_
      have hle := position_le_iff (s := s) s.cursorY y hcol.1 hcol.2.le hx hx'
      have hend := position_lt_screenCells (s := s) hy' hx hx'
      rw [Cells.fillFrom, h.cursorY, h.cursorX]
      exact if_congr (by unfold cursorPosition; omega) rfl rfl

end Shows

/-! ## The alignment pattern -/

/-- The first `n` cells of a row are overwritten. -/
theorem storeRow_cells (hwf : s.Wf) (c : ScreenChar) {i : Int} (hi : 0 ≤ i)
    (hi' : i < s.totalHeight) {n : Nat} (hn : (n : Int) ≤ s.width) :
    ∃ s', forUp (fun j s' => s'.storeCell (s.rowLine i * s.realWidth + j) c) 0 n s = .ok s' ∧
      Draws s s' ∧ ∀ j z, 0 ≤ j → j < s.totalHeight → 0 ≤ z → z ≤ s.width →
        s'.cellAt j z = if j = i ∧ z < n then c else s.cellAt j z := by
  have hloop := forUp_total (f := fun j s' => s'.storeCell (s.rowLine i * s.realWidth + j) c)
    (P := fun k s' => Draws s s' ∧ ∀ j z, 0 ≤ j → j < s.totalHeight → 0 ≤ z → z ≤ s.width →
      s'.cellAt j z = if j = i ∧ z < k then c else s.cellAt j z) 0 n (s := s) ?_ ?_
  · simpa using hloop
  · rintro k s₁ hk hk' ⟨hd, hcells⟩
    obtain ⟨s₂, h₂, hd₂, hcells₂⟩ := storeCell_spec (hd.wf hwf) c hi
      (by rw [hd.totalHeight_eq]; exact hi') hk (by rw [hd.width_eq]; omega)
    rw [hd.rowLine_eq, hd.realWidth_eq] at h₂
    refine ⟨s₂, h₂, hd.trans hd₂, fun j z hj hj' hz hz' => ?_⟩
    rw [hcells₂ j z hj (by rw [hd.totalHeight_eq]; exact hj') hz (by rw [hd.width_eq]; exact hz'),
      hcells j z hj hj' hz hz']
    by_cases heq : j = i ∧ z = k
    · rw [if_pos heq, if_pos (by omega)]
    · rw [if_neg heq]
      exact if_congr (by omega) rfl rfl
  · exact ⟨.refl s, fun j z _ _ hz _ => (if_neg (by omega)).symm⟩

/-- One row of the pattern: letters and no mark. -/
theorem alignRow_cells (hwf : s.Wf) {c : ScreenChar} {y : Int} (hy : 0 ≤ y) (hy' : y < s.height) :
    ∃ s', (do
        let aLine ← s.getLineAtScreenIndex y
        let s ← forUp (fun j s => storeCell (aLine + j) c s) 0 s.width.toNat s
        s.storeCh (aLine + s.width) 0) = .ok s' ∧ Draws s s' ∧
      ∀ j z, 0 ≤ j → j < s.totalHeight → 0 ≤ z → z ≤ s.width →
        (j ≠ s.currentScrollbackLines + y → s'.cellAt j z = s.cellAt j z) ∧
        (j = s.currentScrollbackLines + y →
          (s'.cellAt j z).ch = if z < s.width then c.ch else 0) := by
  have hw := hwf.width_pos
  obtain ⟨hi, hi'⟩ := hwf.visible_range hy hy'
  obtain ⟨s₁, h₁, hd₁, hcells₁⟩ := storeRow_cells hwf c hi hi' (n := s.width.toNat) (by omega)
  obtain ⟨s₂, h₂, hd₂, hcells₂⟩ := storeCh_spec (hd₁.wf hwf) 0 hi
    (by rw [hd₁.totalHeight_eq]; exact hi') (show 0 ≤ s₁.width by rw [hd₁.width_eq]; omega)
    (Int.le_refl _)
  rw [hd₁.totalHeight_eq, hd₁.width_eq] at hcells₂
  rw [hd₁.rowLine_eq, hd₁.realWidth_eq] at h₂
  refine ⟨s₂, ?_, hd₁.trans hd₂, fun j z hj hj' hz hz' => ⟨fun hne => ?_, fun heq => ?_⟩⟩
  · rw [hwf.visibleLine hy hy', ok_bind, h₁, ok_bind]
    exact h₂
  · rw [hcells₂ j z hj hj' hz hz', if_neg fun h => hne h.1, hcells₁ j z hj hj' hz hz',
      if_neg fun h => hne h.1]
  · rw [hcells₂ j z hj hj' hz hz']
    by_cases hmark : z = s.width
    · rw [if_pos ⟨heq, hmark⟩, if_neg (by omega)]
    · rw [if_neg fun h => hmark h.2, hcells₁ j z hj hj' hz hz', if_pos ⟨heq, by omega⟩,
        if_pos (by omega)]

/-- What `k` rows of the pattern leave. -/
structure Aligned (c : UniChar) (k : Int) (s s' : Screen) : Prop where
  draws : Draws s s'
  rest : ∀ j z, 0 ≤ j → j < s.totalHeight → 0 ≤ z → z ≤ s.width →
    j < s.currentScrollbackLines ∨ s.currentScrollbackLines + k ≤ j → s'.cellAt j z = s.cellAt j z
  done : ∀ y z, 0 ≤ y → y < k → y < s.height → 0 ≤ z → z ≤ s.width →
    (s'.cellAt (s.currentScrollbackLines + y) z).ch = if z < s.width then c else 0

theorem Aligned.row {c : ScreenChar} {k : Int} (h : Aligned c.ch k s s') (hwf : s.Wf) (hk : 0 ≤ k)
    (hk' : k < s.height) : ∃ s'', (do
        let aLine ← s'.getLineAtScreenIndex k
        let s' ← forUp (fun j s' => storeCell (aLine + j) c s') 0 s'.width.toNat s'
        s'.storeCh (aLine + s'.width) 0) = .ok s'' ∧ Aligned c.ch (k + 1) s s'' := by
  have hd := h.draws
  have hrange := hwf.count_range
  obtain ⟨s'', hok, hd', hcells⟩ := alignRow_cells (hd.wf hwf) (c := c) hk
    (by rw [hd.height_eq]; exact hk')
  rw [hd.totalHeight_eq, hd.width_eq, hd.count_eq] at hcells
  refine ⟨s'', hok, hd.trans hd', fun j z hj hj' hz hz' hout => ?_, fun y z hy hy' hyh hz hz' => ?_⟩
  · rw [(hcells j z hj hj' hz hz').1 (by omega)]
    exact h.rest j z hj hj' hz hz' (by omega)
  · obtain ⟨hr, hr'⟩ := hwf.visible_range hy hyh
    by_cases heq : y = k
    · exact (hcells _ z hr hr' hz hz').2 (by rw [heq])
    · rw [(hcells _ z hr hr' hz hz').1 (by omega)]
      exact h.done y z hy (by omega) hyh hz hz'

theorem Shows.alignmentDisplay (h : Shows t s d) (hwf : s.Wf) :
    Refines (Shows t) (s.alignmentDisplay t) d.alignmentDisplay := by
  have hheight := hwf.height_pos
  have hrange := hwf.count_range
  have hT : s.totalHeight = s.maxScrollbackLines + s.height := rfl
  obtain ⟨s₁, h₁, ha⟩ := forUp_total
    (f := fun i s' => do
      let aLine ← s'.getLineAtScreenIndex i
      let s' ← forUp (fun j s' => storeCell (aLine + j) { t.blank with ch := 0x45 } s')
        0 s'.width.toNat s'
      s'.storeCh (aLine + s'.width) 0)
    (P := fun k s' => Aligned 0x45 k s s') 0 s.height.toNat (s := s)
    (fun k s' hk hk' ha => Aligned.row (c := { t.blank with ch := 0x45 }) ha hwf hk (by omega))
    ⟨.refl s, fun _ _ _ _ _ _ _ => rfl, fun y z hy hy' => by omega⟩
  have hd := ha.draws
  obtain ⟨s', hdirty, hd', hb⟩ := setDirty_spec (hd.wf hwf)
  refine ⟨s', by rw [Screen.alignmentDisplay, h₁, ok_bind, hdirty], ?_⟩
  refine Shows.unseen (h.draws hwf hd (fun y z hy hy' hz hz' => ?_) fun i z hi hi' hz hz' => ?_)
    (hd.wf hwf) hd' hb
  · rw [ha.done y z hy (by omega) hy' hz hz', h.width]
  · exact ha.rest i z hi (by omega) hz hz' (Or.inl hi')

end Screen

end MobileTerminal
