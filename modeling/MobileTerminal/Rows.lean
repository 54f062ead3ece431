import MobileTerminal.RingInv

/-!
# Rows

A reader of the screen sees rows, not lines of a ring: row `i` counted from the
start of the scrollback, of which the last `HEIGHT` are the visible ones. This
file defines the cells of a row through the address arithmetic of the source
(`cellAt`, `visibleCell`) and says, for the operations that write whole lines or
single cells, when they complete and what every row holds afterwards. Under `Wf`
rows and lines of the ring correspond one to one (`rowLine_inj`), so a write to
one row leaves the others alone.

The lemmas on `Draws` come first: a drawing step moves no row, so the cells
after it are those of the new buffer at the old addresses
(`Draws.cellAt_of_eq`). Each writing lemma then gives completion, `Draws`, and
the cells of every row, and with these three a proof about a handler never
mentions an address.

A default line is asked for again and again while a region is cleared. What it
depends on is kept by all that happens in between (`SameDefault`), so all rows
that an operation clears get the same line, `blankLine`.

At the end the rows are lists: `rows` is everything a reader can scroll to.
-/

namespace MobileTerminal

/-- The cell is empty, whatever its colours are. -/
def ScreenChar.isNul (c : ScreenChar) : Bool := c.ch = 0

namespace Screen

variable {t : Terminal} {s s' : Screen} {i j x y : Int}

/-- Column `x` of row `i`, counted from the start of the scrollback. -/
def cellAt (s : Screen) (i x : Int) : ScreenChar :=
  s.bufferLines.cell (s.lineFrom i s.scrollbackTop + x)

/-- Column `x` of visible row `y`. -/
def visibleCell (s : Screen) (y x : Int) : ScreenChar :=
  s.bufferLines.cell (s.lineFrom y s.screenTop + x)

/-- The line of the ring that holds row `i`. -/
def rowLine (s : Screen) (i : Int) : Int := wrapLine s.totalHeight (s.scrollbackLine + i)

theorem Wf.cellAt_eq (h : s.Wf) (i x : Int) :
    s.cellAt i x = s.bufferLines.cell (s.rowLine i * s.realWidth + x) := by
  have hl := h.lineFrom_line i s.scrollbackLine
  rw [← h.scrollback_aligned] at hl
  rw [cellAt, hl, rowLine]

theorem Wf.visibleCell_eq (h : s.Wf) (hy : 0 ≤ y) (hy' : y < s.height) (x : Int) :
    s.visibleCell y x = s.cellAt (s.currentScrollbackLines + y) x := by
  have hl := h.lineFrom_line y s.topLine
  rw [← h.top_aligned, h.wrap_top hy hy'] at hl
  rw [h.cellAt_eq, visibleCell, hl, rowLine]

theorem Wf.rowLine_range (h : s.Wf) (hi : 0 ≤ i) (hi' : i < s.totalHeight) :
    0 ≤ s.rowLine i ∧ s.rowLine i < s.totalHeight := by
  have hs := h.scrollback_range
  exact ⟨wrapLine_nonneg (by omega), wrapLine_lt (by omega)⟩

theorem rowLine_inj (hi : 0 ≤ i) (hi' : i < s.totalHeight) (hj : 0 ≤ j)
    (hj' : j < s.totalHeight) : s.rowLine i = s.rowLine j ↔ i = j := by
  constructor
  · intro h
    have := wrapLine_inj (by omega) (by omega) h
    omega
  · rintro rfl
    rfl

theorem Wf.visibleLine (h : s.Wf) (hy : 0 ≤ y) (hy' : y < s.height) :
    s.getLineAtScreenIndex y =
      .ok (s.rowLine (s.currentScrollbackLines + y) * s.realWidth) := by
  rw [h.screenLine hy, h.wrap_top hy hy', rowLine]

theorem Wf.visible_range (h : s.Wf) (hy : 0 ≤ y) (hy' : y < s.height) :
    0 ≤ s.currentScrollbackLines + y ∧ s.currentScrollbackLines + y < s.totalHeight := by
  have hc := h.count_range
  have hT : s.totalHeight = s.maxScrollbackLines + s.height := rfl
  omega

/-! ## Drawing and rows -/

theorem Draws.rowLine_eq (hd : Draws s s') (i : Int) : s'.rowLine i = s.rowLine i := by
  obtain ⟨⟨b, d, line, fg, bg, w, hb, hs, rfl⟩, -⟩ := hd
  rfl

theorem Draws.realWidth_eq (hd : Draws s s') : s'.realWidth = s.realWidth := by
  obtain ⟨⟨b, d, line, fg, bg, w, hb, hs, rfl⟩, -⟩ := hd
  rfl

theorem Draws.totalHeight_eq (hd : Draws s s') : s'.totalHeight = s.totalHeight := by
  obtain ⟨⟨b, d, line, fg, bg, w, hb, hs, rfl⟩, -⟩ := hd
  rfl

theorem Draws.height_eq (hd : Draws s s') : s'.height = s.height := by
  obtain ⟨⟨b, d, line, fg, bg, w, hb, hs, rfl⟩, -⟩ := hd
  rfl

theorem Draws.count_eq (hd : Draws s s') :
    s'.currentScrollbackLines = s.currentScrollbackLines := by
  obtain ⟨⟨b, d, line, fg, bg, w, hb, hs, rfl⟩, -⟩ := hd
  rfl

theorem Draws.topLine_eq (hd : Draws s s') : s'.topLine = s.topLine := by
  obtain ⟨⟨b, d, line, fg, bg, w, hb, hs, rfl⟩, -⟩ := hd
  rfl

theorem Draws.max_eq (hd : Draws s s') : s'.maxScrollbackLines = s.maxScrollbackLines := by
  obtain ⟨⟨b, d, line, fg, bg, w, -, -, rfl⟩, -⟩ := hd
  rfl

theorem Draws.print_eq (hd : Draws s s') : s'.printToAnsi = s.printToAnsi := by
  obtain ⟨⟨b, d, line, fg, bg, w, -, -, rfl⟩, -⟩ := hd
  rfl

theorem Draws.margins_eq (hd : Draws s s') :
    s'.scrollTop = s.scrollTop ∧ s'.scrollBottom = s.scrollBottom := by
  obtain ⟨⟨b, d, line, fg, bg, w, hb, hs, rfl⟩, -⟩ := hd
  exact ⟨rfl, rfl⟩

/-- The cells after a drawing step, when the buffer is known. -/
theorem Draws.cellAt_of_eq (hd : Draws s s') (h : s.Wf) (hb : s'.bufferLines = s.bufferLines)
    (i x : Int) : s'.cellAt i x = s.cellAt i x := by
  rw [(hd.wf h).cellAt_eq, h.cellAt_eq, hd.rowLine_eq, hd.realWidth_eq, hb]

/-- A dirty fill of a sensible length completes and changes no cell. -/
theorem dirtyFill_spec (v : Bool) (k : Int) {n : Int} (hn : 0 ≤ n) (s : Screen) :
    ∃ s', s.dirtyFill v k n = .ok s' ∧ Draws s s' ∧ s'.bufferLines = s.bufferLines := by
  have hfill : ∃ d, s.dirty.fill v k n = .ok d :=
    ⟨_, if_neg (by omega)⟩
  obtain ⟨d, hd⟩ := hfill
  have hok : s.dirtyFill v k n = .ok { s with dirty := d } := by
    simp only [dirtyFill, hd, ok_bind]
  exact ⟨_, hok, dirtyFill_draws hok, rfl⟩

theorem Wf.area_nonneg (h : s.Wf) : 0 ≤ s.width * s.height := by
  have hw := h.width_pos
  have hh := h.height_pos
  exact Int.mul_nonneg (by omega) (by omega)

theorem refresh_of_area (h : 0 ≤ s.width * s.height) :
    ∃ s', s.refresh = .ok s' ∧ Draws s s' ∧ s'.bufferLines = s.bufferLines := by
  unfold refresh
  split
  · exact dirtyFill_spec false 0 h s
  · exact ⟨s, rfl, .refl s, rfl⟩

theorem setDirty_of_area (h : 0 ≤ s.width * s.height) :
    ∃ s', s.setDirty = .ok s' ∧ Draws s s' ∧ s'.bufferLines = s.bufferLines := by
  obtain ⟨s₁, h₁, hd₁, hb₁⟩ := dirtyFill_spec true 0 h s
  obtain ⟨s₂, h₂, hd₂, hb₂⟩ := refresh_of_area (s := s₁)
    (by rw [hd₁.width_eq, hd₁.height_eq]; exact h)
  refine ⟨s₂, ?_, hd₁.trans hd₂, hb₂.trans hb₁⟩
  simp only [setDirty, h₁, ok_bind, h₂]

theorem refresh_spec (h : s.Wf) :
    ∃ s', s.refresh = .ok s' ∧ Draws s s' ∧ s'.bufferLines = s.bufferLines :=
  refresh_of_area h.area_nonneg

theorem setDirty_spec (h : s.Wf) :
    ∃ s', s.setDirty = .ok s' ∧ Draws s s' ∧ s'.bufferLines = s.bufferLines :=
  setDirty_of_area h.area_nonneg

/-! ## Writing lines -/

/-- The line of row `i` ends inside the buffer. -/
theorem Wf.line_end_le (h : s.Wf) (hi : 0 ≤ i) (hi' : i < s.totalHeight) :
    s.rowLine i * s.realWidth + s.realWidth ≤ s.bufferLines.size := by
  have hr := h.rowLine_range hi hi'
  have := (line_le_iff (m := s.rowLine i + 1) (l := s.totalHeight) h.realWidth_pos).mpr
    (by omega)
  rwa [Int.add_mul, Int.one_mul, ← h.buffer_size] at this

theorem Wf.line_nonneg (h : s.Wf) (hi : 0 ≤ i) (hi' : i < s.totalHeight) :
    0 ≤ s.rowLine i * s.realWidth :=
  addr_nonneg_line (h.rowLine_range hi hi').1 h.realWidth_pos

/-- `memcpy` of a line of cells onto row `i`. -/
theorem clearLine_spec (h : s.Wf) {line : Block ScreenChar} (hl : s.realWidth ≤ line.size)
    (hi : 0 ≤ i) (hi' : i < s.totalHeight) :
    ∃ s', s.clearLine (s.rowLine i * s.realWidth) line = .ok s' ∧ Draws s s' ∧
      ∀ j x, 0 ≤ j → j < s.totalHeight → 0 ≤ x → x ≤ s.width →
        s'.cellAt j x = if j = i then line.cell x else s.cellAt j x := by
  have hcopy := Block.copy_of_le (ι := Site) s.bufferLines line (s := 0)
    h.realWidth_pos (Int.le_refl 0) (by omega) (h.line_nonneg hi hi') (h.line_end_le hi hi')
  have hok : s.clearLine (s.rowLine i * s.realWidth) line = .ok { s with
      bufferLines := s.bufferLines.paste (s.rowLine i * s.realWidth) line 0 s.realWidth } := by
    simp only [clearLine, hcopy, ok_bind]
  have hd := clearLine_draws hok
  refine ⟨_, hok, hd, ?_⟩
  intro j x hj hj' hx hx'
  rw [(hd.wf h).cellAt_eq, h.cellAt_eq, hd.rowLine_eq, hd.realWidth_eq,
    Block.paste_line_cell _ _ hx (by unfold realWidth; omega)]
  simp only [rowLine_inj hj hj' hi hi', Int.zero_add]

theorem copyLine_spec (h : s.Wf) {k : Int} (hi : 0 ≤ i) (hi' : i < s.totalHeight)
    (hk : 0 ≤ k) (hk' : k < s.totalHeight) :
    ∃ s', s.copyLine (s.rowLine i * s.realWidth) (s.rowLine k * s.realWidth) = .ok s' ∧
      Draws s s' ∧ ∀ j x, 0 ≤ j → j < s.totalHeight → 0 ≤ x → x ≤ s.width →
        s'.cellAt j x = if j = i then s.cellAt k x else s.cellAt j x := by
  have hcopy := Block.copy_of_le (ι := Site) s.bufferLines s.bufferLines
    h.realWidth_pos (h.line_nonneg hk hk') (h.line_end_le hk hk') (h.line_nonneg hi hi')
    (h.line_end_le hi hi')
  have hok : s.copyLine (s.rowLine i * s.realWidth) (s.rowLine k * s.realWidth) =
      .ok { s with
        bufferLines := s.bufferLines.paste (s.rowLine i * s.realWidth) s.bufferLines
          (s.rowLine k * s.realWidth) s.realWidth } := by
    simp only [copyLine, moveCells, hcopy, ok_bind]
  have hd := moveCells_draws hok
  refine ⟨_, hok, hd, ?_⟩
  intro j x hj hj' hx hx'
  rw [(hd.wf h).cellAt_eq, h.cellAt_eq, h.cellAt_eq, hd.rowLine_eq, hd.realWidth_eq,
    Block.paste_line_cell _ _ hx (by unfold realWidth; omega)]
  simp only [rowLine_inj hj hj' hi hi']

/-- The line that `_getDefaultLineWithWidth:` answers. -/
def blankLine (t : Terminal) (s : Screen) : Block ScreenChar :=
  (s.getDefaultLineWithWidth t s.width).2

theorem Wf.blankLine_ok (h : s.Wf) (t : Terminal) :
    s.realWidth ≤ (s.blankLine t).size ∧ ∀ x, ((s.blankLine t).cell x).ch = 0 :=
  getDefaultLine_ok h.default t.foregroundColorCode t.backgroundColorCode s.width

/-- Only the buffer has been written. -/
def SameButBuffer (s s' : Screen) : Prop := ∃ b, s' = { s with bufferLines := b }

theorem SameButBuffer.refl (s : Screen) : SameButBuffer s s := ⟨s.bufferLines, rfl⟩

theorem SameButBuffer.trans {s'' : Screen} (h : SameButBuffer s s') (h' : SameButBuffer s' s'') :
    SameButBuffer s s'' := by
  obtain ⟨b, rfl⟩ := h
  obtain ⟨b', rfl⟩ := h'
  exact ⟨b', rfl⟩

/-- What the default line depends on is as it was. -/
def SameDefault (s s' : Screen) : Prop :=
  s'.defaultLine = s.defaultLine ∧ s'.defaultFgCode = s.defaultFgCode ∧
    s'.defaultBgCode = s.defaultBgCode ∧ s'.defaultLineWidth = s.defaultLineWidth ∧
    s'.fresh = s.fresh ∧ s'.width = s.width

theorem SameDefault.trans {s'' : Screen} (h : SameDefault s s') (h' : SameDefault s' s'') :
    SameDefault s s'' := by
  obtain ⟨h1, h2, h3, h4, h5, h6⟩ := h
  obtain ⟨h1', h2', h3', h4', h5', h6'⟩ := h'
  exact ⟨h1'.trans h1, h2'.trans h2, h3'.trans h3, h4'.trans h4, h5'.trans h5, h6'.trans h6⟩

theorem dirtyFill_sameDefault {v : Bool} {k n : Int} (hok : s.dirtyFill v k n = .ok s') :
    SameDefault s s' := by
  obtain ⟨d, -, hok⟩ := bind_eq_ok.mp hok
  cases hok
  exact ⟨rfl, rfl, rfl, rfl, rfl, rfl⟩

theorem refresh_sameDefault (hok : s.refresh = .ok s') : SameDefault s s' := by
  unfold refresh at hok
  split at hok
  · exact dirtyFill_sameDefault hok
  · cases hok
    exact ⟨rfl, rfl, rfl, rfl, rfl, rfl⟩

theorem setDirty_sameDefault (hok : s.setDirty = .ok s') : SameDefault s s' := by
  obtain ⟨s₁, h₁, hok⟩ := bind_eq_ok.mp hok
  exact (dirtyFill_sameDefault h₁).trans (refresh_sameDefault hok)

theorem SameDefault.blankLine_eq (h : SameDefault s s') : s'.blankLine t = s.blankLine t := by
  obtain ⟨hline, hfg, hbg, hlw, hfresh, hw⟩ := h
  simp only [blankLine, getDefaultLineWithWidth, getDefaultLine, buildDefaultLine, hline, hfg, hbg,
    hlw, hfresh, hw]
  split
  · split <;> rfl
  · rfl

theorem SameButBuffer.sameDefault (h : SameButBuffer s s') : SameDefault s s' := by
  obtain ⟨b, rfl⟩ := h
  exact ⟨rfl, rfl, rfl, rfl, rfl, rfl⟩

theorem SameButBuffer.blankLine_eq (h : SameButBuffer s s') : s'.blankLine t = s.blankLine t :=
  h.sameDefault.blankLine_eq

theorem clearLine_sameButBuffer {a : Int} {line : Block ScreenChar}
    (hok : s.clearLine a line = .ok s') : SameButBuffer s s' := by
  obtain ⟨b, -, hok⟩ := bind_eq_ok.mp hok
  cases hok
  exact ⟨b, rfl⟩

/-- A line that has just been built is the one that is answered next. -/
theorem buildDefaultLine_again (fg bg : Int) :
    ((s.buildDefaultLine fg bg s.width).1.getDefaultLine fg bg s.width).2 =
      (s.buildDefaultLine fg bg s.width).2 := by
  by_cases hhit : cchar fg = fg ∧ cchar bg = bg ∧ s.width ≤ s.width
  · exact congrArg Prod.snd (if_pos hhit)
  · exact congrArg Prod.snd (if_neg hhit)

theorem getDefaultLine_cases (fg bg w : Int) (s : Screen) :
    (s.getDefaultLine fg bg w).1 = s ∨
      s.getDefaultLine fg bg w = s.buildDefaultLine fg bg w := by
  unfold getDefaultLine
  split
  · split
    · exact .inl rfl
    · exact .inr rfl
  · exact .inr rfl

theorem getDefaultLine_blankLine :
    (s.getDefaultLineWithWidth t s.width).1.blankLine t = s.blankLine t := by
  unfold getDefaultLineWithWidth
  rcases getDefaultLine_cases t.foregroundColorCode t.backgroundColorCode s.width s with h | h
  · rw [h]
  · rw [blankLine, blankLine, getDefaultLineWithWidth, getDefaultLineWithWidth, h]
    exact buildDefaultLine_again _ _

theorem setDefaultLine_blankLine {a : Int} (hok : s.setDefaultLine t a = .ok s') :
    s'.blankLine t = s.blankLine t := by
  obtain ⟨b, -, hok⟩ := bind_eq_ok.mp hok
  cases hok
  rw [← getDefaultLine_blankLine (s := s)]
  exact SameDefault.blankLine_eq ⟨rfl, rfl, rfl, rfl, rfl, rfl⟩

theorem setDefaultLine_cells (h : s.Wf) (t : Terminal) (hi : 0 ≤ i) (hi' : i < s.totalHeight) :
    ∃ s', s.setDefaultLine t (s.rowLine i * s.realWidth) = .ok s' ∧ Draws s s' ∧
      ∀ j x, 0 ≤ j → j < s.totalHeight → 0 ≤ x → x ≤ s.width →
        s'.cellAt j x = if j = i then (s.blankLine t).cell x else s.cellAt j x := by
  have hd := getDefaultLine_draws t.foregroundColorCode t.backgroundColorCode s.width s
  have hbuf : (s.getDefaultLineWithWidth t s.width).1.bufferLines = s.bufferLines :=
    getDefaultLine_bufferLines _ _ _ s
  obtain ⟨s', hok, hd', hcells⟩ := clearLine_spec (hd.wf h) (i := i)
    (by rw [hd.realWidth_eq]; exact (h.blankLine_ok t).1) hi (by rw [hd.totalHeight_eq]; exact hi')
  rw [hd.rowLine_eq, hd.realWidth_eq] at hok
  refine ⟨s', hok, hd.trans hd', ?_⟩
  intro j x hj hj' hx hx'
  rw [hcells j x hj (by rw [hd.totalHeight_eq]; exact hj') hx (by rw [hd.width_eq]; exact hx'),
    hd.cellAt_of_eq h hbuf]

/-! ## Writing cells -/

theorem Wf.cell_range (h : s.Wf) (hi : 0 ≤ i) (hi' : i < s.totalHeight) (hx : 0 ≤ x)
    (hx' : x ≤ s.width) :
    0 ≤ s.rowLine i * s.realWidth + x ∧ s.rowLine i * s.realWidth + x < s.bufferLines.size := by
  have h0 := h.line_nonneg hi hi'
  have h1 := h.line_end_le hi hi'
  have hrw : s.realWidth = s.width + 1 := rfl
  omega

theorem storeCell_spec (h : s.Wf) (c : ScreenChar) (hi : 0 ≤ i) (hi' : i < s.totalHeight)
    (hx : 0 ≤ x) (hx' : x ≤ s.width) :
    ∃ s', s.storeCell (s.rowLine i * s.realWidth + x) c = .ok s' ∧ Draws s s' ∧
      ∀ j z, 0 ≤ j → j < s.totalHeight → 0 ≤ z → z ≤ s.width →
        s'.cellAt j z = if j = i ∧ z = x then c else s.cellAt j z := by
  obtain ⟨h0, h1⟩ := h.cell_range hi hi' hx hx'
  have hok : s.storeCell (s.rowLine i * s.realWidth + x) c = .ok { s with
      bufferLines := s.bufferLines.set (s.rowLine i * s.realWidth + x) c } := by
    simp only [storeCell, Block.store_of_lt c h0 h1, ok_bind]
  have hd := storeCell_draws hok
  refine ⟨_, hok, hd, ?_⟩
  intro j z hj hj' hz hz'
  rw [(hd.wf h).cellAt_eq, h.cellAt_eq, hd.rowLine_eq, hd.realWidth_eq,
    Block.set_addr_cell _ _ hz (by unfold realWidth; omega) hx (by unfold realWidth; omega)]
  simp only [rowLine_inj hj hj' hi hi']

/-- The character in column `x` of row `i` becomes `ch`. -/
theorem storeCh_spec (h : s.Wf) (ch : UniChar) (hi : 0 ≤ i) (hi' : i < s.totalHeight)
    (hx : 0 ≤ x) (hx' : x ≤ s.width) :
    ∃ s', s.storeCh (s.rowLine i * s.realWidth + x) ch = .ok s' ∧ Draws s s' ∧
      ∀ j z, 0 ≤ j → j < s.totalHeight → 0 ≤ z → z ≤ s.width →
        s'.cellAt j z = if j = i ∧ z = x then { s.cellAt i x with ch := ch }
          else s.cellAt j z := by
  obtain ⟨h0, h1⟩ := h.cell_range hi hi' hx hx'
  obtain ⟨s', hok, hd, hcells⟩ :=
    storeCell_spec h { s.cellAt i x with ch := ch } hi hi' hx hx'
  refine ⟨s', ?_, hd, hcells⟩
  rw [h.cellAt_eq] at hok
  simp only [storeCh, Block.load_of_lt h0 h1, ok_bind, hok]

theorem moveInRow_total {d k m : Int} (h : s.Wf) (hi : 0 ≤ i) (hi' : i < s.totalHeight)
    (hm : 0 ≤ m) (hd : 0 ≤ d) (hd' : d + m ≤ s.realWidth) (hk : 0 ≤ k)
    (hk' : k + m ≤ s.realWidth) :
    ∃ s', s.moveCells (s.rowLine i * s.realWidth + d) (s.rowLine i * s.realWidth + k) m =
      .ok s' := by
  have h0 := h.line_nonneg hi hi'
  have h1 := h.line_end_le hi hi'
  have hcopy : (s.bufferLines.copy (s.rowLine i * s.realWidth + d) s.bufferLines
      (s.rowLine i * s.realWidth + k) m : Res _) =
      .ok (s.bufferLines.paste (s.rowLine i * s.realWidth + d) s.bufferLines
        (s.rowLine i * s.realWidth + k) m) := if_pos (by omega)
  exact ⟨_, by rw [moveCells, hcopy]; rfl⟩

theorem blankInRow_total {m : Nat} (h : s.Wf) (t : Terminal) (hi : 0 ≤ i)
    (hi' : i < s.totalHeight) (hx : 0 ≤ x) (hx' : x + m ≤ s.realWidth) :
    ∃ s', s.blankCells t (s.rowLine i * s.realWidth + x) m = .ok s' := by
  have hrw : s.realWidth = s.width + 1 := rfl
  have hloop := forUp_total 0 m
    (f := fun k s' => storeCell (s.rowLine i * s.realWidth + x + k) t.blank s')
    (P := fun _ s' => Draws s s') (s := s) ?_ (.refl s)
  · obtain ⟨s', hok, -⟩ := hloop
    exact ⟨s', hok⟩
  · intro k s₁ hk hk' hd
    obtain ⟨s₂, hok, hd₂, -⟩ := storeCell_spec (hd.wf h) t.blank hi
      (by rw [hd.totalHeight_eq]; exact hi') (x := x + k) (by omega)
      (by rw [hd.width_eq]; omega)
    rw [hd.rowLine_eq, hd.realWidth_eq, ← Int.add_assoc] at hok
    exact ⟨s₂, hok, hd.trans hd₂⟩

/-! ## Rows as lists -/

/-- The cells of row `i`, the mark included. -/
def row (s : Screen) (i : Nat) : List ScreenChar :=
  s.bufferLines.slice (s.lineFrom i s.scrollbackTop) s.realWidth.toNat

/-- The rows a reader sees, from the oldest of the scrollback to the last one of
the screen. -/
def rows (s : Screen) : List (List ScreenChar) :=
  (List.range s.numberOfLines.toNat).map s.row

@[simp] theorem rows_length (s : Screen) : s.rows.length = s.numberOfLines.toNat := by
  simp [rows]

theorem rows_getElem (s : Screen) {i : Nat} (h : i < s.rows.length) : s.rows[i] = s.row i := by
  simp [rows]

@[simp] theorem row_length (s : Screen) (i : Nat) : (s.row i).length = s.realWidth.toNat :=
  Block.slice_length _ _ _

theorem row_getElem (s : Screen) (i : Nat) {k : Nat} (h : k < (s.row i).length) :
    (s.row i)[k] = s.cellAt i k :=
  Block.slice_getElem _ _ _ _ _

/-- A default line as a row. -/
def blankRow (t : Terminal) (s : Screen) : List ScreenChar :=
  (s.blankLine t).slice 0 s.realWidth.toNat

/-- A blank row has no character in it and is not marked. -/
theorem Wf.blankRow_nul (h : s.Wf) (t : Terminal) : ∀ c ∈ s.blankRow t, c.ch = 0 := by
  intro c hc
  obtain ⟨k, hk, rfl⟩ := List.getElem_of_mem hc
  simp only [blankRow, Block.slice_getElem]
  exact (h.blankLine_ok t).2 _

theorem Wf.row_eq (h : s.Wf) {n : Nat} (hn : s.realWidth = (n : Int)) (i : Nat) :
    s.row i = s.bufferLines.line n (s.rowLine i) := by
  have hl := h.lineFrom_line i s.scrollbackLine
  rw [← h.scrollback_aligned] at hl
  rw [row, hl, rowLine, Block.line, hn, Int.toNat_natCast]

end Screen

end MobileTerminal
