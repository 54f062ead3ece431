import MobileTerminal.CursorRow
import MobileTerminal.Dirty

/-!
# Where a token writes to the dirty map

Two handlers write outside the map. `setString:ascii:` flags the column after
the one it has filled before it looks whether the line is full: in the last
column of the last row that is one flag behind the map. `cursorUp:` flags the
row it has moved to even when the row is above the screen.

`DirtyGuard` excludes these two. For a cursor on the screen, in the margins or
above them, it is exactly what keeps a token inside the map
(`dirty_in_range_iff`): tokens that pass the guard are treated by the lemmas
`.._dirtyOk`, and for the others a write that misses the map is shown to happen
(`text_strays`, `cursorUp_strays`).

What a token has written is judged from a screen whose record is empty at its
start (`watched`). A text is judged after each of its characters too and not
only at its end: the line feed behind the last column may rotate or scroll the
map, and the flag behind it must not be missed because of that.
-/

namespace MobileTerminal

variable {F : Foundation} {t : Terminal}

namespace Screen

variable {s s' s₁ : Screen}

/-! ## A character -/

/-- The number of the cursor's flag. -/
def cursorFlag (s : Screen) : Int := s.cursorY * s.width + s.cursorX

theorem Wf.cursorFlag_range (h : s.Wf) (hy : s.OnScreen) :
    0 ≤ s.cursorFlag ∧ s.cursorFlag < s.dirty.size :=
  h.flag_range h.column.1 h.column.2 hy.1 hy.2

/-- The next flag is one behind the map in the last cell of the screen. -/
theorem stepRight_stray (h : s.Wf) (hy : s.OnScreen) : s.stepRight.dirty.stray =
    (s.dirty.stray || decide (s.cursorFlag + 1 = s.width * s.height)) := by
  have hpos := h.cursorFlag_range hy
  have hsize := h.dirty_size
  have hnext : s.stepRight.dirty = (s.dirty.set s.cursorFlag).set (s.cursorFlag + 1) := by
    unfold cursorFlag
    rw [Int.add_assoc]
    rfl
  rw [hnext]
  by_cases hlast : s.cursorFlag + 1 = s.width * s.height
  · have hout : ¬(0 ≤ s.cursorFlag + 1 ∧ s.cursorFlag + 1 < (s.dirty.set s.cursorFlag).size) := by
      simp only [DirtyMap.set]
      omega
    rw [DirtyMap.set_outside hout, decide_eq_true hlast, Bool.or_true]
  · have hin : 0 ≤ s.cursorFlag + 1 ∧ s.cursorFlag + 1 < (s.dirty.set s.cursorFlag).size := by
      simp only [DirtyMap.set]
      omega
    rw [DirtyMap.set_inside hin, DirtyMap.set_inside hpos, decide_eq_false hlast, Bool.or_false]

/-- A character is placed and the cursor is behind it. -/
theorem placeCell_ok (h : s.Wf) (hy : s.OnScreen) (c : ScreenChar) :
    ∃ s', s.placeCell c = .ok s' ∧
      s'.dirty.stray = (s.dirty.stray || decide (s.cursorFlag + 1 = s.width * s.height)) := by
  obtain ⟨hrow, hrow'⟩ := h.visible_range hy.1 hy.2
  have hx := h.column
  obtain ⟨s₁, h₁, hd, -⟩ := storeCell_spec h (if c.ch = 0xffff then { c with ch := 0x23 } else c)
    hrow hrow' hx.1 (Int.le_of_lt hx.2)
  refine ⟨s₁.stepRight, ?_, ?_⟩
  · unfold placeCell
    rw [h.visibleLine hy.1 hy.2, ok_bind, h₁]
    rfl
  · have hdirty : s₁.dirty = s.dirty := by
      obtain ⟨b, -, h₁⟩ := bind_eq_ok.mp h₁
      cases h₁
      rfl
    rw [stepRight_stray (hd.wf h) (hd.onScreen hy), hdirty]
    unfold cursorFlag
    rw [hd.cursor_eq.1, hd.cursor_eq.2, hd.width_eq, hd.height_eq]

/-! ## A text -/

/-- `n` more characters do not reach the last cell of the screen. -/
def TextFits (n : Nat) (s : Screen) : Prop :=
  s.scrollBottom < s.height - 1 ∨ s.cursorFlag + n < s.width * s.height

/-- The cursor is on the screen, in the margins or above them. Below the bottom margin neither
the guard nor its proof says anything. -/
structure Inside (s : Screen) : Prop where
  wf : s.Wf
  row : s.OnScreen
  bottom : s.cursorY ≤ s.scrollBottom

theorem Inside.draws (h : s.Inside) (hd : Draws s s') : s'.Inside :=
  ⟨hd.wf h.wf, hd.onScreen h.row, by rw [hd.cursor_eq.2, hd.margins_eq.2]; exact h.bottom⟩

theorem Draws.cursorFlag_eq (hd : Draws s s') : s'.cursorFlag = s.cursorFlag := by
  unfold cursorFlag
  rw [hd.cursor_eq.1, hd.cursor_eq.2, hd.width_eq]

/-- The row and the column are those of the cursorFlag. -/
theorem Inside.last_iff (h : s.Inside) : s.cursorFlag + 1 = s.width * s.height ↔
    s.cursorY = s.height - 1 ∧ s.cursorX = s.width - 1 := by
  have hx := h.wf.column
  have hrow := h.row
  unfold OnScreen at hrow
  have hnext : (s.cursorY + 1) * s.width = s.cursorY * s.width + s.width := by ring
  unfold cursorFlag
  rw [Int.mul_comm s.width]
  constructor
  · intro hlast
    by_cases hy : s.cursorY = s.height - 1
    · refine ⟨hy, ?_⟩
      rw [← show s.cursorY + 1 = s.height by omega, hnext] at hlast
      omega
    · have hle : (s.cursorY + 1 + 1) * s.width ≤ s.height * s.width :=
        Int.mul_le_mul_of_nonneg_right (by omega) (by omega)
      have hnext' : (s.cursorY + 1 + 1) * s.width = s.cursorY * s.width + s.width + s.width := by
        ring
      omega
  · rintro ⟨hy, hx'⟩
    rw [← show s.cursorY + 1 = s.height by omega, hnext]
    omega

/-- The state after a character that was not put in the last cell of a screen
without a bottom margin. -/
theorem putCell_moves {c : ScreenChar} (h : s.Inside)
    (hroom : s.scrollBottom = s.height - 1 → ¬s.cursorFlag + 1 = s.width * s.height)
    (hok : s.putCell t c = .ok s') :
    s'.Inside ∧ s'.width = s.width ∧ s'.height = s.height ∧ s'.scrollBottom = s.scrollBottom ∧
      (s.scrollBottom = s.height - 1 → s'.cursorFlag = s.cursorFlag + 1) := by
  have hx := h.wf.column
  have hrow := h.row
  have hbottom := h.bottom
  have hlast := h.last_iff
  obtain ⟨hlt, hd⟩ | ⟨hge, s₁, hd, hnl⟩ := putCell_cases hok
  · have hnext : Inside { s with cursorX := s.cursorX + 1 } :=
      ⟨h.wf.withCursorX (by omega) hlt, hrow, hbottom⟩
    refine ⟨hnext.draws hd, hd.width_eq, hd.height_eq, hd.margins_eq.2, fun _ => ?_⟩
    rw [hd.cursorFlag_eq]
    exact (Int.add_assoc _ _ _).symm
  · have hhome : Inside { s with cursorX := 0 } :=
      ⟨h.wf.withCursorX (Int.le_refl 0) h.wf.width_pos, hrow, hbottom⟩
    have hin₁ := hhome.draws hd
    have hx₁ : s₁.cursorX = 0 := hd.cursor_eq.1
    have hy₁ : s₁.cursorY = s.cursorY := hd.cursor_eq.2
    have hw₁ : s₁.width = s.width := hd.width_eq
    have hh₁ : s₁.height = s.height := hd.height_eq
    have hm₁ : s₁.scrollBottom = s.scrollBottom := hd.margins_eq.2
    have hm := hin₁.wf.margins
    have hrow₁ := hin₁.row
    have hbottom₁ := hin₁.bottom
    unfold OnScreen at hrow₁
    obtain ⟨hmove, hd'⟩ | ⟨hstay, hfull, -⟩ | ⟨hstay, -, hd'⟩ := setNewLine_cases hin₁.wf hnl
    · unfold CanMoveDown at hmove
      have hnext : Inside { s₁ with cursorY := s₁.cursorY + 1 } :=
        ⟨{ hin₁.wf with }, ⟨by simp only; omega, by simp only; omega⟩, by simp only; omega⟩
      refine ⟨hnext.draws hd', hd'.width_eq.trans hw₁, hd'.height_eq.trans hh₁,
        hd'.margins_eq.2.trans hm₁, fun _ => ?_⟩
      have hline : (s.cursorY + 1) * s.width = s.cursorY * s.width + s.width := by ring
      rw [hd'.cursorFlag_eq]
      unfold cursorFlag
      simp only [hx₁, hy₁, hw₁, hline]
      omega
    · unfold CanMoveDown at hstay
      unfold FullMargins at hfull
      omega
    · -- the region has scrolled under the cursor
      unfold CanMoveDown at hstay
      exact ⟨hin₁.draws hd', hd'.width_eq.trans hw₁, hd'.height_eq.trans hh₁,
        hd'.margins_eq.2.trans hm₁, fun hfull => by omega⟩

theorem Inside.stray_unchanged {n : Nat} (h : s.Inside) (hfits : s.TextFits (n + 1)) :
    ¬s.cursorFlag + 1 = s.width * s.height := by
  have hm := h.wf.margins
  have hbottom := h.bottom
  rw [h.last_iff]
  rintro ⟨hy, hx⟩
  have hlast := h.last_iff.mpr ⟨hy, hx⟩
  unfold TextFits at hfits
  omega

theorem putCell_fits {n : Nat} {c : ScreenChar} (h : s.Inside) (hfits : s.TextFits (n + 1))
    (hok : s.putCell t c = .ok s') : s'.Inside ∧ s'.TextFits n := by
  have hm := h.wf.margins
  obtain ⟨hin, hw, hh, hb, hpos⟩ := putCell_moves h (fun _ => h.stray_unchanged hfits) hok
  refine ⟨hin, ?_⟩
  unfold TextFits at *
  rw [hb, hh, hw]
  omega

theorem placeCell_dirtyOk {n : Nat} {c : ScreenChar} (h : s.Inside) (hfits : s.TextFits (n + 1)) :
    DirtyOk s (s.placeCell c) := by
  obtain ⟨s', hok, hstray⟩ := placeCell_ok h.wf h.row c
  rw [decide_eq_false (h.stray_unchanged hfits), Bool.or_false] at hstray
  rw [hok]
  exact .ok hstray

theorem wrapToNextLine_dirtyOk (h : Wf { s with cursorX := 0 })
    (hrow : OnScreen { s with cursorX := 0 }) : DirtyOk s (s.wrapToNextLine t) := by
  refine .lookup (getLineAtScreenIndex_length _ _) fun line _ => ?_
  have hmark := storeCh_dirtyOk (line + s.width) 1 { s with cursorX := 0 }
  refine .bind ⟨hmark.length, hmark.inside⟩ fun s₁ h₁ => ?_
  have hd := storeCh_draws h₁
  exact setNewLine_dirtyOk (hd.wf h) (hd.onScreen hrow)

theorem putCell_dirtyOk {n : Nat} {c : ScreenChar} (h : s.Inside) (hfits : s.TextFits (n + 1)) :
    DirtyOk s (s.putCell t c) := by
  rw [putCell_eq]
  refine .bind (placeCell_dirtyOk h hfits) fun s₁ h₁ => .ite (fun _ => ?_) fun _ => .ok rfl
  have hd := (placeCell_draws h₁).withCursorX 0
  have hhome : Wf { s with cursorX := 0 } := h.wf.withCursorX (Int.le_refl 0) h.wf.width_pos
  exact wrapToNextLine_dirtyOk (hd.wf hhome) (hd.onScreen h.row)

/-- A text that fits, the writes of each of its characters included. -/
theorem text_dirtyOk {cells : List ScreenChar} (h : s.Inside) (hfits : s.TextFits cells.length) :
    DirtyOk s (cells.foldlM (fun s c => s.putCell t c) s) ∧
    ∀ before c after, cells = before ++ c :: after →
      DirtyOk s (before.foldlM (fun s c => s.putCell t c) s >>= placeCell c) := by
  induction cells generalizing s with
  | nil => exact ⟨.ok rfl, fun before c after hsplit => by simp at hsplit⟩
  | cons c cells ih =>
      have hput := putCell_dirtyOk (t := t) (c := c) h hfits
      have hrest : ∀ s₁, s.putCell t c = .ok s₁ → _ := fun s₁ h₁ =>
        ih (putCell_fits h hfits h₁).1 (putCell_fits h hfits h₁).2
      refine ⟨?_, fun before c' after hsplit => ?_⟩
      · rw [List.foldlM_cons]
        exact .bind hput fun s₁ h₁ => (hrest s₁ h₁).1
      · cases before with
        | nil => exact placeCell_dirtyOk h hfits
        | cons b before =>
            obtain ⟨rfl, htail⟩ := List.cons.inj hsplit
            rw [List.foldlM_cons, bind_assoc]
            exact .bind hput fun s₁ h₁ => (hrest s₁ h₁).2 before c' after htail

/-! ## A text that does not fit

The converse for texts: of the characters that are placed one by one some is the
first to reach the last cell, and its flag is the one behind the map. -/

/-- Away from the last cell of a screen without a bottom margin a character is
placed, and the line feed behind it, if any, moves down. -/
theorem putCell_ok {c : ScreenChar} (h : s.Inside) (hbottom : s.scrollBottom = s.height - 1)
    (hlast : ¬s.cursorFlag + 1 = s.width * s.height) : ∃ s', s.putCell t c = .ok s' := by
  have hx := h.wf.column
  have hrow := h.row
  unfold OnScreen at hrow
  obtain ⟨s₁, h₁, -⟩ := placeCell_ok h.wf h.row c
  have hd := placeCell_draws h₁
  rw [putCell_eq, h₁, ok_bind]
  by_cases hfull : s₁.cursorX ≥ s₁.width
  · rw [if_pos hfull]
    have hd₁ := hd.withCursorX 0
    have hhome : Wf { s with cursorX := 0 } := h.wf.withCursorX (Int.le_refl 0) h.wf.width_pos
    have hwf : Wf { s₁ with cursorX := 0 } := hd₁.wf hhome
    have hrow₁ : OnScreen { s₁ with cursorX := 0 } := hd₁.onScreen h.row
    obtain ⟨hi, hi'⟩ := hwf.visible_range hrow₁.1 hrow₁.2
    obtain ⟨s₂, h₂, hd₂, -⟩ := storeCh_spec hwf 1 hi hi' (x := s₁.width)
      (by have := hwf.width_pos; simp only at this; omega) (Int.le_refl _)
    have hxw : s₁.cursorX = s.cursorX + 1 := hd.cursor_eq.1
    have hww : s₁.width = s.width := hd.width_eq
    have hdown : s₂.CanMoveDown := by
      have hy₂ : s₂.cursorY = s.cursorY := hd₂.cursor_eq.2.trans hd.cursor_eq.2
      have hb₂ : s₂.scrollBottom = s.scrollBottom := hd₂.margins_eq.2.trans hd.margins_eq.2
      have hend := h.last_iff
      exact Or.inl (by omega)
    exact ⟨_, bind_eq_ok.mpr ⟨_, hwf.visibleLine hrow₁.1 hrow₁.2,
      bind_eq_ok.mpr ⟨s₂, h₂, setNewLine_down t hdown⟩⟩⟩
  · rw [if_neg hfull]
    exact ⟨s₁, rfl⟩

/-- The character that reaches the last cell is flagged behind the map. -/
theorem text_strays {cells : List ScreenChar} (h : s.Inside)
    (hbottom : s.scrollBottom = s.height - 1)
    (hlong : s.width * s.height ≤ s.cursorFlag + cells.length) :
    ∃ before c after s₁, cells = before ++ c :: after ∧
      (before.foldlM (fun s c => s.putCell t c) s >>= placeCell c) = .ok s₁ ∧
      s₁.dirty.stray = true := by
  induction cells generalizing s with
  | nil =>
      have hpos := h.wf.cursorFlag_range h.row
      rw [h.wf.dirty_size] at hpos
      simp only [List.length_nil] at hlong
      omega
  | cons c cells ih =>
      by_cases hlast : s.cursorFlag + 1 = s.width * s.height
      · obtain ⟨s', hok, hstray⟩ := placeCell_ok h.wf h.row c
        rw [decide_eq_true hlast, Bool.or_true] at hstray
        exact ⟨[], c, cells, s', rfl, hok, hstray⟩
      · obtain ⟨s', hok⟩ := putCell_ok (t := t) (c := c) h hbottom hlast
        obtain ⟨hin, hw, hh, hb, hpos⟩ := putCell_moves h (fun _ => hlast) hok
        have hlong' : s'.width * s'.height ≤ s'.cursorFlag + cells.length := by
          rw [hw, hh, hpos hbottom]
          rw [List.length_cons] at hlong
          omega
        obtain ⟨before, c', after, s₁, rfl, hplace, hstray⟩ := ih hin (by omega) hlong'
        refine ⟨c :: before, c', after, s₁, rfl, ?_, hstray⟩
        rw [List.foldlM_cons, hok]
        exact hplace

/-! ## Tokens -/

/-- The number of cells a text takes. -/
def cellCount (F : Foundation) (string : List UniChar) (ascii : Bool) : Nat :=
  if string.length < 1 then 0
  else if ascii then string.length
  else ((F.precomposedStringWithCanonicalMapping string).filter (!isZeroWidth ·)).length

theorem stringCells_length {string : List UniChar} {ascii : Bool} {cells : List ScreenChar}
    (hne : ¬string.length < 1) (hok : s.stringCells F t string ascii = .ok cells) :
    cells.length = cellCount F string ascii := by
  obtain ⟨chars, hchars, hok⟩ := bind_eq_ok.mp hok
  cases hok
  rw [List.length_map, cellCount, if_neg hne]
  cases ascii with
  | true =>
      obtain ⟨graphics, -, hchars⟩ := bind_eq_ok.mp hchars
      cases hchars
      rw [if_pos rfl]
      split
      · exact List.length_map _
      · rfl
  | false =>
      cases hchars
      rfl

/-- The text goes to the printer, or it ends before the last cell. -/
def StringFits (F : Foundation) (string : List UniChar) (ascii : Bool) (s : Screen) : Prop :=
  s.printToAnsi = true ∨ s.TextFits (cellCount F string ascii)

/-- The writes outside the map are not among those of the token: a text ends before it reaches
the last cell of the screen, and `cursorUp:` does not start above the margins with more
rows to go than there are. -/
def DirtyGuard (F : Foundation) (tok : VT100TCC) (s : Screen) : Prop :=
  match tok.type with
  | .string => s.StringFits F tok.string false
  | .asciiString => s.StringFits F tok.string true
  | .cuu => s.scrollTop ≤ s.cursorY ∨ atLeastOne (tok.csi.p.cell 0) ≤ s.cursorY
  | _ => True

theorem setString_dirtyOk {string : List UniChar} {ascii : Bool} (h : s.Inside)
    (hfits : s.TextFits (cellCount F string ascii)) : DirtyOk s (s.setString F t string ascii) := by
  refine .ite (fun _ => .ok rfl) fun hne => .lookup ?_ fun cells hcells => ?_
  · intro he
    rcases bind_eq_error.mp he with he | ⟨chars, -, he⟩
    · split at he
      · rcases bind_eq_error.mp he with he | ⟨graphics, -, he⟩
        · exact Block.load_length _ _ he
        · cases he
      · cases he
    · cases he
  · exact (text_dirtyOk h (by rw [stringCells_length hne hcells]; exact hfits)).1

theorem putString_dirtyOk {string : List UniChar} {ascii : Bool} (h : s.Inside)
    (hfits : s.StringFits F string ascii) : DirtyOk s (s.putString F t string ascii) := by
  refine .ite (fun _ => .ok ?_) fun hp => setString_dirtyOk h (hfits.resolve_left hp)
  unfold printStringToAnsi
  split <;> rfl

theorem putControl_dirtyOk {code : Nat} (h : s.Inside) : DirtyOk s (s.putControl t code) := by
  unfold putControl
  split
  · exact .ok rfl
  · exact .ok (congrArg DirtyMap.stray (backSpace_dirty s))
  · exact setTab_dirtyOk s
  · exact lineFeed_dirtyOk h.wf h.row
  · exact lineFeed_dirtyOk h.wf h.row
  · exact lineFeed_dirtyOk h.wf h.row
  · exact .ok rfl
  · exact deleteCharacters_dirtyOk h.wf
  · exact .ok rfl

/-- `cursorUp:` and `cursorDown:` flag the row they move to. -/
theorem flagRow_stray (h : s.Wf) {y : Int} (hy : 0 ≤ y ∧ y < s.height) :
    (if s.cursorX < s.width then touch (y * s.width + s.cursorX) { s with cursorY := y }
      else { s with cursorY := y }).dirty.stray = s.dirty.stray := by
  have hx := h.column
  split
  · exact touch_stray (h.flag_range hx.1 hx.2 hy.1 hy.2)
  · rfl

theorem cursorUp_stray {n : Int} (h : s.Wf) (hy : (s.cursorUp n).OnScreen) :
    (s.cursorUp n).dirty.stray = s.dirty.stray := by
  have hrow : (s.cursorUp n).cursorY = s.upRow n := by
    rw [cursorUp_eq]
    split <;> rfl
  unfold OnScreen at hy
  rw [hrow, (cursorUp_keeps n s).height_eq] at hy
  exact flagRow_stray h hy

theorem cursorDown_stray {n : Int} (h : s.Wf) (hy : (s.cursorDown n).OnScreen) :
    (s.cursorDown n).dirty.stray = s.dirty.stray := by
  have hrow : (s.cursorDown n).cursorY = s.downRow n := by
    rw [cursorDown_eq]
    split <;> rfl
  unfold OnScreen at hy
  rw [hrow, (cursorDown_keeps n s).height_eq] at hy
  exact flagRow_stray h hy

/-- Above the margins, `cursorUp:` by more rows than there are flags a cell in
front of the map. -/
theorem cursorUp_strays {n : Int} (h : s.Wf) (hy : s.OnScreen) (hn : IsInt n)
    (habove : s.cursorY < s.scrollTop)
    (hfar : s.cursorY < atLeastOne n) : (s.cursorUp n).dirty.stray = true := by
  have hx := h.column
  have hone := atLeastOne_range hn
  unfold OnScreen at hy
  have hsum : cint (s.cursorY - atLeastOne n) = s.cursorY - atLeastOne n :=
    cint_of_isInt ⟨by omega, by omega⟩
  have hrow : s.upRow n = s.cursorY - atLeastOne n := by
    rw [upRow, if_neg (by omega), hsum]
  rw [cursorUp_eq, if_pos hx.2, hrow]
  refine DirtyMap.set_outside fun hin => ?_
  have hneg : (s.cursorY - atLeastOne n) * s.width ≤ -1 * s.width :=
    Int.mul_le_mul_of_nonneg_right (by omega) (by omega)
  omega

/-- `cursorLeft:` and `cursorRight:` flag the column they move to. -/
theorem flagColumn_stray (h : s.Wf) (hy : s.OnScreen) (x : Int) :
    (let s₁ := if 0 ≤ x ∧ x < s.width then { s with cursorX := x } else s
     s₁.touch (s₁.cursorY * s₁.width + s₁.cursorX)).dirty.stray = s.dirty.stray := by
  have hx := h.column
  by_cases hin : 0 ≤ x ∧ x < s.width
  · simp only [if_pos hin]
    exact touch_stray (h.flag_range hin.1 hin.2 hy.1 hy.2)
  · simp only [if_neg hin]
    exact touch_stray (h.flag_range hx.1 hx.2 hy.1 hy.2)

theorem cursorLeft_stray (h : s.Wf) (hy : s.OnScreen) (n : Int) :
    (s.cursorLeft n).dirty.stray = s.dirty.stray := flagColumn_stray h hy _

theorem cursorRight_stray (h : s.Wf) (hy : s.OnScreen) (n : Int) :
    (s.cursorRight n).dirty.stray = s.dirty.stray := flagColumn_stray h hy _

theorem cursorToX_stray (h : s.Wf) (hy : s.OnScreen) (x : Int) :
    (s.cursorToX x).dirty.stray = s.dirty.stray := by
  have hx := clampPos_range (cint (x - 1)) h.width_pos
  exact touch_stray (h.flag_range hx.1 hx.2 hy.1 hy.2)

theorem cursorToXY_stray (h : s.Wf) (x y : Int) :
    (s.cursorToXY t x y).dirty.stray = s.dirty.stray := by
  have hx := clampPos_range (cint (x - 1)) h.width_pos
  have hy := cursorToXY_onScreen (t := t) h x y
  exact touch_stray (h.flag_range hx.1 hx.2 hy.1 hy.2)

theorem stray_ite {p : Prop} [Decidable p] (h : s₁.dirty.stray = s.dirty.stray)
    (h' : s'.dirty.stray = s.dirty.stray) :
    (if p then s₁ else s').dirty.stray = s.dirty.stray := by
  split
  · exact h
  · exact h'

/-- A parameter that no handler can take past the range of an `int`. -/
structure SmallParam (tok : VT100TCC) (s : Screen) : Prop where
  params : tok.ParamsOk
  small : tok.csi.p.cell 0 < 2 ^ 31 - s.width - s.height

theorem dispatch_dirtyOk {tok : VT100TCC} (h : s.Inside) (htok : SmallParam tok s)
    (hguard : s.DirtyGuard F tok) : DirtyOk s (s.dispatch F t tok) := by
  have hwf := h.wf
  have hrow := h.row
  have hx := hwf.column
  have hh := hwf.height_pos
  have hint := htok.params.isInt
  have hsmall := htok.small
  have hnonneg := htok.params.nonneg
  obtain ⟨type, string, code, csi⟩ := tok
  simp only at hint hsmall hnonneg
  cases type with
  | string => exact putString_dirtyOk h hguard
  | asciiString => exact putString_dirtyOk h hguard
  | cc code => exact putControl_dirtyOk h
  | cub => exact .ok (cursorLeft_stray hwf hrow _)
  | cud =>
      have hp := hnonneg rfl
      have hone := atLeastOne_range hint
      unfold OnScreen at hrow
      refine .ok (cursorDown_stray hwf (cursorDown_onScreen hwf hrow (by omega) hint ?_))
      refine Or.inl ⟨h.bottom, ?_⟩
      show s.cursorY + atLeastOne (csi.p.cell 0) < 2 ^ 31
      unfold atLeastOne
      split <;> omega
  | cuf => exact .ok (cursorRight_stray hwf hrow _)
  | cup => exact .ok (cursorToXY_stray hwf _ _)
  | cuu =>
      have hp := hnonneg rfl
      exact .ok (cursorUp_stray hwf (cursorUp_onScreen hwf hrow (by omega) hint hguard))
  | decaln => exact alignmentDisplay_dirtyOk hwf
  | decrc =>
      refine .lookup nsAssert_length fun _ _ => .lookup nsAssert_length fun _ _ => .ok rfl
  | decsc => exact .ok rfl
  | decstbm => exact .ok (stray_ite rfl rfl)
  | ed => exact eraseInDisplay_dirtyOk hwf hrow
  | el => exact eraseInLine_dirtyOk hwf hrow
  | hts => exact markTab_dirtyOk _ s
  | hvp => exact .ok (cursorToXY_stray hwf _ _)
  | nel =>
      have hhome : Wf { s with cursorX := 0 } := hwf.withCursorX (Int.le_refl 0) hwf.width_pos
      have hindex := index_dirtyOk (t := t) hhome hrow
      exact ⟨hindex.length, hindex.inside⟩
  | ind => exact index_dirtyOk hwf hrow
  | ri => exact reverseIndex_dirtyOk hwf
  | tbc => exact .ite (fun _ => .ok rfl) fun _ => .ite (fun _ => markTab_dirtyOk _ s) fun _ => .ok rfl
  | decset => exact .ok (stray_ite rfl rfl)
  | decrst => exact .ok (stray_ite rfl rfl)
  | cha => exact .ok (cursorToX_stray hwf hrow _)
  | vpa => exact .ok (cursorToXY_stray hwf _ _)
  | vpr => exact .ok (cursorToXY_stray hwf _ _)
  | ech => exact eraseCharacters_dirtyOk hwf hrow (hnonneg rfl) (by simp only; omega)
  | print => exact .ok (stray_ite rfl (stray_ite rfl rfl))
  | insblnk => exact insertBlank_dirtyOk hwf hrow
  | insln => exact insertLines_dirtyOk hwf hrow h.bottom
  | delch => exact deleteCharacters_dirtyOk hwf
  | delln => exact deleteLines_dirtyOk hwf hrow h.bottom
  | su =>
      exact .forUp (P := fun s => s.Wf ∧ s.OnScreen) (fun _ _ hI => scrollUp_dirtyOk hI.1 hI.2)
        (fun _ _ _ hI hs => ⟨scrollUp_wf hI.1 hs, scrollUp_onScreen hI.1 hI.2 hs⟩) ⟨hwf, hrow⟩
  | sd =>
      exact .forUp (P := Wf) (fun _ _ hI => scrollDown_dirtyOk hI)
        (fun _ _ _ hI hs => (scrollDown_draws hs).wf hI) hwf
  | _ => exact .ok rfl

theorem putToken_dirtyOk {tok : VT100TCC} (h : s.Inside) (htok : SmallParam tok s)
    (hguard : s.DirtyGuard F tok) : DirtyOk s (s.putToken F t tok) := by
  have hx := h.wf.column
  refine .bind (dispatch_dirtyOk h htok hguard) fun s₁ h₁ => .ok (stray_ite ?_ rfl)
  have hwf := dispatch_wf h.wf h₁
  have hsize : s₁.width = s.width ∧ s₁.height = s.height := by
    by_cases hsave : tok.type = .decsc
    · simp only [dispatch, hsave] at h₁
      cases h₁
      exact ⟨rfl, rfl⟩
    · have hk := dispatch_keeps hsave h₁
      exact ⟨hk.width_eq, hk.height_eq⟩
  have hrow := h.row
  unfold OnScreen at hrow
  exact hwf.touch_stray hx.1 (by omega) hrow.1 (by omega)

/-! ## The whole token

The flag of the old cursor, which `putToken:` sets when the cursor has moved, is
inside the map for a cursor on the screen. -/

/-- The screen with a record of the writes that miss the map that starts here. -/
def watched (s : Screen) : Screen := { s with dirty := { s.dirty with stray := false } }

theorem watched_draws (s : Screen) : Draws s s.watched := .dirty rfl

/-- Every write of the token to `dirty` is inside the map. The flags of a character
are set before the line feed behind it, so a text is also looked at after each of
its characters. -/
structure DirtyInRange (F : Foundation) (t : Terminal) (tok : VT100TCC) (s : Screen) : Prop where
  token : DirtyOk s.watched (s.watched.putToken F t tok)
  characters : ∀ ascii, tok.type = (if ascii then .asciiString else .string) →
    s.printToAnsi = false → ∀ cells, s.watched.stringCells F t tok.string ascii = .ok cells →
    ¬tok.string.length < 1 → ∀ before c after, cells = before ++ c :: after →
      DirtyOk s.watched (before.foldlM (fun s c => s.putCell t c) s.watched >>= placeCell c)

theorem StringFits.of_inRange {tok : VT100TCC} {ascii : Bool} (h : s.Inside)
    (htype : tok.type = (if ascii then .asciiString else .string))
    (hcharset : 0 ≤ t.charset ∧ t.charset < s.charset.size) (hin : DirtyInRange F t tok s) :
    s.StringFits F tok.string ascii := by
  by_contra hfits
  unfold StringFits TextFits at hfits
  rw [not_or, not_or] at hfits
  obtain ⟨hprint, hbottom, hlong⟩ := hfits
  have hm := h.wf.margins
  have hpos := h.wf.cursorFlag_range h.row
  rw [h.wf.dirty_size] at hpos
  have hne : ¬tok.string.length < 1 := by
    intro hempty
    rw [cellCount, if_pos hempty] at hlong
    omega
  obtain ⟨cells, hcells⟩ : ∃ cells, s.watched.stringCells F t tok.string ascii = .ok cells := by
    unfold stringCells
    cases ascii with
    | true =>
        have hload : (s.watched.charset.load t.charset : Res Bool) = .ok _ :=
          Block.load_of_lt hcharset.1 hcharset.2
        simp only [if_pos, hload, ok_bind]
        exact ⟨_, rfl⟩
    | false => exact ⟨_, rfl⟩
  have hlen := stringCells_length hne hcells
  obtain ⟨before, c, after, s₁, hsplit, hplace, hstray⟩ := text_strays (t := t)
    (h.draws (watched_draws s)) (show s.watched.scrollBottom = s.watched.height - 1 by
      show s.scrollBottom = s.height - 1
      omega) (show s.watched.width * s.watched.height ≤ s.watched.cursorFlag + cells.length by
      show s.width * s.height ≤ s.cursorFlag + cells.length
      omega)
  have hok := (hin.characters ascii htype (Bool.eq_false_iff.mpr hprint) cells hcells hne before c
    after hsplit).inside s₁ hplace
  rw [hstray] at hok
  cases hok

/-- What has missed the map is not forgotten by the old cursor's flag. -/
theorem stray_stays {p : Prop} [Decidable p] {i : Int} (h : s.dirty.stray = true) :
    (if p then s.touch i else s).dirty.stray = true := by
  split
  · simp only [touch, DirtyMap.set, h, Bool.true_or]
  · exact h

/-- A token stays inside the map exactly when the guard says so. -/
theorem dirtyInRange_iff {tok : VT100TCC} (h : s.Inside) (htok : SmallParam tok s)
    (hcharset : 0 ≤ t.charset ∧ t.charset < s.charset.size) :
    DirtyInRange F t tok s ↔ s.DirtyGuard F tok := by
  have hwatched := h.draws (watched_draws s)
  constructor
  · intro hin
    unfold DirtyGuard
    split
    · rename_i htype
      exact .of_inRange h htype hcharset hin
    · rename_i htype
      exact .of_inRange h htype hcharset hin
    · rename_i htype
      by_contra hout
      rw [not_or] at hout
      have hstray := cursorUp_strays hwatched.wf hwatched.row htok.params.isInt
        (show s.cursorY < s.scrollTop by omega)
        (show s.cursorY < atLeastOne (tok.csi.p.cell 0) by omega)
      have hup : s.watched.dispatch F t tok = .ok (s.watched.cursorUp (tok.csi.p.cell 0)) := by
        simp only [dispatch, htype]
      have hok := hin.token.inside _ (by rw [putToken, hup, ok_bind])
      rw [stray_stays hstray] at hok
      cases hok
    · trivial
  · intro hguard
    have hguard' : s.watched.DirtyGuard F tok := hguard
    refine ⟨putToken_dirtyOk hwatched ⟨htok.params, htok.small⟩ hguard', ?_⟩
    intro ascii htype hprint cells hcells hne before c after hsplit
    have hfits : s.TextFits (cellCount F tok.string ascii) := by
      have hfits : s.StringFits F tok.string ascii := by
        unfold DirtyGuard at hguard
        cases ascii with
        | true => simpa only [htype, if_pos] using hguard
        | false => simpa only [htype, Bool.false_eq_true, if_false] using hguard
      exact hfits.resolve_left (by rw [hprint]; exact Bool.false_ne_true)
    rw [← stringCells_length hne hcells] at hfits
    exact (text_dirtyOk hwatched hfits).2 before c after hsplit

end Screen

namespace VT100

/-- A token that some fetch delivers, executed in any reachable state whose cursor
is on the screen and not below the bottom margin, writes inside the map exactly
when it passes the guard. -/
theorem dirty_in_range_iff {c : Config} {v v' : VT100} {tok : VT100TCC} (h : Reachable F c)
    (hnext : v.getNextToken F = .ok (tok, v')) (hy : c.2.screen.OnScreen)
    (hbottom : c.2.screen.cursorY ≤ c.2.screen.scrollBottom)
    (hsmall : tok.csi.p.cell 0 < 2 ^ 31 - c.2.screen.width - c.2.screen.height) :
    c.2.screen.DirtyInRange F c.2.terminal tok ↔ c.2.screen.DirtyGuard F tok := by
  have hwf := reachable_wf h
  have hcharset := hwf.terminal.charset_range
  refine Screen.dirtyInRange_iff ⟨hwf.screen, hy, hbottom⟩ ⟨getNextToken_params hnext, hsmall⟩ ?_
  rw [hwf.screen.charsets]
  omega

theorem fetch_cursorUp (F : Foundation) : ∃ (v v' : VT100) (tok : VT100TCC),
    v.getNextToken F = .ok (tok, v') ∧ tok.type = .cuu ∧ tok.csi.p.cell 0 = 1 := by
  obtain ⟨v₀, v, -, -, hwf, hpending, -, -⟩ := init_put ⟨0, 0, 0⟩ [0x1b, 0x5b, 0x41]
  obtain ⟨tok, hdecode, htype, hp0⟩ : ∃ tok : VT100TCC,
      decodeControl v.terminal [0x1b, 0x5b, 0x41] v.screen = .ok (tok, 3, v.screen) ∧
      tok.type = .cuu ∧ tok.csi.p.cell 0 = 1 := ⟨_, rfl, rfl, rfl⟩
  have hmode : v.setMode tok = .ok v := by simp only [setMode, htype]
  have hattr : v.setCharAttr tok = .ok v := by
    simp [VT100.setCharAttr, Terminal.setCharAttr, htype]
  obtain ⟨v', hfetch, -⟩ := getNextToken_of_decode (F := F) hwf (by decide) hpending hdecode
    (by decide) hmode hattr
  exact ⟨v, v', tok, hfetch, htype, hp0⟩

/-- On a new object `ESC [ A` stays inside the map. -/
theorem init_cursorUp_in_range : ∃ (v : VT100) (tok : VT100TCC),
    Reachable Foundation.latin1 (.idle, v) ∧ tok.type = .cuu ∧
    v.screen.DirtyInRange Foundation.latin1 v.terminal tok := by
  obtain ⟨v, hv, -, hs⟩ := init_fresh ⟨0, 0, 0⟩
  obtain ⟨v₀, v₁, tok, hfetch, htype, hp0⟩ := fetch_cursorUp Foundation.latin1
  have hr : Reachable Foundation.latin1 (.idle, v) := init_reachable hv
  have hm := hs.margins
  refine ⟨v, tok, hr, htype, ?_⟩
  refine (dirty_in_range_iff hr hfetch ?_ ?_ ?_).mpr ?_
  · rw [Screen.OnScreen, hs.cursor.2, hs.height_eq]
    decide
  · rw [hs.cursor.2, hm.2, hs.height_eq]
    decide
  · rw [hp0, hs.width_eq, hs.height_eq]
    decide
  · simp only [Screen.DirtyGuard, htype]
    rw [hm.1, hs.cursor.2]
    exact Or.inl (Int.le_refl 0)

/-- `ESC [ 2 ; 3 r` and then `ESC [ A`: the flag of a row above the screen. -/
theorem cursorUp_flags_outside : ∃ (v v₁ v₂ v₃ : VT100) (tok : VT100TCC),
    VT100.init ⟨0, 0, 0⟩ = .ok v ∧
    v.readInputStream Foundation.latin1 setMarginsBytes = .ok v₁ ∧
    Reachable Foundation.latin1 (.idle, v₁) ∧
    v₂.getNextToken Foundation.latin1 = .ok (tok, v₃) ∧ v₁.screen.OnScreen ∧
    v₁.screen.cursorY ≤ v₁.screen.scrollBottom ∧
    tok.csi.p.cell 0 < 2 ^ 31 - v₁.screen.width - v₁.screen.height ∧
    ¬v₁.screen.DirtyInRange Foundation.latin1 v₁.terminal tok := by
  obtain ⟨v, hv, ht, hs⟩ := init_fresh ⟨0, 0, 0⟩
  obtain ⟨v₁, h₁, hd, -, hwf, -⟩ := readInputStream_setMargins
    (F := Foundation.latin1) (init_wf hv) (by rw [ht]; rfl) (by rw [hs.height_eq]; decide)
    (by rw [ht]; rfl)
  obtain ⟨v₂, v₃, tok, hfetch, htype, hp0⟩ := fetch_cursorUp Foundation.latin1
  have hy : v₁.screen.cursorY = 0 := hd.cursor_eq.2
  have htop : v₁.screen.scrollTop = 1 := hd.margins_eq.1
  have hbottom : v₁.screen.scrollBottom = 2 := hd.margins_eq.2
  have hheight : v₁.screen.height = kDefaultHeight := hd.height_eq.trans hs.height_eq
  have hwidth : v₁.screen.width = kDefaultWidth := hd.width_eq.trans hs.width_eq
  have hon : v₁.screen.OnScreen := by
    rw [Screen.OnScreen, hy, hheight]
    decide
  have hbelow : v₁.screen.cursorY ≤ v₁.screen.scrollBottom := by omega
  have hsmall : tok.csi.p.cell 0 < 2 ^ 31 - v₁.screen.width - v₁.screen.height := by
    rw [hp0, hwidth, hheight]
    decide
  refine ⟨v, v₁, v₂, v₃, tok, hv, h₁, (init_reachable hv).readInputStream h₁, hfetch, hon, hbelow,
    hsmall, fun hin => ?_⟩
  have hcharset := hwf.terminal.charset_range
  have hguard := (Screen.dirtyInRange_iff ⟨hwf.screen, hon, hbelow⟩
    ⟨getNextToken_params hfetch, hsmall⟩ (by rw [hwf.screen.charsets]; omega)).mp hin
  simp only [Screen.DirtyGuard, htype] at hguard
  rw [htop, hy, hp0] at hguard
  revert hguard
  decide

end VT100

end MobileTerminal
