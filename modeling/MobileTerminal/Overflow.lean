import MobileTerminal.CursorRow
import MobileTerminal.History
import MobileTerminal.Lines

/-!
# Large parameters

The handlers add a parameter to the row or the column of the cursor before they
compare the sum with a limit. With a parameter near 2^31 the sum wraps around,
passes the comparison it was to fail, and the cursor or the edited rows end up
somewhere else.

What such a handler should do is not written down anywhere, but it can be read
off the code: the same thing without the overflow. So the handlers are written
once more with the rounding of the sums left open. With `cint` they are the
handlers of the source (`handle_cint`), with `id` they count like unbounded
integers. `MatchesExact` says that the two agree in what they show, and that the
handler completes.

They agree exactly when no sum overflows where it decides something
(`large_parameters_iff`). Not every overflow decides something: in the last
column `cursorRight:` goes nowhere anyway. And for `insertLines:` and
`deleteLines:` it also takes a cursor that is not further down than the row
below the bottom margin, since there not even small parameters complete.

The proof goes token by token. Handlers that only move the cursor are compared
by the position they compute (`matchesExact_moved`), those that write cells by
being the exact handler when nothing overflows, and by leaving the buffer when
something does.
-/

namespace MobileTerminal

/-- CUU, CUD, CUF, CUB, CUP, VPA, VPR, ICH, DCH, ECH, IL and DL. -/
def TokenType.addsParameter : TokenType → Bool
  | .cuu | .cud | .cuf | .cub | .cup | .vpa | .vpr | .insblnk | .delch | .ech | .insln
  | .delln => true
  | _ => false

namespace Screen

variable {F : Foundation} {t : Terminal} {s s' : Screen} {tok : VT100TCC} {n : Int}

/-! ## The handlers, with their rounding left open

Each is the handler of the source with a function `wrap` around the sums that
have a parameter in them. -/

section

variable (wrap : Int → Int)

def cursorLeftWith (n : Int) (s : Screen) : Screen :=
  let x := wrap (s.cursorX - atLeastOne n)
  let x := if x < 0 then 0 else x
  let s := if 0 ≤ x ∧ x < s.width then { s with cursorX := x } else s
  s.touch (s.cursorY * s.width + s.cursorX)

def cursorRightWith (n : Int) (s : Screen) : Screen :=
  let x := wrap (s.cursorX + atLeastOne n)
  let x := if x ≥ s.width then s.width - 1 else x
  let s := if 0 ≤ x ∧ x < s.width then { s with cursorX := x } else s
  s.touch (s.cursorY * s.width + s.cursorX)

def cursorUpWith (n : Int) (s : Screen) : Screen :=
  let y := wrap (s.cursorY - atLeastOne n)
  let s := { s with cursorY :=
    if s.cursorY ≥ s.scrollTop then (if y < s.scrollTop then s.scrollTop else y) else y }
  if s.cursorX < s.width then s.touch (s.cursorY * s.width + s.cursorX) else s

def cursorDownWith (n : Int) (s : Screen) : Screen :=
  let y := wrap (s.cursorY + atLeastOne n)
  let s := { s with cursorY :=
    if s.cursorY ≤ s.scrollBottom then (if y > s.scrollBottom then s.scrollBottom else y) else y }
  if s.cursorX < s.width then s.touch (s.cursorY * s.width + s.cursorX) else s

def cursorToXYWith (t : Terminal) (x y : Int) (s : Screen) : Screen :=
  let yPos := wrap (y - 1)
  let yPos := if t.originMode then wrap (yPos + s.scrollTop) else yPos
  let s := { s with cursorX := clampPos (wrap (x - 1)) s.width
                    cursorY := clampPos yPos s.height }
  s.touch (s.cursorY * s.width + s.cursorX)

def clampCellsWith (n : Int) (s : Screen) : Int :=
  if wrap (n + s.cursorX) > s.width then s.width - s.cursorX else n

def deleteCharactersWith (t : Terminal) (n : Int) (s : Screen) : Res Screen :=
  if 0 ≤ s.cursorX ∧ s.cursorX < s.width ∧ 0 ≤ s.cursorY ∧ s.cursorY < s.height then do
    let n := s.clampCellsWith wrap n
    let aLine ← s.getLineAtScreenIndex s.cursorY
    let s ← (if n < s.width then
        s.moveCells (aLine + s.cursorX) (aLine + s.cursorX + n) (s.width - s.cursorX - n)
      else .ok s)
    let s ← s.blankCells t (aLine + (s.width - n)) n.toNat
    s.dirtyFill true (s.cursorY * s.width + s.cursorX) (s.width - s.cursorX)
  else .ok s

def insertBlankWith (t : Terminal) (n : Int) (s : Screen) : Res Screen :=
  if s.cursorX ≥ s.width then .ok s
  else do
    let n := s.clampCellsWith wrap n
    let aLine ← s.getLineAtScreenIndex s.cursorY
    let s ← s.moveCells (aLine + s.cursorX + n) (aLine + s.cursorX) (s.width - s.cursorX - n)
    let s ← s.blankCells t (aLine + s.cursorX) n.toNat
    s.dirtyFill true (s.cursorY * s.width + s.cursorX) (s.width - s.cursorX)

def eraseCharactersWith (t : Terminal) (n : Int) (s : Screen) : Res Screen :=
  if s.cursorX < s.width then do
    let j := s.clampCellsWith wrap n
    let aLine ← s.getLineAtScreenIndex s.cursorY
    let s ← s.blankCells t (aLine + s.cursorX) j.toNat
    s.dirtyFill true (s.width * s.cursorY + s.cursorX) j
  else .ok s

def clearRowsWith (line : Block ScreenChar) (y : Int) (n : Nat) (s : Screen) : Res Screen :=
  forUp (fun i s => do
    let aLine ← s.getLineAtScreenIndex (wrap (y + i))
    s.clearLine aLine line) 0 n s

def numLinesMovedWith (n : Int) (s : Screen) : Int :=
  wrap (s.scrollBottom - wrap (s.cursorY + n))

def clampLinesWith (n : Int) (s : Screen) : Int :=
  if wrap (n + s.cursorY) > s.scrollBottom then s.scrollBottom - s.cursorY + 1 else n

def moveRowsDownWith (n : Int) (s : Screen) : Res Screen :=
  if wrap (n + s.cursorY) ≤ s.scrollBottom then
    forDown (fun i s => do
      let sourceLine ← s.getLineAtScreenIndex (wrap (s.cursorY + i))
      let targetLine ← s.getLineAtScreenIndex (wrap (s.cursorY + i + n))
      s.copyLine targetLine sourceLine) (s.numLinesMovedWith wrap n)
      (s.numLinesMovedWith wrap n + 1).toNat s
  else .ok s

def moveRowsUpWith (n : Int) (s : Screen) : Res Screen :=
  if wrap (n + s.cursorY) ≤ s.scrollBottom then
    forUp (fun i s => do
      let sourceLine ← s.getLineAtScreenIndex (wrap (s.cursorY + i + n))
      let targetLine ← s.getLineAtScreenIndex (wrap (s.cursorY + i))
      s.copyLine targetLine sourceLine) 0 (s.numLinesMovedWith wrap n + 1).toNat s
  else .ok s

def insertLinesWith (t : Terminal) (n : Int) (s : Screen) : Res Screen := do
  let s ← s.moveRowsDownWith wrap n
  let n := s.clampLinesWith wrap n
  let aDefaultLine := s.getDefaultLineWithWidth t s.width
  let s ← aDefaultLine.1.clearRowsWith wrap aDefaultLine.2 s.cursorY n.toNat
  s.dirtyFill true (s.cursorY * s.width) ((s.scrollBottom - s.cursorY + 1) * s.width)

def deleteLinesWith (t : Terminal) (n : Int) (s : Screen) : Res Screen := do
  let s ← s.moveRowsUpWith wrap n
  let n := s.clampLinesWith wrap n
  let aDefaultLine := s.getDefaultLineWithWidth t s.width
  let s ← aDefaultLine.1.clearRowsWith wrap aDefaultLine.2 (s.scrollBottom - n + 1) n.toNat
  s.dirtyFill true (s.cursorY * s.width) ((s.scrollBottom - s.cursorY + 1) * s.width)

/-- `putToken:` for the tokens that add their parameter to a coordinate. -/
def handleWith (t : Terminal) (tok : VT100TCC) (s : Screen) : Res Screen :=
  let p0 := tok.csi.p.cell 0
  let p1 := tok.csi.p.cell 1
  match tok.type with
  | .cuu => .ok (s.cursorUpWith wrap p0)
  | .cud => .ok (s.cursorDownWith wrap p0)
  | .cuf => .ok (s.cursorRightWith wrap p0)
  | .cub => .ok (s.cursorLeftWith wrap p0)
  | .cup => .ok (s.cursorToXYWith wrap t p1 p0)
  | .vpa => .ok (s.cursorToXYWith wrap t (s.cursorX + 1) p0)
  | .vpr => .ok (s.cursorToXYWith wrap t (s.cursorX + 1) (wrap (p0 + s.cursorY + 1)))
  | .insblnk => s.insertBlankWith wrap t p0
  | .delch => s.deleteCharactersWith wrap t p0
  | .ech => s.eraseCharactersWith wrap t p0
  | .insln => s.insertLinesWith wrap t p0
  | .delln => s.deleteLinesWith wrap t p0
  | _ => .ok s

end

/-- With the rounding of `int` they are the handlers of the source. -/
theorem handle_cint (htype : tok.type.addsParameter = true) :
    s.handleWith cint t tok = s.dispatch F t tok := by
  unfold handleWith dispatch
  simp only
  cases hcase : tok.type <;> rw [hcase] at htype <;> first | rfl | cases htype

/-! ## Sums that do not overflow -/

theorem clampCells_exact (h : s.Wf) (hn : 0 ≤ n) (hmax : n + s.cursorX < 2 ^ 31) :
    s.clampCellsWith id n = s.clampCells n := by
  have hx := h.column
  rw [clampCells, cint_of_isInt (n := n + s.cursorX) ⟨by omega, hmax⟩]
  rfl

theorem cells_exact (h : s.Wf) (t : Terminal) (hn : 0 ≤ n) (hmax : n + s.cursorX < 2 ^ 31) :
    s.insertBlankWith id t n = s.insertBlank t n ∧
      s.deleteCharactersWith id t n = s.deleteCharacters t n ∧
      s.eraseCharactersWith id t n = s.eraseCharacters t n := by
  have hclamp := clampCells_exact h hn hmax
  unfold insertBlankWith deleteCharactersWith eraseCharactersWith
  rw [hclamp]
  exact ⟨rfl, rfl, rfl⟩

theorem clearRows_exact (hH : s.height < 2 ^ 31) {line : Block ScreenChar} {y : Int} {m : Nat}
    (hm : m = 0 ∨ 0 ≤ y ∧ y + m ≤ s.height) :
    s.clearRowsWith id line y m = s.clearRows line y m := by
  refine forUp_congr (P := fun _ => True) (fun i s₁ hi hi' _ => ?_) (fun _ _ _ _ _ => trivial)
    trivial
  have hint : cint (y + i) = y + i := cint_of_isInt ⟨by omega, by omega⟩
  simp only [hint, id]

theorem moveRowsDown_exact (h : s.Wf) (hn : s.LinesFit n) :
    s.moveRowsDownWith id n = s.moveRowsDown n := by
  have hm := h.margins
  have hnum : s.numLinesMovedWith id n = s.numLinesMoved n := by
    rw [hn.numLinesMoved_eq h, numLinesMovedWith]
    simp only [id]
    omega
  have hloop := hn.numLinesMoved_eq h
  unfold moveRowsDownWith moveRowsDown
  rw [hn.cint_sum, hnum, hloop]
  obtain ⟨hy, hH, hpos, -⟩ := hn
  unfold OnScreen at hy
  simp only [id]
  split
  · refine forDown_congr (P := Draws s) (fun i s₁ hi hi' hd => ?_)
      (fun _ _ _ hd hs => hd.trans (copyLineAt_draws hs)) (.refl s)
    rw [hd.cursor_eq.2, cint_of_isInt (n := s.cursorY + i) ⟨by omega, by omega⟩,
      cint_of_isInt (n := s.cursorY + i + n) ⟨by omega, by omega⟩]
  · rfl

theorem moveRowsUp_exact (h : s.Wf) (hn : s.LinesFit n) :
    s.moveRowsUpWith id n = s.moveRowsUp n := by
  have hm := h.margins
  have hnum : s.numLinesMovedWith id n = s.numLinesMoved n := by
    rw [hn.numLinesMoved_eq h, numLinesMovedWith]
    simp only [id]
    omega
  have hloop := hn.numLinesMoved_eq h
  unfold moveRowsUpWith moveRowsUp
  rw [hn.cint_sum, hnum, hloop]
  obtain ⟨hy, hH, hpos, -⟩ := hn
  unfold OnScreen at hy
  simp only [id]
  split
  · refine forUp_congr (P := Draws s) (fun i s₁ hi hi' hd => ?_)
      (fun _ _ _ hd hs => hd.trans (copyLineAt_draws hs)) (.refl s)
    rw [hd.cursor_eq.2, cint_of_isInt (n := s.cursorY + i) ⟨by omega, by omega⟩,
      cint_of_isInt (n := s.cursorY + i + n) ⟨by omega, by omega⟩]
  · rfl

theorem clampLines_exact (hn : s.LinesFit n) : s.clampLinesWith id n = s.clampLines n := by
  rw [clampLines, hn.cint_sum]
  rfl

theorem lines_exact (h : s.Wf) (t : Terminal) (hn : s.LinesFit n) :
    s.insertLinesWith id t n = s.insertLines t n ∧
      s.deleteLinesWith id t n = s.deleteLines t n := by
  have hm := h.margins
  have hle := clampLines_le hn
  have hcases := clampLines_cases hn
  have hy := hn.1
  unfold OnScreen at hy
  constructor
  · unfold insertLinesWith insertLines
    rw [moveRowsDown_exact h hn]
    refine bind_congr_ok fun s₁ h₁ => ?_
    have hd := moveRowsDown_draws h₁
    have hline := hd.trans (getDefaultLine_draws t.foregroundColorCode t.backgroundColorCode
      s₁.width s₁)
    have hheight : (s₁.getDefaultLineWithWidth t s₁.width).1.height = s.height := hline.height_eq
    simp only [clampLines_exact (hn.draws hd)]
    rw [clearRows_exact (by rw [hheight]; exact hn.2.1)
      (by rw [hheight, hd.clampLines_eq, hd.cursor_eq.2]; omega)]
  · unfold deleteLinesWith deleteLines
    rw [moveRowsUp_exact h hn]
    refine bind_congr_ok fun s₁ h₁ => ?_
    have hd := moveRowsUp_draws h₁
    have hline := hd.trans (getDefaultLine_draws t.foregroundColorCode t.backgroundColorCode
      s₁.width s₁)
    have hheight : (s₁.getDefaultLineWithWidth t s₁.width).1.height = s.height := hline.height_eq
    simp only [clampLines_exact (hn.draws hd)]
    rw [clearRows_exact (by rw [hheight]; exact hn.2.1)
      (by rw [hheight, hd.clampLines_eq, hd.margins_eq.2]; omega)]

/-! ## Characters are moved and blanked inside the row -/

theorem insertBlank_total (h : s.Wf) (t : Terminal) (hy : s.OnScreen) (hn : 0 ≤ n)
    (hmax : n + s.cursorX < 2 ^ 31) : ∃ s', s.insertBlank t n = .ok s' := by
  have hx := h.column
  have hrw : s.realWidth = s.width + 1 := rfl
  have hm := clampCells_range h hn hmax
  obtain ⟨hi, hi'⟩ := h.cursorRow_range hy
  unfold insertBlank
  rw [if_neg (by omega), h.cursorLine hy, ok_bind]
  generalize s.clampCells n = m at hm ⊢
  obtain ⟨s₁, h₁⟩ := moveInRow_total h hi hi' (d := s.cursorX + m) (k := s.cursorX)
    (m := s.width - s.cursorX - m) (by omega) (by omega) (by omega) (by omega) (by omega)
  have hd₁ := moveCells_draws h₁
  obtain ⟨s₂, h₂⟩ := blankInRow_total (m := m.toNat) (hd₁.wf h) t hi
    (by rw [hd₁.totalHeight_eq]; exact hi') hx.1 (by rw [hd₁.realWidth_eq]; omega)
  have hd₂ := hd₁.trans (blankCells_draws h₂)
  obtain ⟨s₃, h₃, -⟩ := dirtyFill_spec true (s₂.cursorY * s₂.width + s₂.cursorX)
    (n := s₂.width - s₂.cursorX) (by rw [hd₂.width_eq, hd₂.cursor_eq.1]; omega) s₂
  rw [hd₁.rowLine_eq, hd₁.realWidth_eq] at h₂
  rw [← Int.add_assoc] at h₁
  refine ⟨s₃, bind_eq_ok.mpr ⟨s₁, h₁, bind_eq_ok.mpr ⟨s₂, ?_, h₃⟩⟩⟩
  rw [hd₁.cursor_eq.1]
  exact h₂

theorem deleteCharacters_total (h : s.Wf) (t : Terminal) (hy : s.OnScreen) (hn : 0 ≤ n)
    (hmax : n + s.cursorX < 2 ^ 31) : ∃ s', s.deleteCharacters t n = .ok s' := by
  have hx := h.column
  have hrw : s.realWidth = s.width + 1 := rfl
  have hm := clampCells_range h hn hmax
  obtain ⟨hi, hi'⟩ := h.cursorRow_range hy
  unfold deleteCharacters
  rw [if_pos ⟨hx.1, hx.2, hy⟩, h.cursorLine hy, ok_bind]
  generalize s.clampCells n = m at hm ⊢
  have hmove : ∃ s₁, (if m < s.width then
        s.moveCells (s.rowLine s.cursorRow * s.realWidth + s.cursorX)
          (s.rowLine s.cursorRow * s.realWidth + s.cursorX + m) (s.width - s.cursorX - m)
      else .ok s) = .ok s₁ ∧ Draws s s₁ := by
    split
    · obtain ⟨s₁, h₁⟩ := moveInRow_total h hi hi' (d := s.cursorX) (k := s.cursorX + m)
        (m := s.width - s.cursorX - m) (by omega) (by omega) (by omega) (by omega) (by omega)
      have hd₁ := moveCells_draws h₁
      rw [← Int.add_assoc] at h₁
      exact ⟨s₁, h₁, hd₁⟩
    · exact ⟨s, rfl, .refl s⟩
  obtain ⟨s₁, h₁, hd₁⟩ := hmove
  obtain ⟨s₂, h₂⟩ := blankInRow_total (m := m.toNat) (x := s.width - m) (hd₁.wf h) t hi
    (by rw [hd₁.totalHeight_eq]; exact hi') (by omega) (by rw [hd₁.realWidth_eq]; omega)
  have hd₂ := hd₁.trans (blankCells_draws h₂)
  obtain ⟨s₃, h₃, -⟩ := dirtyFill_spec true (s₂.cursorY * s₂.width + s₂.cursorX)
    (n := s₂.width - s₂.cursorX) (by rw [hd₂.width_eq, hd₂.cursor_eq.1]; omega) s₂
  rw [hd₁.rowLine_eq, hd₁.realWidth_eq] at h₂
  refine ⟨s₃, bind_eq_ok.mpr ⟨s₁, h₁, bind_eq_ok.mpr ⟨s₂, ?_, h₃⟩⟩⟩
  rw [hd₁.width_eq]
  exact h₂

theorem eraseCharacters_total (h : s.Wf) (t : Terminal) (hy : s.OnScreen) (hn : 0 ≤ n)
    (hmax : n + s.cursorX < 2 ^ 31) : ∃ s', s.eraseCharacters t n = .ok s' := by
  have hx := h.column
  have hrw : s.realWidth = s.width + 1 := rfl
  have hm := clampCells_range h hn hmax
  obtain ⟨hi, hi'⟩ := h.cursorRow_range hy
  unfold eraseCharacters
  rw [if_pos hx.2, h.cursorLine hy, ok_bind]
  generalize s.clampCells n = m at hm ⊢
  obtain ⟨s₁, h₁⟩ := blankInRow_total (m := m.toNat) h t hi hi' hx.1 (by omega)
  obtain ⟨s₂, h₂, -⟩ := dirtyFill_spec true (s₁.width * s₁.cursorY + s₁.cursorX) hm.1 s₁
  exact ⟨s₂, bind_eq_ok.mpr ⟨s₁, h₁, h₂⟩⟩

/-! ## When the two agree

A reader sees the cursor and the rows; a handler must also not write into other
rows than the visible ones. Handlers that go wrong either show it at once or
leave the buffer. -/

/-- The handler completes, as it does with unbounded integers, with the same
cursor and the same rows, and writes into visible rows only. -/
def MatchesExact (F : Foundation) (t : Terminal) (tok : VT100TCC) (s : Screen) : Prop :=
  ∃ s' s'', s.dispatch F t tok = .ok s' ∧ s.handleWith id t tok = .ok s'' ∧
    (s'.cursorX = s''.cursorX ∧ s'.cursorY = s''.cursorY) ∧ s'.rows = s''.rows ∧
    ChangesOnly (s.RowsBetween 0 (s.height - 1)) s s'

/-- No sum with the parameter overflows where it decides something. -/
def NoOverflow (t : Terminal) (tok : VT100TCC) (s : Screen) : Prop :=
  let p0 := tok.csi.p.cell 0
  match tok.type with
  | .cud => s.cursorY + atLeastOne p0 < 2 ^ 31
  | .cuf => s.cursorX + atLeastOne p0 < 2 ^ 31 ∨ s.cursorX = s.width - 1
  | .cup => t.originMode = true → p0 - 1 + s.scrollTop < 2 ^ 31
  | .vpa => t.originMode = true → p0 - 1 + s.scrollTop < 2 ^ 31
  | .vpr => p0 + s.cursorY + (if t.originMode then s.scrollTop else 0) < 2 ^ 31
  | .insblnk => p0 + s.cursorX < 2 ^ 31
  | .delch => p0 + s.cursorX < 2 ^ 31
  | .ech => p0 + s.cursorX < 2 ^ 31
  | .insln => p0 + s.cursorY < 2 ^ 31 ∧ s.cursorY ≤ s.scrollBottom + 1
  | .delln => p0 + s.cursorY < 2 ^ 31 ∧ s.cursorY ≤ s.scrollBottom + 1
  | _ => True

def Moved (s s' : Screen) : Prop :=
  ∃ x y d, s' = { s with cursorX := x, cursorY := y, dirty := d }

theorem Moved.ite {p : Prop} [Decidable p] {s'' : Screen} (h : Moved s s') (h' : Moved s s'') :
    Moved s (if p then s' else s'') := by
  split
  · exact h
  · exact h'

theorem Moved.touch (h : Moved s s') (i : Int) : Moved s (s'.touch i) := by
  obtain ⟨x, y, d, rfl⟩ := h
  exact ⟨x, y, d.set i, rfl⟩

section

variable (wrap : Int → Int)

theorem cursorLeftWith_moved (n : Int) (s : Screen) : Moved s (s.cursorLeftWith wrap n) :=
  (Moved.ite ⟨_, _, _, rfl⟩ ⟨_, _, _, rfl⟩).touch _

theorem cursorRightWith_moved (n : Int) (s : Screen) : Moved s (s.cursorRightWith wrap n) :=
  (Moved.ite ⟨_, _, _, rfl⟩ ⟨_, _, _, rfl⟩).touch _

theorem cursorUpWith_moved (n : Int) (s : Screen) : Moved s (s.cursorUpWith wrap n) :=
  .ite (.touch ⟨_, _, _, rfl⟩ _) ⟨_, _, _, rfl⟩

theorem cursorDownWith_moved (n : Int) (s : Screen) : Moved s (s.cursorDownWith wrap n) :=
  .ite (.touch ⟨_, _, _, rfl⟩ _) ⟨_, _, _, rfl⟩

theorem cursorToXYWith_moved (t : Terminal) (x y : Int) (s : Screen) :
    Moved s (s.cursorToXYWith wrap t x y) :=
  .touch ⟨_, _, _, rfl⟩ _

end

/-- A handler that only moves the cursor matches when the positions do. -/
theorem matchesExact_moved {f : (Int → Int) → Screen} (htype : tok.type.addsParameter = true)
    (hf : ∀ wrap, s.handleWith wrap t tok = .ok (f wrap)) (hmoved : ∀ wrap, Moved s (f wrap)) :
    MatchesExact F t tok s ↔
      (f cint).cursorX = (f id).cursorX ∧ (f cint).cursorY = (f id).cursorY := by
  have hdispatch : s.dispatch F t tok = .ok (f cint) := (handle_cint htype).symm.trans (hf cint)
  constructor
  · rintro ⟨s₁, s₂, h₁, h₂, hcursor, -, -⟩
    obtain rfl := Except.ok.inj (hdispatch.symm.trans h₁)
    obtain rfl := Except.ok.inj ((hf id).symm.trans h₂)
    exact hcursor
  · intro hcursor
    refine ⟨_, _, hdispatch, hf id, hcursor, ?_, ?_⟩
    · obtain ⟨x, y, d, h₁⟩ := hmoved cint
      obtain ⟨x', y', d', h₂⟩ := hmoved id
      rw [h₁, h₂]
      rfl
    · obtain ⟨x, y, d, h₁⟩ := hmoved cint
      rw [h₁]
      exact ⟨⟨rfl, rfl, rfl, rfl, rfl, rfl, rfl⟩, fun _ _ _ _ _ _ _ => rfl⟩

theorem cursorUp_exact (hH : IsInt s.height) (hy : s.OnScreen) (hn : IsInt n) :
    s.cursorUpWith cint n = s.cursorUpWith id n := by
  unfold IsInt at *
  unfold OnScreen at hy
  have hint : cint (s.cursorY - atLeastOne n) = s.cursorY - atLeastOne n := by
    refine cint_of_isInt ?_
    unfold IsInt atLeastOne
    split <;> omega
  simp only [cursorUpWith, hint, id]

theorem cursorLeft_exact (h : s.Wf) (hW : IsInt s.width) (hn : IsInt n) :
    s.cursorLeftWith cint n = s.cursorLeftWith id n := by
  have hx := h.column
  unfold IsInt at *
  have hint : cint (s.cursorX - atLeastOne n) = s.cursorX - atLeastOne n := by
    refine cint_of_isInt ?_
    unfold IsInt atLeastOne
    split <;> omega
  simp only [cursorLeftWith, hint, id]

theorem cursorDown_exact_iff (h : s.Wf) (hH : IsInt s.height) (hy : s.OnScreen) (hn : IsInt n) :
    ((s.cursorDownWith cint n).cursorX = (s.cursorDownWith id n).cursorX ∧
      (s.cursorDownWith cint n).cursorY = (s.cursorDownWith id n).cursorY) ↔
      s.cursorY + atLeastOne n < 2 ^ 31 := by
  have hm := h.margins
  have hx := h.column
  have hone := atLeastOne_range hn
  unfold IsInt OnScreen at *
  have hcolumn : ∀ wrap : Int → Int, (s.cursorDownWith wrap n).cursorX = s.cursorX := by
    intro wrap
    simp only [cursorDownWith, if_pos hx.2]
    rfl
  have hrow : ∀ wrap : Int → Int, (s.cursorDownWith wrap n).cursorY =
      if s.cursorY ≤ s.scrollBottom then
        (if wrap (s.cursorY + atLeastOne n) > s.scrollBottom then s.scrollBottom
          else wrap (s.cursorY + atLeastOne n))
      else wrap (s.cursorY + atLeastOne n) := by
    intro wrap
    simp only [cursorDownWith, if_pos hx.2]
    rfl
  rw [hcolumn, hcolumn, hrow, hrow]
  simp only [true_and, id]
  constructor
  · intro heq
    by_contra hover
    have hwrap : cint (s.cursorY + atLeastOne n) = s.cursorY + atLeastOne n - 2 ^ 32 := by
      unfold cint
      omega
    rw [hwrap] at heq
    split at heq <;> omega
  · intro hsmall
    rw [cint_of_isInt (n := s.cursorY + atLeastOne n) ⟨by omega, hsmall⟩]

theorem cursorRight_exact_iff (h : s.Wf) (hW : IsInt s.width) (hn : IsInt n) :
    ((s.cursorRightWith cint n).cursorX = (s.cursorRightWith id n).cursorX ∧
      (s.cursorRightWith cint n).cursorY = (s.cursorRightWith id n).cursorY) ↔
      s.cursorX + atLeastOne n < 2 ^ 31 ∨ s.cursorX = s.width - 1 := by
  have hx := h.column
  have hone := atLeastOne_range hn
  unfold IsInt at *
  have hrow : ∀ wrap : Int → Int, (s.cursorRightWith wrap n).cursorY = s.cursorY := by
    intro wrap
    simp only [cursorRightWith, touch]
    split <;> split <;> rfl
  have hcolumn : ∀ wrap : Int → Int, (s.cursorRightWith wrap n).cursorX =
      if wrap (s.cursorX + atLeastOne n) ≥ s.width then s.width - 1
      else if 0 ≤ wrap (s.cursorX + atLeastOne n) then wrap (s.cursorX + atLeastOne n)
      else s.cursorX := by
    intro wrap
    simp only [cursorRightWith, touch]
    by_cases hlast : wrap (s.cursorX + atLeastOne n) ≥ s.width
    · rw [if_pos hlast, if_pos hlast, if_pos (by omega)]
    · rw [if_neg hlast, if_neg hlast]
      by_cases h0 : 0 ≤ wrap (s.cursorX + atLeastOne n)
      · rw [if_pos h0, if_pos (by omega)]
      · rw [if_neg h0, if_neg (by omega)]
  rw [hcolumn, hcolumn, hrow, hrow]
  simp only [and_true, id]
  by_cases hsmall : s.cursorX + atLeastOne n < 2 ^ 31
  · rw [cint_of_isInt (n := s.cursorX + atLeastOne n) ⟨by omega, hsmall⟩]
    simp only [hsmall, true_or]
  · -- the wrapped sum is negative, and the cursor stays where it is
    have hwrap : cint (s.cursorX + atLeastOne n) = s.cursorX + atLeastOne n - 2 ^ 32 := by
      unfold cint
      omega
    rw [hwrap, if_neg (by omega), if_neg (by omega), if_pos (by omega)]
    omega

theorem cursorToXYWith_position (wrap : Int → Int) (t : Terminal) (x y : Int) (s : Screen) :
    (s.cursorToXYWith wrap t x y).cursorX = clampPos (wrap (x - 1)) s.width ∧
      (s.cursorToXYWith wrap t x y).cursorY = clampPos
        (if t.originMode then wrap (wrap (y - 1) + s.scrollTop) else wrap (y - 1)) s.height :=
  ⟨rfl, rfl⟩

/-- A row that overflows goes to the first row instead of the last one. -/
theorem clampPos_overflow_iff {a : Int} (hH : 1 < s.height) (h0 : -1 ≤ a)
    (ha : a < 2 ^ 32) (hheight : s.height ≤ 2 ^ 31) :
    clampPos (cint a) s.height = clampPos a s.height ↔ a < 2 ^ 31 := by
  constructor
  · intro heq
    by_contra hover
    have hwrap : cint a = a - 2 ^ 32 := by
      unfold cint
      omega
    rw [hwrap, clampPos, clampPos, if_pos (by omega), if_neg (by omega), if_pos (by omega)] at heq
    omega
  · intro hsmall
    rw [cint_of_isInt ⟨by omega, hsmall⟩]

theorem cursorToXY_exact_iff (h : s.Wf) (hfits : s.BufferFits) {x y : Int} (hx : 0 ≤ x)
    (hx' : x < 2 ^ 31) (hy : 0 ≤ y) (hy' : y < 2 ^ 31) :
    ((s.cursorToXYWith cint t x y).cursorX = (s.cursorToXYWith id t x y).cursorX ∧
      (s.cursorToXYWith cint t x y).cursorY = (s.cursorToXYWith id t x y).cursorY) ↔
      (t.originMode = true → y - 1 + s.scrollTop < 2 ^ 31) := by
  have hm := h.margins
  have hlt := h.height_lt_total
  have hrange := h.fits_range hfits
  obtain ⟨hcolumn, hrow⟩ := cursorToXYWith_position cint t x y s
  obtain ⟨hcolumn', hrow'⟩ := cursorToXYWith_position id t x y s
  rw [hcolumn, hcolumn', hrow, hrow', cint_of_isInt (n := x - 1) ⟨by omega, by omega⟩,
    cint_of_isInt (n := y - 1) ⟨by omega, by omega⟩]
  simp only [id, true_and]
  cases horigin : t.originMode with
  | false => simp
  | true =>
      simp only [if_true, forall_const]
      by_cases hone : s.height = 1
      · -- there is only one row, and nothing to overflow
        rw [cint_of_isInt (n := y - 1 + s.scrollTop) ⟨by omega, by omega⟩]
        simp only [true_iff]
        omega
      · exact clampPos_overflow_iff (by have := h.height_pos; omega) (by omega) (by omega)
          (by omega)

theorem cint_cint_add (a b : Int) : cint (cint a + b) = cint (a + b) := by
  unfold cint
  omega

/-- VPR overflows at three places, which add up to one. -/
theorem verticalRelative_exact_iff (h : s.Wf) (hfits : s.BufferFits) (hy : s.OnScreen) {p : Int}
    (hp : 0 ≤ p) (hp' : p < 2 ^ 31) :
    ((s.cursorToXYWith cint t (s.cursorX + 1) (cint (p + s.cursorY + 1))).cursorX =
        (s.cursorToXYWith id t (s.cursorX + 1) (id (p + s.cursorY + 1))).cursorX ∧
      (s.cursorToXYWith cint t (s.cursorX + 1) (cint (p + s.cursorY + 1))).cursorY =
        (s.cursorToXYWith id t (s.cursorX + 1) (id (p + s.cursorY + 1))).cursorY) ↔
      p + s.cursorY + (if t.originMode then s.scrollTop else 0) < 2 ^ 31 := by
  have hm := h.margins
  have hx := h.column
  have hlt := h.height_lt_total
  have hpos := h.height_pos
  have hrange := h.fits_range hfits
  have hrw : s.realWidth = s.width + 1 := rfl
  unfold OnScreen at hy
  obtain ⟨hcolumn, hrow⟩ :=
    cursorToXYWith_position cint t (s.cursorX + 1) (cint (p + s.cursorY + 1)) s
  obtain ⟨hcolumn', hrow'⟩ :=
    cursorToXYWith_position id t (s.cursorX + 1) (id (p + s.cursorY + 1)) s
  have hsum : cint (cint (p + s.cursorY + 1) - 1) = cint (p + s.cursorY) := by
    rw [Int.sub_eq_add_neg, cint_cint_add]
    congr 1
    omega
  rw [hcolumn, hcolumn', hrow, hrow', cint_of_isInt (n := s.cursorX + 1 - 1) ⟨by omega, by omega⟩,
    hsum, cint_cint_add]
  simp only [id, true_and, Int.add_sub_cancel]
  by_cases hone : s.height = 1
  · have hzero : s.cursorY = 0 ∧ s.scrollTop = 0 := by omega
    rw [hzero.1, hzero.2]
    simp only [Int.add_zero, ite_self, cint_of_isInt (n := p) ⟨by omega, hp'⟩, true_iff]
    exact hp'
  · cases horigin : t.originMode with
    | false =>
        simp only [Bool.false_eq_true, if_false, Int.add_zero]
        exact clampPos_overflow_iff (by omega) (by omega) (by omega) (by omega)
    | true =>
        simp only [if_true]
        exact clampPos_overflow_iff (by omega) (by omega) (by omega) (by omega)

/-- A handler that writes cells matches when it is the exact one and completes. -/
theorem matchesExact_drawn {p : Prop} {r : Res Screen} (hdispatch : s.dispatch F t tok = r)
    (hexact : p → s.handleWith id t tok = r)
    (htotal : p → ∃ s', r = .ok s' ∧ ChangesOnly (s.RowsBetween 0 (s.height - 1)) s s')
    (honly : ∀ s', r = .ok s' → p) : MatchesExact F t tok s ↔ p := by
  constructor
  · rintro ⟨s₁, s₂, h₁, -⟩
    exact honly s₁ (hdispatch.symm.trans h₁)
  · intro hp
    obtain ⟨s', hok, hc⟩ := htotal hp
    exact ⟨s', s', hdispatch.trans hok, (hexact hp).trans hok, ⟨rfl, rfl⟩, rfl, hc⟩

theorem cursorRow_visible (hy : s.OnScreen) {i : Int} (hi : i = s.cursorRow) :
    s.RowsBetween 0 (s.height - 1) i := by
  unfold OnScreen at hy
  unfold cursorRow at hi
  unfold RowsBetween
  omega

theorem region_visible (h : s.Wf) (hy : s.OnScreen) {i : Int}
    (hi : s.RowsBetween s.cursorY s.scrollBottom i) : s.RowsBetween 0 (s.height - 1) i := by
  have hm := h.margins
  unfold OnScreen at hy
  unfold RowsBetween at *
  omega

/-- In a region that ends above the row of the cursor, lines are inserted and
deleted without a fault only right below it. -/
theorem lines_complete_iff (h : s.Wf) (t : Terminal) (hn : s.LinesFit n) :
    ((∃ s', s.insertLines t n = .ok s') ↔ s.cursorY ≤ s.scrollBottom + 1) ∧
      ((∃ s', s.deleteLines t n = .ok s') ↔ s.cursorY ≤ s.scrollBottom + 1) := by
  rcases Int.lt_or_le s.scrollBottom s.cursorY with hlt | hle
  · obtain ⟨hinsert, hdelete⟩ := lines_below t hn hlt
    have hbelow := dirtyBelow_iff h t hlt
    rw [hinsert, hdelete]
    have hw := h.width_pos
    have hfill : (∃ s', (s.getDefaultLineWithWidth t s.width).1.dirtyFill true
        (s.cursorY * s.width) ((s.scrollBottom - s.cursorY + 1) * s.width) = .ok s') ↔
        s.cursorY ≤ s.scrollBottom + 1 := by
      constructor
      · rintro ⟨s', hok⟩
        by_contra hne
        rw [dirtyFill_negative (Int.mul_neg_of_neg_of_pos (by omega) (by omega))] at hok
        cases hok
      · intro hle
        obtain ⟨s', hok, -⟩ := hbelow.mpr (by omega)
        exact ⟨s', hok⟩
    exact ⟨hfill, hfill⟩
  · obtain ⟨s₁, h₁, -⟩ := insertLines_cells h t hn hle
    obtain ⟨s₂, h₂, -⟩ := deleteLines_cells h t hn hle
    exact ⟨⟨fun _ => by omega, fun _ => ⟨s₁, h₁⟩⟩, ⟨fun _ => by omega, fun _ => ⟨s₂, h₂⟩⟩⟩

theorem matchesExact_relative (h : s.Wf) (hW : IsInt s.width) (hH : IsInt s.height)
    (hy : s.OnScreen) (hn : IsInt (tok.csi.p.cell 0))
    (htype : tok.type = .cuu ∨ tok.type = .cud ∨ tok.type = .cuf ∨ tok.type = .cub) :
    MatchesExact F t tok s ↔ NoOverflow t tok s := by
  rcases htype with hcase | hcase | hcase | hcase
  · rw [matchesExact_moved (f := fun wrap => s.cursorUpWith wrap (tok.csi.p.cell 0))
      (by rw [hcase]; rfl) (fun _ => by simp only [handleWith, hcase])
      (fun _ => cursorUpWith_moved ..), cursorUp_exact hH hy hn]
    simp only [NoOverflow, hcase, and_self]
  · rw [matchesExact_moved (f := fun wrap => s.cursorDownWith wrap (tok.csi.p.cell 0))
      (by rw [hcase]; rfl) (fun _ => by simp only [handleWith, hcase])
      (fun _ => cursorDownWith_moved ..), cursorDown_exact_iff h hH hy hn]
    simp only [NoOverflow, hcase]
  · rw [matchesExact_moved (f := fun wrap => s.cursorRightWith wrap (tok.csi.p.cell 0))
      (by rw [hcase]; rfl) (fun _ => by simp only [handleWith, hcase])
      (fun _ => cursorRightWith_moved ..), cursorRight_exact_iff h hW hn]
    simp only [NoOverflow, hcase]
  · rw [matchesExact_moved (f := fun wrap => s.cursorLeftWith wrap (tok.csi.p.cell 0))
      (by rw [hcase]; rfl) (fun _ => by simp only [handleWith, hcase])
      (fun _ => cursorLeftWith_moved ..), cursorLeft_exact h hW hn]
    simp only [NoOverflow, hcase, and_self]

theorem matchesExact_absolute (h : s.Wf) (hfits : s.BufferFits) (hy : s.OnScreen)
    (hp0 : 0 ≤ tok.csi.p.cell 0 ∧ tok.csi.p.cell 0 < 2 ^ 31)
    (hp1 : tok.type = .cup → 0 ≤ tok.csi.p.cell 1 ∧ tok.csi.p.cell 1 < 2 ^ 31)
    (htype : tok.type = .cup ∨ tok.type = .vpa ∨ tok.type = .vpr) :
    MatchesExact F t tok s ↔ NoOverflow t tok s := by
  have hx := h.column
  have hrange := h.fits_range hfits
  have hrw : s.realWidth = s.width + 1 := rfl
  rcases htype with hcase | hcase | hcase
  · rw [matchesExact_moved
      (f := fun wrap => s.cursorToXYWith wrap t (tok.csi.p.cell 1) (tok.csi.p.cell 0))
      (by rw [hcase]; rfl) (fun _ => by simp only [handleWith, hcase])
      (fun _ => cursorToXYWith_moved ..),
      cursorToXY_exact_iff h hfits (hp1 hcase).1 (hp1 hcase).2 hp0.1 hp0.2]
    simp only [NoOverflow, hcase]
  · rw [matchesExact_moved
      (f := fun wrap => s.cursorToXYWith wrap t (s.cursorX + 1) (tok.csi.p.cell 0))
      (by rw [hcase]; rfl) (fun _ => by simp only [handleWith, hcase])
      (fun _ => cursorToXYWith_moved ..),
      cursorToXY_exact_iff h hfits (by omega) (by omega) hp0.1 hp0.2]
    simp only [NoOverflow, hcase]
  · rw [matchesExact_moved (f := fun wrap => s.cursorToXYWith wrap t (s.cursorX + 1)
        (wrap (tok.csi.p.cell 0 + s.cursorY + 1)))
      (by rw [hcase]; rfl) (fun _ => by simp only [handleWith, hcase])
      (fun _ => cursorToXYWith_moved ..), verticalRelative_exact_iff h hfits hy hp0.1 hp0.2]
    simp only [NoOverflow, hcase]

theorem matchesExact_cells (h : s.Wf) (hfits : s.BufferFits) (hy : s.OnScreen)
    (hp0 : 0 ≤ tok.csi.p.cell 0 ∧ tok.csi.p.cell 0 < 2 ^ 31)
    (htype : tok.type = .insblnk ∨ tok.type = .delch ∨ tok.type = .ech) :
    MatchesExact F t tok s ↔ NoOverflow t tok s := by
  have hn : IsInt (tok.csi.p.cell 0) := ⟨by omega, hp0.2⟩
  have hrow : ∀ s', ChangesOnly (· = s.cursorRow) s s' →
      ChangesOnly (s.RowsBetween 0 (s.height - 1)) s s' :=
    fun s' hc => hc.mono fun i hi => cursorRow_visible hy hi
  rcases htype with hcase | hcase | hcase
  · simp only [NoOverflow, hcase]
    refine matchesExact_drawn (r := s.insertBlank t (tok.csi.p.cell 0))
      (by simp only [dispatch, hcase]) (fun hsmall => ?_) (fun hsmall => ?_)
      fun s' hok => insertBlank_small h hy hfits hn hok
    · simp only [handleWith, hcase]
      exact (cells_exact h t hp0.1 hsmall).1
    · obtain ⟨s', hok⟩ := insertBlank_total h t hy hp0.1 hsmall
      exact ⟨s', hok, hrow s' (insertBlank_changes h hy hp0.1 hsmall hok)⟩
  · simp only [NoOverflow, hcase]
    refine matchesExact_drawn (r := s.deleteCharacters t (tok.csi.p.cell 0))
      (by simp only [dispatch, hcase]) (fun hsmall => ?_) (fun hsmall => ?_)
      fun s' hok => deleteCharacters_small h hy hfits hn hok
    · simp only [handleWith, hcase]
      exact (cells_exact h t hp0.1 hsmall).2.1
    · obtain ⟨s', hok⟩ := deleteCharacters_total h t hy hp0.1 hsmall
      exact ⟨s', hok, hrow s' (deleteCharacters_changes h hp0.1 hsmall hok)⟩
  · simp only [NoOverflow, hcase]
    refine matchesExact_drawn (r := s.eraseCharacters t (tok.csi.p.cell 0))
      (by simp only [dispatch, hcase]) (fun hsmall => ?_) (fun hsmall => ?_)
      fun s' hok => eraseCharacters_small h hy hfits hn hok
    · simp only [handleWith, hcase]
      exact (cells_exact h t hp0.1 hsmall).2.2
    · obtain ⟨s', hok⟩ := eraseCharacters_total h t hy hp0.1 hsmall
      exact ⟨s', hok, hrow s' (eraseCharacters_changes h hy hp0.1 hsmall hok)⟩

theorem matchesExact_lines (h : s.Wf) (hH : IsInt s.height) (hfits : s.BufferFits)
    (hy : s.OnScreen) (hp0 : 0 ≤ tok.csi.p.cell 0 ∧ tok.csi.p.cell 0 < 2 ^ 31)
    (htype : tok.type = .insln ∨ tok.type = .delln) :
    MatchesExact F t tok s ↔ NoOverflow t tok s := by
  have hn : IsInt (tok.csi.p.cell 0) := ⟨by omega, hp0.2⟩
  have hfit : tok.csi.p.cell 0 + s.cursorY < 2 ^ 31 → s.LinesFit (tok.csi.p.cell 0) :=
    fun hsmall => ⟨hy, hH.2, hp0.1, by omega⟩
  have hrows : ∀ s', ChangesOnly (s.RowsBetween s.cursorY s.scrollBottom) s s' →
      ChangesOnly (s.RowsBetween 0 (s.height - 1)) s s' :=
    fun s' hc => hc.mono fun i hi => region_visible h hy hi
  rcases htype with hcase | hcase
  · simp only [NoOverflow, hcase]
    refine matchesExact_drawn (r := s.insertLines t (tok.csi.p.cell 0))
      (by simp only [dispatch, hcase]) (fun hsmall => ?_) (fun hsmall => ?_) fun s' hok => ?_
    · simp only [handleWith, hcase]
      exact (lines_exact h t (hfit hsmall.1)).1
    · obtain ⟨s', hok⟩ := (lines_complete_iff h t (hfit hsmall.1)).1.mpr hsmall.2
      exact ⟨s', hok, hrows s' (insertLines_changes h (hfit hsmall.1) hok)⟩
    · have hsmall := insertLines_small h hy hfits hn hok
      rw [Int.add_comm] at hsmall
      exact ⟨hsmall, (lines_complete_iff h t (hfit hsmall)).1.mp ⟨s', hok⟩⟩
  · simp only [NoOverflow, hcase]
    refine matchesExact_drawn (r := s.deleteLines t (tok.csi.p.cell 0))
      (by simp only [dispatch, hcase]) (fun hsmall => ?_) (fun hsmall => ?_) fun s' hok => ?_
    · simp only [handleWith, hcase]
      exact (lines_exact h t (hfit hsmall.1)).2
    · obtain ⟨s', hok⟩ := (lines_complete_iff h t (hfit hsmall.1)).2.mpr hsmall.2
      exact ⟨s', hok, hrows s' (deleteLines_changes h (hfit hsmall.1) hok)⟩
    · have hsmall := deleteLines_small h hy hfits hn hok
      rw [Int.add_comm] at hsmall
      exact ⟨hsmall, (lines_complete_iff h t (hfit hsmall)).2.mp ⟨s', hok⟩⟩

/-- Large parameters behave like large numbers exactly where no sum overflows: the handler of
the source completes, moves the cursor and changes the rows as the handler with unbounded
integers does, and writes into visible rows only. Parameters range over all values of an
`int` that are not negative. -/
theorem large_parameters_iff {c : VT100.Config} (hr : VT100.Reachable F c)
    (hfits : c.2.screen.BufferFits) (hy : c.2.screen.OnScreen)
    (htype : tok.type.addsParameter = true)
    (hp0 : 0 ≤ tok.csi.p.cell 0 ∧ tok.csi.p.cell 0 < 2 ^ 31)
    (hp1 : tok.type = .cup → 0 ≤ tok.csi.p.cell 1 ∧ tok.csi.p.cell 1 < 2 ^ 31) :
    MatchesExact F c.2.terminal tok c.2.screen ↔ NoOverflow c.2.terminal tok c.2.screen := by
  have h := (VT100.reachable_wf hr).screen
  obtain ⟨hW, hH⟩ := VT100.reachable_intSize hr
  have hn : IsInt (tok.csi.p.cell 0) := ⟨by omega, hp0.2⟩
  have hkinds : (tok.type = .cuu ∨ tok.type = .cud ∨ tok.type = .cuf ∨ tok.type = .cub) ∨
      (tok.type = .cup ∨ tok.type = .vpa ∨ tok.type = .vpr) ∨
      (tok.type = .insblnk ∨ tok.type = .delch ∨ tok.type = .ech) ∨
      (tok.type = .insln ∨ tok.type = .delln) := by
    cases hcase : tok.type <;> rw [hcase] at htype <;> first | (cases htype; done) | simp
  rcases hkinds with hkind | hkind | hkind | hkind
  · exact matchesExact_relative h hW hH hy hn hkind
  · exact matchesExact_absolute h hfits hy hp0 hp1 hkind
  · exact matchesExact_cells h hfits hy hp0 hkind
  · exact matchesExact_lines h hH hfits hy hp0 hkind

/-- `ESC [ 2 1 4 7 4 8 3 6 4 7 B` -/
def farDownBytes : List UInt8 :=
  [0x1b, 0x5b, 0x32, 0x31, 0x34, 0x37, 0x34, 0x38, 0x33, 0x36, 0x34, 0x37, 0x42]

theorem farDown_token : ∃ tok : VT100TCC,
    (∀ t s, decodeControl t farDownBytes s = .ok (tok, 13, s)) ∧ tok.type = .cud ∧
      tok.csi.p.cell 0 = 2147483647 := by
  refine ⟨_, fun _ _ => rfl, rfl, ?_⟩
  simp [CSIParam.addNumber, cint, Block.set, csiParamMax, CSIParam.zero]

theorem Fresh.bufferFits (hs : s.Fresh kDefaultWidth.toNat kDefaultHeight.toNat) :
    s.BufferFits := by
  unfold BufferFits bufferCells totalHeight realWidth
  rw [hs.width_eq, hs.height_eq, hs.max_eq]
  decide

/-- From the first row of a new screen the parameter overflows nothing. -/
theorem init_farDown : ∃ v tok, VT100.init ⟨0, 0, 0⟩ = .ok v ∧
    decodeControl v.terminal farDownBytes v.screen = .ok (tok, 13, v.screen) ∧
    MatchesExact Foundation.latin1 v.terminal tok v.screen := by
  obtain ⟨v, hv, -, hs⟩ := VT100.init_fresh ⟨0, 0, 0⟩
  obtain ⟨tok, hdecode, htype, hp0⟩ := farDown_token
  have hr : VT100.Reachable Foundation.latin1 (.idle, v) := VT100.init_reachable hv
  have hy : v.screen.OnScreen := by
    unfold OnScreen
    rw [hs.cursor.2, hs.height_eq]
    decide
  refine ⟨v, tok, hv, hdecode _ _, (large_parameters_iff hr hs.bufferFits hy (by rw [htype]; rfl)
    (by rw [hp0]; decide) (by rw [htype]; nofun)).mpr ?_⟩
  simp only [NoOverflow, htype, hp0, hs.cursor.2]
  decide

/-- From the last row the same parameter overflows. The sum is negative, passes the comparison
with the bottom margin, and the cursor goes far above the screen. -/
theorem lastRow_farDown : ∃ v v₁ tok s', VT100.init ⟨0, 0, 0⟩ = .ok v ∧
    v.readInputStream Foundation.latin1 VT100.lastRowBytes = .ok v₁ ∧ v₁.screen.OnScreen ∧
    decodeControl v₁.terminal farDownBytes v₁.screen = .ok (tok, 13, v₁.screen) ∧
    v₁.screen.dispatch Foundation.latin1 v₁.terminal tok = .ok s' ∧
    s'.cursorY = -2147483625 ∧ ¬MatchesExact Foundation.latin1 v₁.terminal tok v₁.screen := by
  obtain ⟨v, hv, ht, hs⟩ := VT100.init_fresh ⟨0, 0, 0⟩
  obtain ⟨tok, hdecode, htype, hp0⟩ := farDown_token
  obtain ⟨v₁, h₁, hd₁, -, hwf₁, -⟩ := VT100.readInputStream_lastRow (F := Foundation.latin1)
    (VT100.init_wf hv) (by rw [ht]; rfl) hs.height_eq (by rw [ht]; rfl)
  have hy : v₁.screen.cursorY = 24 := hd₁.cursor_eq.2
  have hheight : v₁.screen.height = 25 := hd₁.height_eq.trans hs.height_eq
  have hbottom : v₁.screen.scrollBottom = 24 := by
    refine hd₁.margins_eq.2.trans (hs.margins.2.trans ?_)
    rw [hs.height_eq]
    rfl
  have hx := hwf₁.screen.column
  have hrow : ∀ wrap : Int → Int, (v₁.screen.cursorDownWith wrap 2147483647).cursorY =
      if wrap 2147483671 > 24 then 24 else wrap 2147483671 := by
    intro wrap
    simp only [cursorDownWith, if_pos hx.2, hy, hbottom]
    rfl
  have hcode : v₁.screen.dispatch Foundation.latin1 v₁.terminal tok =
      .ok (v₁.screen.cursorDownWith cint 2147483647) := by
    simp only [dispatch, htype, hp0]
    rfl
  have hwrap : cint 2147483671 = -2147483625 := by decide
  refine ⟨v, v₁, tok, _, hv, h₁, ⟨by omega, by omega⟩, hdecode _ _, hcode, ?_, ?_⟩
  · rw [hrow, hwrap]
    rfl
  · rintro ⟨s₁, s₂, h₁, h₂, hcursor, -⟩
    obtain rfl := Except.ok.inj (hcode.symm.trans h₁)
    simp only [handleWith, htype, hp0, Except.ok.injEq] at h₂
    rw [← h₂, hrow, hrow, hwrap] at hcursor
    exact absurd hcursor.2 (by decide)

end Screen

end MobileTerminal
