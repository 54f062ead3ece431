import MobileTerminal.Lines
import MobileTerminal.Margins
import MobileTerminal.TokenParams
import MobileTerminal.Sequence

/-!
# The row of the cursor

Every handler keeps the cursor on the screen but two. `cursorUp:` stops at
`SCROLL_TOP` only when it starts at or below it: above the margins nothing holds
the cursor back, and it leaves the screen at the top. `cursorDown:` is the same
below the margins, and inside them a parameter near 2^31 makes the sum wrap
around to a negative row. The same wrap-around lets `insertLines:` and
`deleteLines:` compute rows that do not exist.

`RowGuard` excludes exactly these steps. It is a condition on the state before a
token and on the parameter of the token, written with the very comparisons of
the code (`upRow`, `downRow`), so it says of a given run where it goes wrong and
not only that it might. In the runs that keep to it the row and the saved row
stay on the screen, and no assertion about rows is tripped (`cursor_row_stays`).

The invariant of such runs is `RowInv`: the state is well-formed, both rows are
on the screen, and a token that is about to be executed has the parameters
`getNextToken` delivers. A handler enters it with one lemma, `.._onScreen`; most
of them follow from the frame of the handler, as a handler that leaves the row
alone cannot lose it. Resizing needs an argument of its own, as
`resizeWidth:height:` computes the row anew from the rows it has copied.
-/

namespace MobileTerminal

variable {F : Foundation} {t : Terminal}

namespace Screen

variable {s s' : Screen}

/-- Cursor and saved cursor are in rows of the screen. The saved one matters as `DECRC` makes
it the row of the cursor without looking at it. -/
structure RowOk (s : Screen) : Prop where
  row : s.OnScreen
  saved : 0 ≤ s.saveCursorY ∧ s.saveCursorY < s.height
  height_lt : s.height < 2 ^ 31

/-- The tokens that would take the row out of the screen are not among those
executed. -/
def RowGuard (s : Screen) (tok : VT100TCC) : Prop :=
  match tok.type with
  | .cuu => s.scrollTop ≤ s.cursorY ∨ atLeastOne (tok.csi.p.cell 0) ≤ s.cursorY
  | .cud => s.cursorY ≤ s.scrollBottom ∧ s.cursorY + atLeastOne (tok.csi.p.cell 0) < 2 ^ 31 ∨
      s.cursorY + atLeastOne (tok.csi.p.cell 0) < s.height
  | .insln => s.cursorY + tok.csi.p.cell 0 < 2 ^ 31
  | .delln => s.cursorY + tok.csi.p.cell 0 < 2 ^ 31
  | _ => True

theorem RowOk.of_keeps (h : s.RowOk) (hk : Keeps s s') (hy : s'.OnScreen) : s'.RowOk := by
  have hsaved := h.saved
  have hlt := h.height_lt
  refine ⟨hy, ?_, ?_⟩
  · rw [hk.saved_eq.2.1, hk.height_eq]
    exact hsaved
  · rw [hk.height_eq]
    exact hlt

theorem RowOk.draws (h : s.RowOk) (hd : Draws s s') : s'.RowOk :=
  h.of_keeps hd.keeps (hd.onScreen h.row)

/-! ## Handlers -/

theorem atLeastOne_range {n : Int} (h : IsInt n) : 1 ≤ atLeastOne n ∧ atLeastOne n < 2 ^ 31 := by
  unfold IsInt at h
  unfold atLeastOne
  split <;> omega

/-- The row `cursorUp:` moves to. -/
def upRow (n : Int) (s : Screen) : Int :=
  if s.cursorY ≥ s.scrollTop then
    (if cint (s.cursorY - atLeastOne n) < s.scrollTop then s.scrollTop
      else cint (s.cursorY - atLeastOne n))
  else cint (s.cursorY - atLeastOne n)

def downRow (n : Int) (s : Screen) : Int :=
  if s.cursorY ≤ s.scrollBottom then
    (if cint (s.cursorY + atLeastOne n) > s.scrollBottom then s.scrollBottom
      else cint (s.cursorY + atLeastOne n))
  else cint (s.cursorY + atLeastOne n)

theorem cursorUp_eq (n : Int) (s : Screen) : s.cursorUp n =
    if s.cursorX < s.width then
      touch (s.upRow n * s.width + s.cursorX) { s with cursorY := s.upRow n }
    else { s with cursorY := s.upRow n } := rfl

theorem cursorDown_eq (n : Int) (s : Screen) : s.cursorDown n =
    if s.cursorX < s.width then
      touch (s.downRow n * s.width + s.cursorX) { s with cursorY := s.downRow n }
    else { s with cursorY := s.downRow n } := rfl

theorem cursorUp_cursorY (n : Int) (s : Screen) : (s.cursorUp n).cursorY = s.upRow n := by
  rw [cursorUp_eq]
  split <;> rfl

theorem cursorDown_cursorY (n : Int) (s : Screen) : (s.cursorDown n).cursorY = s.downRow n := by
  rw [cursorDown_eq]
  split <;> rfl

theorem cursorUp_margins (n : Int) (s : Screen) : (s.cursorUp n).scrollTop = s.scrollTop ∧
    (s.cursorUp n).scrollBottom = s.scrollBottom ∧ (s.cursorUp n).height = s.height := by
  rw [cursorUp_eq]
  split <;> exact ⟨rfl, rfl, rfl⟩

theorem cursorDown_margins (n : Int) (s : Screen) : (s.cursorDown n).scrollTop = s.scrollTop ∧
    (s.cursorDown n).scrollBottom = s.scrollBottom ∧ (s.cursorDown n).height = s.height := by
  rw [cursorDown_eq]
  split <;> exact ⟨rfl, rfl, rfl⟩

theorem cursorUp_onScreen {n : Int} (h : s.Wf) (hrow : s.OnScreen) (hlt : s.height < 2 ^ 31)
    (hn : IsInt n)
    (hguard : s.scrollTop ≤ s.cursorY ∨ atLeastOne n ≤ s.cursorY) : (s.cursorUp n).OnScreen := by
  have hm := h.margins
  have hone := atLeastOne_range hn
  unfold OnScreen at hrow
  have hsum : cint (s.cursorY - atLeastOne n) = s.cursorY - atLeastOne n :=
    cint_of_isInt ⟨by omega, by omega⟩
  have hrow' : (s.cursorUp n).cursorY = if s.cursorY ≥ s.scrollTop then
      (if s.cursorY - atLeastOne n < s.scrollTop then s.scrollTop else s.cursorY - atLeastOne n)
      else s.cursorY - atLeastOne n := by
    unfold cursorUp
    simp only [hsum]
    split <;> rfl
  unfold OnScreen
  rw [hrow', (cursorUp_keeps n s).height_eq]
  repeat' split
  all_goals omega

theorem cursorDown_onScreen {n : Int} (h : s.Wf) (hrow : s.OnScreen) (hlt : s.height < 2 ^ 31)
    (hn : IsInt n)
    (hguard : s.cursorY ≤ s.scrollBottom ∧ s.cursorY + atLeastOne n < 2 ^ 31 ∨
      s.cursorY + atLeastOne n < s.height) : (s.cursorDown n).OnScreen := by
  have hm := h.margins
  have hone := atLeastOne_range hn
  unfold OnScreen at hrow
  have hsum : cint (s.cursorY + atLeastOne n) = s.cursorY + atLeastOne n :=
    cint_of_isInt ⟨by omega, by omega⟩
  have hrow' : (s.cursorDown n).cursorY = if s.cursorY ≤ s.scrollBottom then
      (if s.cursorY + atLeastOne n > s.scrollBottom then s.scrollBottom
        else s.cursorY + atLeastOne n)
      else s.cursorY + atLeastOne n := by
    unfold cursorDown
    simp only [hsum]
    split <;> rfl
  unfold OnScreen
  rw [hrow', (cursorDown_keeps n s).height_eq]
  repeat' split
  all_goals omega

theorem cursorToXY_onScreen (h : s.Wf) (x y : Int) : (s.cursorToXY t x y).OnScreen :=
  clampPos_range _ h.height_pos

theorem scrollUp_onScreen (h : s.Wf) (hy : s.OnScreen) (hok : s.scrollUp t = .ok s') :
    s'.OnScreen := by
  obtain ⟨-, -, hok⟩ := bind_eq_ok.mp hok
  split at hok
  · exact setNewLine_onScreen h hy hok
  · exact (scrollUpRegion_draws hok).onScreen hy

theorem index_onScreen (h : s.Wf) (hy : s.OnScreen) (hok : s.index t = .ok s') :
    s'.OnScreen := by
  unfold index at hok
  split at hok
  · exact scrollUp_onScreen h hy hok
  · cases hok
    unfold OnScreen at *
    simp only
    split <;> omega

theorem reverseIndex_onScreen (hy : s.OnScreen) (hok : s.reverseIndex t = .ok s') :
    s'.OnScreen := by
  unfold reverseIndex at hok
  split at hok
  · exact (scrollDown_draws hok).onScreen hy
  · cases hok
    unfold OnScreen at *
    simp only
    split <;> omega

theorem setString_onScreen {string : List UniChar} {ascii : Bool} (h : s.Wf) (hy : s.OnScreen)
    (hok : s.setString F t string ascii = .ok s') : s'.OnScreen := by
  unfold setString at hok
  split at hok
  · cases hok
    exact hy
  · obtain ⟨cells, -, hok⟩ := bind_eq_ok.mp hok
    have hinv := foldlM_inv (P := fun s => s.Wf ∧ s.OnScreen)
      (fun _ _ _ hI hs => ⟨putCell_wf hI.1 hs, putCell_onScreen hI.1 hI.2 hs⟩) ⟨h, hy⟩ hok
    exact hinv.2

theorem putString_onScreen {string : List UniChar} {ascii : Bool} (h : s.Wf) (hy : s.OnScreen)
    (hok : s.putString F t string ascii = .ok s') : s'.OnScreen := by
  unfold putString at hok
  split at hok
  · cases hok
    unfold printStringToAnsi
    split <;> exact hy
  · exact setString_onScreen h hy hok

theorem lineFeed_onScreen (h : s.Wf) (hy : s.OnScreen) (hok : s.lineFeed t = .ok s') :
    s'.OnScreen := by
  obtain ⟨s₁, h₁, hok⟩ := bind_eq_ok.mp hok
  cases hok
  split at h₁
  · cases h₁
    exact hy
  · have hy₁ := setNewLine_onScreen h hy h₁
    exact hy₁

theorem backSpace_onScreen (hy : s.OnScreen) : s.backSpace.OnScreen := by
  unfold backSpace
  split <;> exact hy

theorem setTab_onScreen (hy : s.OnScreen) (hok : s.setTab = .ok s') : s'.OnScreen := by
  obtain ⟨x, -, hok⟩ := bind_eq_ok.mp hok
  cases hok
  exact hy

theorem putControl_onScreen {code : Nat} (h : s.Wf) (hy : s.OnScreen)
    (hok : s.putControl t code = .ok s') : s'.OnScreen := by
  unfold putControl at hok
  split at hok
  · cases hok
    exact hy
  · cases hok
    exact backSpace_onScreen hy
  · exact setTab_onScreen hy hok
  · exact lineFeed_onScreen h hy hok
  · exact lineFeed_onScreen h hy hok
  · exact lineFeed_onScreen h hy hok
  · cases hok
    exact hy
  · exact (deleteCharacters_draws hok).onScreen hy
  · cases hok
    exact hy

theorem markTab_onScreen {v : Bool} (hy : s.OnScreen) (hok : s.markTab v = .ok s') :
    s'.OnScreen := by
  unfold markTab at hok
  split at hok
  · obtain ⟨tabs, -, hok⟩ := bind_eq_ok.mp hok
    cases hok
    exact hy
  · cases hok
    exact hy

theorem setTopBottom_onScreen {p0 p1 : Int} (h : s.Wf) (hy : s.OnScreen) :
    (s.setTopBottom t p0 p1).OnScreen := by
  have hpos := h.height_pos
  unfold setTopBottom
  simp only
  generalize (if p0 = 0 then (0 : Int) else p0 - 1) = top
  generalize (if p1 = 0 then s.height - 1 else p1 - 1) = bottom
  by_cases hin : 0 ≤ top ∧ top < s.height ∧ 0 ≤ bottom ∧ bottom < s.height ∧ bottom ≥ top
  · rw [if_pos hin]
    unfold OnScreen
    simp only
    split <;> omega
  · rw [if_neg hin]
    exact hy

theorem OnScreen.ite {p : Prop} [Decidable p] (h : s.OnScreen) (h' : s'.OnScreen) :
    (if p then s else s').OnScreen := by
  split
  · exact h
  · exact h'

theorem dispatch_onScreen {tok : VT100TCC} (h : s.Wf) (hy : s.RowOk) (htok : tok.ParamsOk)
    (hguard : s.RowGuard tok) (hok : s.dispatch F t tok = .ok s') : s'.OnScreen := by
  have hrow := hy.row
  have hint := htok.isInt
  obtain ⟨type, string, code, csi⟩ := tok
  cases type with
  | string => exact putString_onScreen h hrow hok
  | asciiString => exact putString_onScreen h hrow hok
  | cc code => exact putControl_onScreen h hrow hok
  | cub =>
      cases hok
      exact (touch_draws _ _).onScreen (OnScreen.ite hrow hrow)
  | cud =>
      cases hok
      exact cursorDown_onScreen h hrow hy.height_lt hint hguard
  | cuf =>
      cases hok
      exact (touch_draws _ _).onScreen (OnScreen.ite hrow hrow)
  | cup =>
      cases hok
      exact cursorToXY_onScreen h _ _
  | cuu =>
      cases hok
      exact cursorUp_onScreen h hrow hy.height_lt hint hguard
  | decaln => exact (alignmentDisplay_draws hok).onScreen hrow
  | decrc =>
      obtain ⟨-, -, hok⟩ := bind_eq_ok.mp hok
      obtain ⟨u, hin, hok⟩ := bind_eq_ok.mp hok
      cases hok
      exact nsAssert_eq_ok.mp hin
  | decsc =>
      cases hok
      unfold saveCursorPosition OnScreen at *
      simp only
      repeat' split
      all_goals omega
  | decstbm =>
      cases hok
      exact setTopBottom_onScreen h hrow
  | ed => exact (eraseInDisplay_draws hok).onScreen hrow
  | el => exact (eraseInLine_draws hok).onScreen hrow
  | hts => exact markTab_onScreen hrow hok
  | hvp =>
      cases hok
      exact cursorToXY_onScreen h _ _
  | nel =>
      have hwf := h.withCursorX (Int.le_refl 0) h.width_pos
      exact index_onScreen hwf hrow hok
  | ind => exact index_onScreen h hrow hok
  | ri => exact reverseIndex_onScreen hrow hok
  | tbc =>
      simp only [dispatch] at hok
      split at hok
      · cases hok
        exact hrow
      · split at hok
        · exact markTab_onScreen hrow hok
        · cases hok
          exact hrow
  | decset =>
      cases hok
      exact OnScreen.ite hrow hrow
  | decrst =>
      cases hok
      exact OnScreen.ite hrow hrow
  | cha =>
      cases hok
      exact hrow
  | vpa =>
      cases hok
      exact cursorToXY_onScreen h _ _
  | vpr =>
      cases hok
      exact cursorToXY_onScreen h _ _
  | ech => exact (eraseCharacters_draws hok).onScreen hrow
  | print =>
      cases hok
      exact OnScreen.ite hrow (OnScreen.ite hrow hrow)
  | insblnk => exact (insertBlank_draws hok).onScreen hrow
  | insln => exact (insertLines_draws hok).onScreen hrow
  | delch => exact (deleteCharacters_draws hok).onScreen hrow
  | delln => exact (deleteLines_draws hok).onScreen hrow
  | su =>
      have hinv := forUp_inv (P := fun _ (s : Screen) => s.Wf ∧ s.OnScreen)
        (fun _ _ _ _ _ hI hs => ⟨scrollUp_wf hI.1 hs, scrollUp_onScreen hI.1 hI.2 hs⟩)
        ⟨h, hrow⟩ hok
      exact hinv.2
  | sd =>
      exact forUp_inv (P := fun _ (s : Screen) => s.OnScreen)
        (fun _ _ _ _ _ hI hs => (scrollDown_draws hs).onScreen hI) hrow hok
  | _ =>
      cases hok
      exact hrow

theorem putToken_rowOk {tok : VT100TCC} (h : s.Wf) (hy : s.RowOk) (htok : tok.ParamsOk)
    (hguard : s.RowGuard tok) (hok : s.putToken F t tok = .ok s') : s'.RowOk := by
  have hrow := hy.row
  have hsaved := hy.saved
  have hlt := hy.height_lt
  obtain ⟨s₁, h₁, hok⟩ := bind_eq_ok.mp hok
  have hs₁ : s₁.RowOk := by
    by_cases hsave : tok.type = .decsc
    · -- the saved row is the row
      simp only [dispatch, hsave] at h₁
      cases h₁
      unfold OnScreen at hrow
      have hy' : s.saveCursorPosition.cursorY = s.cursorY := by
        simp only [saveCursorPosition]
        repeat' split
        all_goals omega
      have hrow' : s.saveCursorPosition.OnScreen := by
        unfold OnScreen
        rw [hy']
        exact hrow
      exact ⟨hrow', hrow', hlt⟩
    · exact hy.of_keeps (dispatch_keeps hsave h₁) (dispatch_onScreen h hy htok hguard h₁)
  cases hok
  split
  · exact hs₁.draws (touch_draws _ _)
  · exact hs₁

theorem control_onScreen {b : UInt8} (h : s.Wf) (hrow : s.OnScreen)
    (hok : control t s b = .ok s') : s'.OnScreen := by
  obtain hc | hc | hc | hc | hc | hc | hc := control_cases t s b <;> rw [hc] at hok
  · cases hok
    exact hrow
  · cases hok
    exact hrow
  · cases hok
    exact backSpace_onScreen hrow
  · exact setTab_onScreen hrow hok
  · exact setNewLine_onScreen h hrow hok
  · cases hok
    exact cursorToXY_onScreen h _ _
  · exact (deleteCharacters_draws hok).onScreen hrow

theorem control_rowOk {b : UInt8} (h : s.Wf) (hy : s.RowOk) (hok : control t s b = .ok s') :
    s'.RowOk :=
  hy.of_keeps (control_keeps hok) (control_onScreen h hy.row hok)

/-! ## Resizing

A resize puts the cursor into the row that its old row has been copied to, or
into the last one. The old row must be on the screen for that. -/

theorem trimHeight_ge {k : Nat} {height height' : Int}
    (hok : s.trimHeight k height = .ok height') : height - k ≤ height' := by
  induction k generalizing height with
  | zero =>
      cases hok
      omega
  | succ k ih =>
      obtain ⟨line, -, hok⟩ := bind_eq_ok.mp hok
      obtain ⟨i, -, hok⟩ := bind_eq_ok.mp hok
      split at hok
      · cases hok
        omega
      · have := ih hok
        omega

/-- The cursor ends up in a row that has been copied, or in the last one. -/
theorem newPosition_row {r : Reflow} {max height : Int} (hmax : 0 < max) (hh : 1 ≤ height)
    (hr : 1 ≤ r.y2 ∨ r.wrapped = true) :
    0 ≤ (newPosition max height r).2 ∧ (newPosition max height r).2 < height := by
  simp only [newPosition, if_pos hmax]
  split
  · exact ⟨by simp only; omega, by simp only; omega⟩
  · rename_i hw
    have hy := hr.resolve_right hw
    split <;> simp only <;> omega

theorem resizeWidth_rowOk {width height : Int} (h : s.Wf) (hy : s.RowOk) (hw : 1 ≤ width)
    (hh : 1 ≤ height) (hh' : height < 2 ^ 31) (hok : s.resizeWidth t width height = .ok s') :
    s'.RowOk := by
  have hrow := hy.row
  have hsaved := hy.saved
  unfold OnScreen at hrow
  unfold resizeWidth at hok
  split at hok
  · cases hok
    exact hy
  · obtain ⟨trimmed, htrim, hok⟩ := bind_eq_ok.mp hok
    obtain ⟨r, hr, hok⟩ := bind_eq_ok.mp hok
    obtain ⟨bl, -, hok⟩ := bind_eq_ok.mp hok
    obtain ⟨s₁, h₁, hok⟩ := bind_eq_ok.mp hok
    refine RowOk.draws (RowOk.draws ?_ (setDirty_draws h₁)) (refresh_draws hok)
    have hge := trimHeight_ge htrim
    have hc := h.count_range
    have hT : 0 < s.maxScrollbackLines + height := by
      have := h.max_pos
      omega
    have hd := getDefaultLine_draws t.foregroundColorCode t.backgroundColorCode width
      { s with height := trimmed }
    unfold getDefaultLineWithWidth at hr ⊢
    obtain ⟨⟨b, d, line, fg, bg, lw, -, -, heq⟩, -⟩ := hd
    rw [heq] at hr ⊢
    have hstarted := (copyRows_ok (reflow_start_ok hT _) (by omega) hr).2
      (Or.inl (by simp only; omega))
    have hpos := newPosition_row h.max_pos hh hstarted
    refine ⟨?_, ?_, hh'⟩
    · unfold OnScreen
      simp only [install]
      split <;> omega
    · simp only [install]
      split <;> omega

theorem clearBuffer_rowOk (h : s.Wf) (hy : s.RowOk) (hok : s.clearBuffer t = .ok s') :
    s'.RowOk := by
  obtain ⟨s₁, h₁, hok⟩ := bind_eq_ok.mp hok
  obtain ⟨s₂, h₂, hok⟩ := bind_eq_ok.mp hok
  obtain ⟨s₃, h₃, hok⟩ := bind_eq_ok.mp hok
  refine RowOk.draws (RowOk.draws ?_ (setDirty_draws h₃)) (refresh_draws hok)
  have hhome : RowOk { s with cursorX := 0, cursorY := 0 } :=
    ⟨⟨Int.le_refl 0, h.height_pos⟩, hy.saved, hy.height_lt⟩
  have hs₁ := hhome.draws (clearScreen_draws h₁)
  unfold dropScrollback at h₂
  split at h₂
  · obtain ⟨s₄, h₄, h₂⟩ := bind_eq_ok.mp h₂
    cases h₂
    have hd := (getDefaultLine_draws _ _ _ _).trans (.forUp (fun _ _ _ => clearLineAt_draws) h₄)
    have hs₄ := hs₁.draws hd
    exact ⟨hs₄.row, hs₄.saved, hs₄.height_lt⟩
  · cases h₂
    exact hs₁

theorem init_rowOk {fresh : ScreenChar} (hok : Screen.init fresh = .ok s) : s.RowOk := by
  obtain ⟨tabs, -, hok⟩ := bind_eq_ok.mp hok
  obtain ⟨s₁, h₁, hok⟩ := bind_eq_ok.mp hok
  refine RowOk.draws ?_ (setDirty_draws hok)
  have hd := (getDefaultLine_draws _ _ _ _).trans (.forUp (fun _ _ _ => clearLineAt_draws) h₁)
  have hstart : RowOk (uncleared fresh tabs) :=
    ⟨(by decide : (0 : Int) ≤ 0 ∧ 0 < defaultTerminalHeight),
      (by decide : (0 : Int) ≤ 0 ∧ 0 < defaultTerminalHeight),
      (by decide : defaultTerminalHeight < 2 ^ 31)⟩
  have hs₁ := hstart.draws hd
  exact ⟨hs₁.row, hs₁.saved, hs₁.height_lt⟩

end Screen

namespace VT100

variable {v v' : VT100}

/-- The assertions on the index of a row and on the saved cursor. -/
def isRowFault : Fault Site → Prop
  | .assertion .lineOffset => True
  | .assertion .restoreX => True
  | .assertion .restoreY => True
  | _ => False

theorem setMode_rowOk {tok : VT100TCC} (hy : v.screen.RowOk) (hok : v.setMode tok = .ok v') :
    v'.screen.RowOk := by
  obtain ⟨temp, hd⟩ := setMode_screen hok
  have hy' : Screen.RowOk { v.screen with tempBuffer := temp } := ⟨hy.row, hy.saved, hy.height_lt⟩
  exact hy'.draws hd

theorem decodeControl_rowOk {datap : List UInt8} {s s' : Screen} {tok : VT100TCC} {n : Nat}
    (h : s.Wf) (hy : s.RowOk) (hok : decodeControl t datap s = .ok (tok, n, s')) :
    s'.RowOk := by
  have hinv := decodeControl_inv (P := fun s => s.Wf ∧ s.RowOk)
    (fun _ _ _ hI hs => ⟨Screen.control_wf hI.1 hs, Screen.control_rowOk hI.1 hI.2 hs⟩) ⟨h, hy⟩ hok
  exact hinv.2

theorem getNextToken_rowOk {tok : VT100TCC} (h : v.Wf) (hy : v.screen.RowOk)
    (hok : v.getNextToken F = .ok (tok, v')) : v'.screen.RowOk := by
  cases getNextToken_fetches hok with
  | empty hp => exact hy
  | text hp htext h₁ => exact advance_screen h₁ ▸ hy
  | @control v₁ v₂ _ _ n s b rest hp hb hdecode hmode hattr h₁ =>
      have hs : s.RowOk := decodeControl_rowOk h.screen hy hdecode
      have hv₁ : v₁.screen.RowOk := setMode_rowOk (v := { v with screen := s }) hs hmode
      rw [advance_screen h₁, setCharAttr_screen hattr]
      exact hv₁
  | undecoded hp hb hdecode hne h₁ => exact advance_screen h₁ ▸ hy
  | string hp hb hdecode hzero h₁ => exact advance_screen h₁ ▸ hy
  | unknown hp hb h₁ => exact advance_screen h₁ ▸ hy

/-! ## Runs

The guard is asked of a token when it is executed, in the state it is executed
in, so a run may be judged step by step. -/

/-- The steps that keep the row on the screen: positive sizes, and only tokens
that pass the guard. -/
def KeepsRow (c : Config) (e : Event) : Prop :=
  SizesPositive c e ∧ ∀ tok, c.1 = .deliver tok → e = .exec → c.2.screen.RowGuard tok

/-- What holds along such runs. -/
structure RowInv (c : Config) : Prop where
  wf : c.2.Wf
  rows : c.2.screen.RowOk
  params : ∀ tok, c.1 = .deliver tok → tok.ParamsOk

theorem processToken_rowOk {tok : VT100TCC} (h : v.Wf) (hy : v.screen.RowOk)
    (htok : tok.ParamsOk) (hguard : v.screen.RowGuard tok)
    (hok : v.processToken F tok = .ok v') : v'.screen.RowOk := by
  unfold processToken at hok
  split at hok
  · cases hok
    exact hy
  · obtain ⟨s, hs, hok⟩ := bind_eq_ok.mp hok
    cases hok
    exact Screen.putToken_rowOk h.screen hy htok hguard hs

theorem step_rowInv {c c' : Config} {e : Event} (h : RowInv c) (hok : KeepsRow c e)
    (hstep : Step F c e c') : RowInv c' := by
  have hwf := step_wf h.wf hok.1 hstep
  cases hstep with
  | put hput =>
      obtain ⟨t, -, hput⟩ := bind_eq_ok.mp hput
      cases hput
      exact ⟨hwf, h.rows, fun _ hp => by cases hp⟩
  | token hnext _ =>
      refine ⟨hwf, getNextToken_rowOk h.wf h.rows hnext, fun tok hp => ?_⟩
      cases hp
      exact getNextToken_params hnext
  | stop hnext _ hr =>
      obtain ⟨s, hs, hr⟩ := bind_eq_ok.mp hr
      cases hr
      exact ⟨hwf, (getNextToken_rowOk h.wf h.rows hnext).draws (Screen.refresh_draws hs),
        fun _ hp => by cases hp⟩
  | exec hexec =>
      exact ⟨hwf, processToken_rowOk h.wf h.rows (h.params _ rfl) (hok.2 _ rfl rfl) hexec,
        fun _ hp => by cases hp⟩
  | setScreenSize hsize =>
      obtain ⟨s, hs, hsize⟩ := bind_eq_ok.mp hsize
      cases hsize
      obtain ⟨hw, -, hh, hint⟩ := hok.1
      exact ⟨hwf, Screen.resizeWidth_rowOk h.wf.screen h.rows hw hh hint.2 hs,
        fun _ hp => by cases hp⟩
  | clearScreen hclear =>
      obtain ⟨s, hs, hclear⟩ := bind_eq_ok.mp hclear
      cases hclear
      exact ⟨hwf, Screen.clearBuffer_rowOk h.wf.screen h.rows hs, fun _ hp => by cases hp⟩

theorem reach_rowInv {c : Config} (h : Reach Initial (Step F) KeepsRow c) : RowInv c := by
  refine Reach.invariant (I := RowInv) ?_ (fun c e c' hI hok hstep => step_rowInv hI hok hstep) h
  rintro c ⟨fresh, v, hv, rfl⟩
  refine ⟨init_wf hv, ?_, fun _ hp => by cases hp⟩
  obtain ⟨s₁, h₁, hv⟩ := bind_eq_ok.mp hv
  obtain ⟨s₂, h₂, hv⟩ := bind_eq_ok.mp hv
  cases hv
  have hs₂ := Screen.resizeWidth_rowOk (Screen.init_wf h₁) (Screen.init_rowOk h₁) (by decide)
    (by decide) (by decide) h₂
  exact ⟨hs₂.row, hs₂.saved, hs₂.height_lt⟩

/-- In every run whose tokens pass the guard, the cursor and the saved cursor are
in rows of the screen in every state, and no assertion about rows is tripped: not
by fetching a token, not by executing one that passes the guard, not by a
resize. -/
theorem cursor_row_stays {c : Config} (h : Reach Initial (Step F) KeepsRow c) :
    c.2.screen.OnScreen ∧
      (0 ≤ c.2.screen.saveCursorY ∧ c.2.screen.saveCursorY < c.2.screen.height) ∧
      Avoids isRowFault (c.2.getNextToken F) ∧
      (∀ tok, c.1 = .deliver tok → c.2.screen.RowGuard tok →
        Avoids isRowFault (c.2.processToken F tok)) ∧
      ∀ width height, Avoids isRowFault (c.2.setScreenSize width height) := by
  obtain ⟨hwf, hrows, hparams⟩ := reach_rowInv h
  refine ⟨hrows.row, hrows.saved, ?_, fun tok hp hguard => ?_, fun width height => ?_⟩
  · exact getNextToken_avoids (fun _ => hwf.screen) (by simp [isRowFault]) (by simp [isRowFault])
      (by simp [isRowFault]) (by simp [isRowFault])
  · refine processToken_avoids (fun _ => hwf.screen) fun _ => ⟨hrows.row, hrows.saved, ?_⟩
    have htok := hparams tok hp
    rintro (htype | htype)
    · refine ⟨hrows.row, hrows.height_lt, htok.nonneg (by rw [htype]; rfl), ?_⟩
      simpa only [Screen.RowGuard, htype] using hguard
    · refine ⟨hrows.row, hrows.height_lt, htok.nonneg (by rw [htype]; rfl), ?_⟩
      simpa only [Screen.RowGuard, htype] using hguard
  · exact Avoids.bind (Screen.resizeWidth_avoids id fun _ => hrows.row) fun _ _ => .ok _

/-- Between two calls on a screen of 25 rows without margins, in row `y`. -/
structure InRow (y : Int) (v : VT100) : Prop where
  wf : v.Wf
  pending_eq : v.terminal.pending = []
  shape : v.screen.scrollTop = 0 ∧ v.screen.scrollBottom = 24 ∧ v.screen.height = 25
  row_eq : v.screen.cursorY = y

/-- A call with one sequence that passes the guard. -/
theorem InRow.sequence {y : Int} (hv : InRow y v) (bs : List UInt8) (tok : VT100TCC) (s₁ : Screen)
    (hdecode : ∀ t, decodeControl t (0x1b :: bs) v.screen =
      .ok (tok, (0x1b :: bs).length, v.screen)) (htok : ScreenOnly tok)
    (hrun : ∀ t, v.terminal.SameModes t → v.screen.dispatch F t tok = .ok s₁)
    (hguard : v.screen.RowGuard tok)
    (hshape : s₁.scrollTop = v.screen.scrollTop ∧ s₁.scrollBottom = v.screen.scrollBottom ∧
      s₁.height = v.screen.height) :
    ∃ v', Path (Step F) KeepsRow (.idle, v) (.idle, v') ∧
      v.readInputStream F (0x1b :: bs) = .ok v' ∧ InRow s₁.cursorY v' := by
  obtain ⟨v', hpath, hcall, hd, -, hwf, hpending, -⟩ := sequence_path KeepsRow hv.wf
    hv.pending_eq (by decide) hdecode htok hrun ⟨trivial, fun _ _ he => by cases he⟩
    (fun _ => ⟨trivial, fun _ _ he => by cases he⟩) (fun u hu => ⟨trivial, fun _ hp _ => by
      cases hp
      exact hu ▸ hguard⟩)
  obtain ⟨htop, hbottom, hheight⟩ := hshape
  refine ⟨v', hpath, hcall, hwf, hpending, ⟨?_, ?_, ?_⟩, hd.cursor_eq.2⟩
  · rw [hd.margins_eq.1, htop, hv.shape.1]
  · rw [hd.margins_eq.2, hbottom, hv.shape.2.1]
  · rw [hd.height_eq, hheight, hv.shape.2.2]

theorem InRow.linesFit (hv : InRow 1 v) : v.screen.LinesFit 1 := by
  obtain ⟨-, -, hheight⟩ := hv.shape
  unfold Screen.LinesFit Screen.OnScreen
  rw [hv.row_eq, hheight]
  decide

theorem InRow.above (hv : InRow 1 v) : v.screen.cursorY ≤ v.screen.scrollBottom := by
  rw [hv.row_eq, hv.shape.2.1]
  decide

/-- `ESC [ 2 B`, `ESC [ A`, `ESC [ L` and `ESC [ M` on a new object: down two rows
and up one, a line inserted and a line deleted there. -/
theorem moved_row_stays : ∃ v v₁ v₂ v₃ v₄, VT100.init ⟨0, 0, 0⟩ = .ok v ∧
    v.readInputStream Foundation.latin1 [0x1b, 0x5b, 0x32, 0x42] = .ok v₁ ∧
    v₁.readInputStream Foundation.latin1 [0x1b, 0x5b, 0x41] = .ok v₂ ∧
    v₂.readInputStream Foundation.latin1 [0x1b, 0x5b, 0x4c] = .ok v₃ ∧
    v₃.readInputStream Foundation.latin1 [0x1b, 0x5b, 0x4d] = .ok v₄ ∧
    Reach Initial (Step Foundation.latin1) KeepsRow (.idle, v₄) ∧ v₄.screen.cursorY = 1 ∧
    v₄.screen.OnScreen := by
  obtain ⟨v, hv, ht, hs⟩ := init_fresh ⟨0, 0, 0⟩
  have hrow : InRow 0 v := by
    refine ⟨init_wf hv, by rw [ht]; rfl, ⟨hs.margins.1, ?_, hs.height_eq⟩, hs.cursor.2⟩
    rw [hs.margins.2, hs.height_eq]
    rfl
  -- down
  obtain ⟨tok, hdecode, htype, hp0⟩ : ∃ tok : VT100TCC,
      (∀ t, decodeControl t [0x1b, 0x5b, 0x32, 0x42] v.screen = .ok (tok, 4, v.screen)) ∧
      tok.type = .cud ∧ tok.csi.p.cell 0 = 2 := ⟨_, fun _ => rfl, rfl, rfl⟩
  obtain ⟨htop, hbottom, hheight⟩ := hrow.shape
  obtain ⟨v₁, hpath₁, h₁, hrow₁⟩ := hrow.sequence (F := Foundation.latin1) _ tok
    (v.screen.cursorDown 2) hdecode
    (screenOnly_of_type (by rw [htype]; rfl))
    (fun t _ => by simp only [Screen.dispatch, htype, hp0])
    (by
      simp only [Screen.RowGuard, htype, hp0, hrow.row_eq, hbottom, Screen.atLeastOne]
      omega)
    (Screen.cursorDown_margins 2 v.screen)
  rw [Screen.cursorDown_cursorY, Screen.downRow, hrow.row_eq, hbottom,
    show cint (0 + Screen.atLeastOne 2) = 2 from rfl, if_pos (by decide), if_neg (by decide)]
    at hrow₁
  -- up
  obtain ⟨tok₁, hdecode₁, htype₁, hp1⟩ : ∃ tok : VT100TCC,
      (∀ t, decodeControl t [0x1b, 0x5b, 0x41] v₁.screen = .ok (tok, 3, v₁.screen)) ∧
      tok.type = .cuu ∧ tok.csi.p.cell 0 = 1 := ⟨_, fun _ => rfl, rfl, rfl⟩
  obtain ⟨htop₁, -, -⟩ := hrow₁.shape
  obtain ⟨v₂, hpath₂, h₂, hrow₂⟩ := hrow₁.sequence (F := Foundation.latin1) _ tok₁
    (v₁.screen.cursorUp 1) hdecode₁
    (screenOnly_of_type (by rw [htype₁]; rfl))
    (fun t _ => by simp only [Screen.dispatch, htype₁, hp1])
    (by
      simp only [Screen.RowGuard, htype₁, hp1, hrow₁.row_eq, htop₁, Screen.atLeastOne]
      omega)
    (Screen.cursorUp_margins 1 v₁.screen)
  rw [Screen.cursorUp_cursorY, Screen.upRow, hrow₁.row_eq, htop₁,
    show cint (2 - Screen.atLeastOne 1) = 1 from rfl, if_pos (by decide), if_neg (by decide)]
    at hrow₂
  -- a line inserted
  obtain ⟨tok₂, hdecode₂, htype₂, hp2⟩ : ∃ tok : VT100TCC,
      (∀ t, decodeControl t [0x1b, 0x5b, 0x4c] v₂.screen = .ok (tok, 3, v₂.screen)) ∧
      tok.type = .insln ∧ tok.csi.p.cell 0 = 1 := ⟨_, fun _ => rfl, rfl, rfl⟩
  obtain ⟨s₃, hs₃, -⟩ := Screen.insertLines_rows hrow₂.wf.screen v₂.terminal hrow₂.linesFit
    hrow₂.above
  have hd₃ := Screen.insertLines_draws hs₃
  obtain ⟨v₃, hpath₃, h₃, hrow₃⟩ := hrow₂.sequence (F := Foundation.latin1) _ tok₂ s₃ hdecode₂
    (screenOnly_of_type (by rw [htype₂]; rfl))
    (by
      rintro t ⟨stream, len, total, off, rfl⟩
      simp only [Screen.dispatch, htype₂, hp2]
      exact hs₃)
    (by simp only [Screen.RowGuard, htype₂, hp2, hrow₂.row_eq]; decide)
    ⟨hd₃.margins_eq.1, hd₃.margins_eq.2, hd₃.height_eq⟩
  rw [hd₃.cursor_eq.2, hrow₂.row_eq] at hrow₃
  -- and a line deleted
  obtain ⟨tok₃, hdecode₃, htype₃, hp3⟩ : ∃ tok : VT100TCC,
      (∀ t, decodeControl t [0x1b, 0x5b, 0x4d] v₃.screen = .ok (tok, 3, v₃.screen)) ∧
      tok.type = .delln ∧ tok.csi.p.cell 0 = 1 := ⟨_, fun _ => rfl, rfl, rfl⟩
  obtain ⟨s₄, hs₄, -⟩ := Screen.deleteLines_rows hrow₃.wf.screen v₃.terminal hrow₃.linesFit
    hrow₃.above
  have hd₄ := Screen.deleteLines_draws hs₄
  obtain ⟨v₄, hpath₄, h₄, hrow₄⟩ := hrow₃.sequence (F := Foundation.latin1) _ tok₃ s₄ hdecode₃
    (screenOnly_of_type (by rw [htype₃]; rfl))
    (by
      rintro t ⟨stream, len, total, off, rfl⟩
      simp only [Screen.dispatch, htype₃, hp3]
      exact hs₄)
    (by simp only [Screen.RowGuard, htype₃, hp3, hrow₃.row_eq]; decide)
    ⟨hd₄.margins_eq.1, hd₄.margins_eq.2, hd₄.height_eq⟩
  rw [hd₄.cursor_eq.2, hrow₃.row_eq] at hrow₄
  have hreach : Reach Initial (Step Foundation.latin1) KeepsRow (.idle, v₄) :=
    (((Reach.path (.init ⟨_, v, hv, rfl⟩) hpath₁).path hpath₂).path hpath₃).path hpath₄
  exact ⟨v, v₁, v₂, v₃, v₄, hv, h₁, h₂, h₃, h₄, hreach, hrow₄.row_eq, (cursor_row_stays hreach).1⟩

/-- `ESC [ 2 ; 3 r` and then `ESC [ A`: the cursor goes up from the first row. -/
theorem cursorUp_leaves_screen : ∃ v v₁ v₂, VT100.init ⟨0, 0, 0⟩ = .ok v ∧
    v.readInputStream Foundation.latin1 setMarginsBytes = .ok v₁ ∧
    v₁.readInputStream Foundation.latin1 [0x1b, 0x5b, 0x41] = .ok v₂ ∧
    Reachable Foundation.latin1 (.idle, v₂) ∧ v₂.screen.cursorY = -1 ∧ ¬v₂.screen.OnScreen := by
  obtain ⟨v, hv, ht, hs⟩ := init_fresh ⟨0, 0, 0⟩
  obtain ⟨v₁, h₁, hd₁, -, hwf₁, hempty₁, -⟩ := readInputStream_setMargins
    (F := Foundation.latin1) (init_wf hv) (by rw [ht]; rfl) (by rw [hs.height_eq]; decide)
    (by rw [ht]; rfl)
  obtain ⟨tok, hdecode, htype, hp0⟩ : ∃ tok : VT100TCC,
      (∀ t, decodeControl t [0x1b, 0x5b, 0x41] v₁.screen = .ok (tok, 3, v₁.screen)) ∧
      tok.type = .cuu ∧ tok.csi.p.cell 0 = 1 := ⟨_, fun _ => rfl, rfl, rfl⟩
  have htok : ScreenOnly tok := screenOnly_of_type (by rw [htype]; rfl)
  have hup : ∀ t, v₁.terminal.SameModes t →
      v₁.screen.dispatch Foundation.latin1 t tok = .ok (v₁.screen.cursorUp 1) := by
    intro t _
    simp only [Screen.dispatch, htype, hp0]
  obtain ⟨v₂, h₂, hd₂, -⟩ := readInputStream_sequence hwf₁ hempty₁ 0x1b
    [0x5b, 0x41] tok (by decide) hdecode htok hup
  have hrow : v₂.screen.cursorY = -1 := by
    rw [hd₂.cursor_eq.2]
    have hy := hd₁.cursor_eq.2
    have htop := hd₁.margins_eq.1
    simp only at hy htop
    simp only [Screen.cursorUp, Screen.touch]
    split <;> simp only [hy, htop] <;> rfl
  refine ⟨v, v₁, v₂, hv, h₁, h₂, ((init_reachable hv).readInputStream h₁).readInputStream h₂,
    hrow, fun hon => ?_⟩
  have := hon.1
  omega

end VT100

end MobileTerminal
