import MobileTerminal.Confine
import MobileTerminal.CursorRow
import MobileTerminal.Sequence

/-!
# Margins confine output

Between the margins the cursor stays between them under every token that writes,
erases, scrolls or moves by rows and columns, and while the margins are not the
whole screen nothing outside of them changes. `Confined` is that relation
between two states; every one of these tokens is in it, and so is a run of them
(`run_confined`).

The margins that are the whole screen are kept apart since a line feed in the
last row then rotates the ring: the top row leaves for the scrollback, and every
visible row has another number afterwards. That the cursor stays between the
margins is true there, too.

What the handlers need for this is that no sum of the parameter with the row or
the column leaves the range of an `int` (`ParamFits`), as the tests that are to
stop the cursor at a margin are made after the addition. The other condition,
that the cursor is between the margins to begin with, is kept by every token of
the list (`TokenType.staysInMargins`) and therefore assumed of the first state
only.
-/

namespace MobileTerminal

variable {F : Foundation} {t : Terminal}

namespace Screen

variable {s s' s'' : Screen}

/-- The cursor is between the margins. -/
def InMargins (s : Screen) : Prop := s.scrollTop ≤ s.cursorY ∧ s.cursorY ≤ s.scrollBottom

theorem InMargins.onScreen (h : s.InMargins) (hwf : s.Wf) : s.OnScreen := by
  have hm := hwf.margins
  unfold InMargins at h
  exact ⟨by omega, by omega⟩

/-- The relation between the states before and after: margins and size are as they were, the
cursor is between the margins, and with margins that are not the whole screen only rows
between them have changed. -/
structure Confined (s s' : Screen) : Prop where
  margins_eq : s'.scrollTop = s.scrollTop ∧ s'.scrollBottom = s.scrollBottom
  size_eq : s'.width = s.width ∧ s'.height = s.height
  row : s'.InMargins
  cells : ¬s.FullMargins → ChangesOnly s.InRegion s s'

namespace Confined

theorem refl (h : s.InMargins) : Confined s s := ⟨⟨rfl, rfl⟩, ⟨rfl, rfl⟩, h, fun _ => .refl s⟩

theorem full_iff (h : Confined s s') : s'.FullMargins ↔ s.FullMargins := by
  unfold FullMargins
  rw [h.margins_eq.1, h.margins_eq.2, h.size_eq.2]

theorem trans (h : Confined s s') (h' : Confined s' s'') : Confined s s'' := by
  refine ⟨⟨h'.margins_eq.1.trans h.margins_eq.1, h'.margins_eq.2.trans h.margins_eq.2⟩,
    ⟨h'.size_eq.1.trans h.size_eq.1, h'.size_eq.2.trans h.size_eq.2⟩, h'.row, fun hfull => ?_⟩
  have hc := h.cells hfull
  have hregion : s'.InRegion = s.InRegion := by
    unfold InRegion RowsBetween
    rw [hc.ring.count_eq, h.margins_eq.1, h.margins_eq.2]
  have hc' := h'.cells fun hfull' => hfull (h.full_iff.mp hfull')
  rw [hregion] at hc'
  exact hc.trans hc'

/-- An operation that stays in the region and leaves the cursor where it is. -/
theorem of_changes (hd : Draws s s') (h : s.InMargins) (hc : ChangesOnly s.InRegion s s') :
    Confined s s' := by
  refine ⟨hd.margins_eq, ⟨hd.width_eq, hd.height_eq⟩, ?_, fun _ => hc⟩
  unfold InMargins
  rw [hd.margins_eq.1, hd.margins_eq.2, hd.cursor_eq.2]
  exact h

theorem moved {x y : Int} (hy : s.scrollTop ≤ y ∧ y ≤ s.scrollBottom) :
    Confined s { s with cursorX := x, cursorY := y } :=
  ⟨⟨rfl, rfl⟩, ⟨rfl, rfl⟩, hy, fun _ => (ChangesOnly.refl s).withCursor x y⟩

/-- A flag is not a cell; the cursor need not be in the line. -/
theorem touched (h : Confined s s') (i : Int) : Confined s (s'.touch i) := by
  refine h.trans ⟨⟨rfl, rfl⟩, ⟨rfl, rfl⟩, h.row, fun _ => ?_⟩
  exact ⟨⟨rfl, rfl, rfl, rfl, rfl, rfl, rfl⟩, fun _ _ _ _ _ _ _ => rfl⟩

theorem ite {p : Prop} [Decidable p] (h : Confined s s') (h' : Confined s s'') :
    Confined s (if p then s' else s'') := by
  split
  · exact h
  · exact h'

theorem of_ok (h : Confined s s') (hok : (.ok s' : Res Screen) = .ok s'') : Confined s s'' :=
  Except.ok.inj hok ▸ h

theorem forUp {f : Int → Screen → Res Screen} {lo : Int} {n : Nat}
    (hf : ∀ i s s', s.Wf → s.InMargins → f i s = .ok s' → s'.Wf ∧ Confined s s') (hwf : s.Wf)
    (h : s.InMargins) (hok : forUp f lo n s = .ok s') : Confined s s' := by
  have hinv := forUp_inv (P := fun _ s' => s'.Wf ∧ Confined s s') ?_ ⟨hwf, .refl h⟩ hok
  · exact hinv.2
  · rintro i s₁ s₂ - - ⟨hwf₁, hc₁⟩ hs
    obtain ⟨hwf₂, hc₂⟩ := hf i s₁ s₂ hwf₁ hc₁.row hs
    exact ⟨hwf₂, hc₁.trans hc₂⟩

end Confined

/-- The row of the cursor is in the region. -/
theorem InMargins.inRegion (h : s.InMargins) (i : Int) (hi : i = s.cursorRow) : s.InRegion i := by
  unfold InMargins at h
  unfold InRegion RowsBetween
  rw [hi, cursorRow]
  omega

/-- The rows below the cursor are, too, as far as the bottom margin. -/
theorem InMargins.below (h : s.InMargins) (i : Int)
    (hi : s.RowsBetween s.cursorY s.scrollBottom i) : s.InRegion i := by
  unfold InMargins at h
  unfold InRegion RowsBetween at *
  omega

/-! ## Line feeds -/

theorem setNewLine_confined (h : s.Wf) (hm : s.InMargins) (hok : s.setNewLine t = .ok s') :
    Confined s s' := by
  obtain ⟨hmove, -⟩ | ⟨-, hfull, hd⟩ | ⟨hstay, hfull, hd⟩ := setNewLine_cases h hok
  · rw [setNewLine_down t hmove] at hok
    unfold InMargins at hm
    unfold CanMoveDown at hmove
    have hmoved : Confined s { s with cursorY := s.cursorY + 1 } := .moved ⟨by omega, by omega⟩
    refine Confined.of_ok (.ite (hmoved.touched _) hmoved) hok
  · have hrot : s.rotate.scrollTop = s.scrollTop ∧ s.rotate.scrollBottom = s.scrollBottom ∧
        s.rotate.width = s.width ∧ s.rotate.height = s.height ∧ s.rotate.cursorY = s.cursorY := by
      rw [h.rotate_eq]
      split <;> exact ⟨rfl, rfl, rfl, rfl, rfl⟩
    refine ⟨⟨hd.margins_eq.1.trans hrot.1, hd.margins_eq.2.trans hrot.2.1⟩,
      ⟨hd.width_eq.trans hrot.2.2.1, hd.height_eq.trans hrot.2.2.2.1⟩, ?_,
      fun hne => absurd hfull hne⟩
    unfold InMargins
    rw [hd.margins_eq.1, hd.margins_eq.2, hd.cursor_eq.2, hrot.1, hrot.2.1, hrot.2.2.2.2]
    exact hm
  · rw [setNewLine_eq_scrollUp t s hstay hfull] at hok
    obtain ⟨-, -, hok⟩ := bind_eq_ok.mp hok
    rw [if_neg hfull] at hok
    exact .of_changes hd hm (scrollUpRegion_changes h hok)

theorem scrollUp_confined (h : s.Wf) (hm : s.InMargins) (hok : s.scrollUp t = .ok s') :
    Confined s s' := by
  obtain ⟨-, -, hok⟩ := bind_eq_ok.mp hok
  split at hok
  · exact setNewLine_confined h hm hok
  · exact .of_changes (scrollUpRegion_draws hok) hm (scrollUpRegion_changes h hok)

theorem scrollDown_confined (h : s.Wf) (hm : s.InMargins) (hok : s.scrollDown t = .ok s') :
    Confined s s' :=
  .of_changes (scrollDown_draws hok) hm (scrollDown_changes h hok)

theorem withCursorX_confined (hm : s.InMargins) (x : Int) :
    Confined s { s with cursorX := x } := .moved hm

theorem printStringToAnsi_confined (hm : s.InMargins) (string : List UniChar) :
    Confined s (s.printStringToAnsi string) := by
  refine Confined.ite ⟨⟨rfl, rfl⟩, ⟨rfl, rfl⟩, hm, fun _ => ?_⟩ (.refl hm)
  exact ⟨⟨rfl, rfl, rfl, rfl, rfl, rfl, rfl⟩, fun _ _ _ _ _ _ _ => rfl⟩

theorem lineFeed_confined (h : s.Wf) (hm : s.InMargins) (hok : s.lineFeed t = .ok s') :
    Confined s s' := by
  obtain ⟨s₁, h₁, hok⟩ := bind_eq_ok.mp hok
  have hc₁ : Confined s s₁ := by
    split at h₁
    · exact (printStringToAnsi_confined hm _).of_ok h₁
    · exact setNewLine_confined h hm h₁
  exact Confined.of_ok (hc₁.trans (withCursorX_confined hc₁.row 0)) hok

theorem index_confined (h : s.Wf) (hm : s.InMargins) (hok : s.index t = .ok s') :
    Confined s s' := by
  have hmar := h.margins
  unfold index at hok
  split at hok
  · exact scrollUp_confined h hm hok
  · unfold InMargins at hm
    refine Confined.of_ok (.moved ?_) hok
    split <;> omega

theorem reverseIndex_confined (h : s.Wf) (hm : s.InMargins) (hok : s.reverseIndex t = .ok s') :
    Confined s s' := by
  have hmar := h.margins
  unfold reverseIndex at hok
  split at hok
  · exact scrollDown_confined h hm hok
  · unfold InMargins at hm
    refine Confined.of_ok (.moved ?_) hok
    split <;> omega

/-! ## Text -/

theorem Confined.of_row (hd : Draws s s') (h : s.InMargins)
    (hc : ChangesOnly (· = s.cursorRow) s s') : Confined s s' :=
  .of_changes hd h (hc.mono h.inRegion)

theorem putCell_confined {c : ScreenChar} (h : s.Wf) (hm : s.InMargins)
    (hok : s.putCell t c = .ok s') : Confined s s' := by
  have hy := hm.onScreen h
  rw [putCell_eq] at hok
  obtain ⟨s₁, h₁, hok⟩ := bind_eq_ok.mp hok
  have hd₁ := placeCell_draws h₁
  have hc₁ : Confined s s₁ := ⟨hd₁.margins_eq, ⟨hd₁.width_eq, hd₁.height_eq⟩, by
    unfold InMargins
    rw [hd₁.margins_eq.1, hd₁.margins_eq.2, hd₁.cursor_eq.2]
    exact hm, fun _ => (placeCell_changes h hy h₁).mono hm.inRegion⟩
  split at hok
  · have hhome : Wf { s with cursorX := 0 } := h.withCursorX (Int.le_refl 0) h.width_pos
    have hwf : Wf { s₁ with cursorX := 0 } := (hd₁.withCursorX 0).wf hhome
    have hstart := hc₁.trans (withCursorX_confined hc₁.row 0)
    obtain ⟨s₂, hd₂, hc₂, hok⟩ := wrapToNextLine_changes hwf (hstart.row.onScreen hwf) hok
    have hwrap := hstart.trans (.of_row hd₂ hstart.row hc₂)
    exact hwrap.trans (setNewLine_confined (hd₂.wf hwf) hwrap.row hok)
  · exact hc₁.of_ok hok

theorem text_confined {cells : List ScreenChar} (h : s.Wf) (hm : s.InMargins)
    (hok : cells.foldlM (fun s c => s.putCell t c) s = .ok s') : Confined s s' := by
  have hinv := foldlM_inv (P := fun s' => s'.Wf ∧ Confined s s') ?_ ⟨h, .refl hm⟩ hok
  · exact hinv.2
  · rintro s₁ c s₂ ⟨hwf₁, hc₁⟩ hs
    exact ⟨putCell_wf hwf₁ hs, hc₁.trans (putCell_confined hwf₁ hc₁.row hs)⟩

theorem putString_confined {string : List UniChar} {ascii : Bool} (h : s.Wf) (hm : s.InMargins)
    (hok : s.putString F t string ascii = .ok s') : Confined s s' := by
  unfold putString at hok
  split at hok
  · exact (printStringToAnsi_confined hm string).of_ok hok
  · unfold setString at hok
    split at hok
    · exact (Confined.refl hm).of_ok hok
    · obtain ⟨cells, -, hok⟩ := bind_eq_ok.mp hok
      exact text_confined h hm hok

/-! ## Controls and cursor movements -/

theorem backSpace_confined (hm : s.InMargins) : Confined s s.backSpace :=
  .ite (withCursorX_confined hm _) (.refl hm)

theorem setTab_confined (hm : s.InMargins) (hok : s.setTab = .ok s') : Confined s s' := by
  obtain ⟨x, -, hok⟩ := bind_eq_ok.mp hok
  exact (withCursorX_confined hm _).of_ok hok

theorem putControl_confined {code : Nat} (h : s.Wf) (hm : s.InMargins)
    (hcode : 8 ≤ code ∧ code ≤ 13) (hok : s.putControl t code = .ok s') : Confined s s' := by
  unfold putControl at hok
  split at hok
  · omega
  · exact (backSpace_confined hm).of_ok hok
  · exact setTab_confined hm hok
  · exact lineFeed_confined h hm hok
  · exact lineFeed_confined h hm hok
  · exact lineFeed_confined h hm hok
  · exact (withCursorX_confined hm 0).of_ok hok
  · omega
  · exact (Confined.refl hm).of_ok hok

theorem columnMove_confined {p : Prop} [Decidable p] (hm : s.InMargins) (x : Int) :
    Confined s (let s₁ := if p then { s with cursorX := x } else s
      s₁.touch (s₁.cursorY * s₁.width + s₁.cursorX)) :=
  (Confined.ite (withCursorX_confined hm x) (.refl hm)).touched _

theorem cursorToX_confined (hm : s.InMargins) (x : Int) : Confined s (s.cursorToX x) :=
  (withCursorX_confined hm _).touched _

/-- The numbers for which no sum of the handlers leaves the range of an `int`. -/
def ParamFits (s : Screen) (n : Int) : Prop := 0 ≤ n ∧ n < 2 ^ 31 - s.height - s.width

variable {n : Int}

theorem ParamFits.atLeastOne (h : s.Wf) (hn : s.ParamFits n) :
    1 ≤ atLeastOne n ∧ atLeastOne n + s.height ≤ 2 ^ 31 := by
  have hw := h.width_pos
  have hh := h.height_pos
  unfold ParamFits at hn
  unfold Screen.atLeastOne
  split <;> omega

theorem ParamFits.column (h : s.Wf) (hn : s.ParamFits n) : n + s.cursorX < 2 ^ 31 := by
  have hx := h.column
  have hh := h.height_pos
  unfold ParamFits at hn
  omega

theorem ParamFits.linesFit (h : s.Wf) (hm : s.InMargins) (hn : s.ParamFits n) : s.LinesFit n := by
  have hy := hm.onScreen h
  have hw := h.width_pos
  have hrow := hy
  unfold OnScreen at hrow
  unfold ParamFits at hn
  exact ⟨hy, by omega, hn.1, by omega⟩

theorem cursorUp_confined (h : s.Wf) (hm : s.InMargins) (hn : s.ParamFits n) :
    Confined s (s.cursorUp n) := by
  have hmar := h.margins
  have hone := hn.atLeastOne h
  have hy := hm
  unfold InMargins at hy
  have hsum : cint (s.cursorY - Screen.atLeastOne n) = s.cursorY - Screen.atLeastOne n :=
    cint_of_isInt ⟨by omega, by omega⟩
  have hmoved : Confined s { s with cursorY := s.upRow n } := by
    refine .moved ?_
    unfold upRow
    rw [hsum, if_pos hy.1]
    split <;> omega
  rw [cursorUp_eq]
  exact .ite (hmoved.touched _) hmoved

theorem cursorDown_confined (h : s.Wf) (hm : s.InMargins) (hn : s.ParamFits n) :
    Confined s (s.cursorDown n) := by
  have hmar := h.margins
  have hone := hn.atLeastOne h
  have hy := hm
  unfold InMargins at hy
  have hsum : cint (s.cursorY + Screen.atLeastOne n) = s.cursorY + Screen.atLeastOne n :=
    cint_of_isInt ⟨by omega, by omega⟩
  have hmoved : Confined s { s with cursorY := s.downRow n } := by
    refine .moved ?_
    unfold downRow
    rw [hsum, if_pos hy.2]
    split <;> omega
  rw [cursorDown_eq]
  exact .ite (hmoved.touched _) hmoved

end Screen

/-! ## Tokens

`TokenType.staysInMargins` lists the tokens. Those that set the margins or the
cursor to a given row are not among them, and neither is ED, which clears rows
on both sides of the margins. -/

/-- Text, CR, LF, VT, FF, BS, HT, IND, NEL, RI, CUU, CUD, CUF, CUB, CHA, EL, ECH,
ICH, DCH, IL, DL, SU, SD and SGR. -/
def TokenType.staysInMargins : TokenType → Bool
  | .cc code => 8 ≤ code && code ≤ 13
  | .string | .asciiString | .ind | .nel | .ri | .cuu | .cud | .cuf | .cub | .cha | .el | .ech
  | .insblnk | .delch | .insln | .delln | .su | .sd | .sgr => true
  | _ => false

namespace Screen

variable {s s' : Screen}

theorem dispatch_confined {tok : VT100TCC} (h : s.Wf) (hm : s.InMargins)
    (htype : tok.type.staysInMargins = true)
    (hparam : tok.type.counts = true → s.ParamFits (tok.csi.p.cell 0))
    (hok : s.dispatch F t tok = .ok s') : Confined s s' := by
  have hy := hm.onScreen h
  obtain ⟨type, string, code, csi⟩ := tok
  cases type with
  | string => exact putString_confined h hm hok
  | asciiString => exact putString_confined h hm hok
  | cc code =>
      simp only [TokenType.staysInMargins, Bool.and_eq_true, decide_eq_true_eq] at htype
      exact putControl_confined h hm htype hok
  | cub => exact (columnMove_confined hm _).of_ok hok
  | cuf => exact (columnMove_confined hm _).of_ok hok
  | cha => exact (cursorToX_confined hm _).of_ok hok
  | cuu => exact (cursorUp_confined h hm (hparam rfl)).of_ok hok
  | cud => exact (cursorDown_confined h hm (hparam rfl)).of_ok hok
  | el => exact .of_row (eraseInLine_draws hok) hm (eraseInLine_changes h hy hok)
  | ech =>
      have hp := hparam rfl
      exact .of_row (eraseCharacters_draws hok) hm
        (eraseCharacters_changes h hy hp.1 (hp.column h) hok)
  | insblnk =>
      have hp := hparam rfl
      exact .of_row (insertBlank_draws hok) hm (insertBlank_changes h hy hp.1 (hp.column h) hok)
  | delch =>
      have hp := hparam rfl
      exact .of_row (deleteCharacters_draws hok) hm
        (deleteCharacters_changes h hp.1 (hp.column h) hok)
  | insln =>
      have hc := insertLines_changes h ((hparam rfl).linesFit h hm) hok
      exact .of_changes (insertLines_draws hok) hm (hc.mono hm.below)
  | delln =>
      have hc := deleteLines_changes h ((hparam rfl).linesFit h hm) hok
      exact .of_changes (deleteLines_draws hok) hm (hc.mono hm.below)
  | su =>
      exact .forUp (fun _ s₁ s₂ hwf hm₁ hs => ⟨scrollUp_wf hwf hs, scrollUp_confined hwf hm₁ hs⟩)
        h hm hok
  | sd =>
      exact .forUp (fun _ s₁ s₂ hwf hm₁ hs =>
        ⟨(scrollDown_draws hs).wf hwf, scrollDown_confined hwf hm₁ hs⟩) h hm hok
  | nel =>
      have hhome := withCursorX_confined hm 0
      have hwf := h.withCursorX (Int.le_refl 0) h.width_pos
      exact hhome.trans (index_confined hwf hhome.row hok)
  | ind => exact index_confined h hm hok
  | ri => exact reverseIndex_confined h hm hok
  | sgr => exact (Confined.refl hm).of_ok hok
  | _ => cases htype

theorem putToken_confined {tok : VT100TCC} (h : s.Wf) (hm : s.InMargins)
    (htype : tok.type.staysInMargins = true)
    (hparam : tok.type.counts = true → s.ParamFits (tok.csi.p.cell 0))
    (hok : s.putToken F t tok = .ok s') : Confined s s' := by
  obtain ⟨s₁, h₁, hok⟩ := bind_eq_ok.mp hok
  have hc := dispatch_confined h hm htype hparam h₁
  exact Confined.of_ok (.ite (hc.touched _) hc) hok

/-! ## Rows

The relation is about cells by the number of their row; here it is turned into
one about the lists that a reader sees. -/

/-- Outside the region no row has changed, and neither has the scrollback. -/
theorem Confined.rows (h : s.Wf) (h' : s'.Wf) (hc : Confined s s') (hfull : ¬s.FullMargins) :
    s'.scrollbackRows = s.scrollbackRows ∧
      ∀ y : Nat, (y : Int) < s.scrollTop ∨ s.scrollBottom < y →
        s'.visibleRows[y]? = s.visibleRows[y]? := by
  have hcells := hc.cells hfull
  have hring := hcells.ring
  have hcount := h.count_range
  have hm := h.margins
  have htotal : s.totalHeight = s.maxScrollbackLines + s.height := rfl
  constructor
  · refine h.scrollbackRows_congr h' hring.width_eq hring.count_eq fun i x hi hi' hx hx' => ?_
    refine hcells.cells i x hi (by omega) hx hx' ?_
    unfold InRegion RowsBetween
    omega
  · intro y hy
    have hlen := h.visibleRows_length
    have hlen' := h'.visibleRows_length
    rw [hring.height_eq] at hlen'
    by_cases hlt : y < s.visibleRows.length
    · have hlt' : y < s'.visibleRows.length := by omega
      rw [List.getElem?_eq_getElem hlt, List.getElem?_eq_getElem hlt', visibleRows_getElem s hlt,
        visibleRows_getElem s' hlt', hring.count_eq]
      refine congrArg some (row_congr hring.width_eq fun x hx hx' => ?_)
      refine hcells.cells _ x (by omega) (by omega) hx hx' ?_
      unfold InRegion RowsBetween
      omega
    · rw [List.getElem?_eq_none (by omega), List.getElem?_eq_none (by omega)]

end Screen

namespace VT100

variable {v v' : VT100} {tok : VT100TCC}

/-- A token that `getNextToken` delivers somewhere. -/
def Delivered (F : Foundation) (tok : VT100TCC) : Prop :=
  ∃ v v' : VT100, v.getNextToken F = .ok (tok, v')

/-- What `getNextToken` and `readInputStream:` do with a token once it has been decoded: the
attributes and modes it carries are set in the terminal, and the token is executed on the
screen. -/
def execute (F : Foundation) (v : VT100) (tok : VT100TCC) : Res VT100 := do
  let v ← v.setMode tok
  let v ← v.setCharAttr tok
  v.processToken F tok

/-- A token of the language of `margins_confine`, with a parameter that fits. -/
structure StaysInMargins (F : Foundation) (s : Screen) (tok : VT100TCC) : Prop where
  delivered : Delivered F tok
  type : tok.type.staysInMargins = true
  small : tok.type.counts = true → tok.csi.p.cell 0 < 2 ^ 31 - s.height - s.width

theorem StaysInMargins.setMode (htype : tok.type.staysInMargins = true) (v : VT100) :
    v.setMode tok = .ok v := by
  obtain ⟨type, string, code, csi⟩ := tok
  cases type with
  | cc code =>
      simp only [TokenType.staysInMargins, Bool.and_eq_true, decide_eq_true_eq] at htype
      unfold VT100.setMode
      simp only
      split <;> first | rfl | simp_all
  | _ => first | (cases htype; done) | rfl

theorem execute_wf (h : v.Wf) (hok : execute F v tok = .ok v') : v'.Wf := by
  obtain ⟨v₁, h₁, hok⟩ := bind_eq_ok.mp hok
  obtain ⟨v₂, h₂, hok⟩ := bind_eq_ok.mp hok
  exact processToken_wf (setCharAttr_wf (setMode_wf h h₁) h₂) hok

theorem execute_confined {s : Screen} (h : v.Wf) (hm : v.screen.InMargins)
    (hsize : v.screen.width = s.width ∧ v.screen.height = s.height) (htok : StaysInMargins F s tok)
    (hok : execute F v tok = .ok v') : v.screen.Confined v'.screen := by
  obtain ⟨u, u', hnext⟩ := htok.delivered
  have hparams := getNextToken_params hnext
  obtain ⟨v₁, h₁, hok⟩ := bind_eq_ok.mp hok
  obtain ⟨v₂, h₂, hok⟩ := bind_eq_ok.mp hok
  have hscreen : v₂.screen = v.screen := by
    obtain rfl := Except.ok.inj ((StaysInMargins.setMode htok.type v).symm.trans h₁)
    exact setCharAttr_screen h₂
  unfold processToken at hok
  split at hok
  · cases hok
    rw [hscreen]
    exact .refl hm
  · obtain ⟨s', hs, hok⟩ := bind_eq_ok.mp hok
    cases hok
    rw [hscreen] at hs
    refine Screen.putToken_confined h.screen hm htok.type (fun hcounts => ?_) hs
    have hsmall := htok.small hcounts
    exact ⟨hparams.nonneg hcounts, by omega⟩

theorem run_confined {toks : List VT100TCC} {s : Screen} (h : v.Wf) (hm : v.screen.InMargins)
    (hsize : v.screen.width = s.width ∧ v.screen.height = s.height)
    (htoks : ∀ tok ∈ toks, StaysInMargins F s tok)
    (hrun : toks.foldlM (execute F) v = .ok v') : v'.Wf ∧ v.screen.Confined v'.screen := by
  induction toks generalizing v with
  | nil =>
      cases hrun
      exact ⟨h, .refl hm⟩
  | cons tok toks ih =>
      rw [List.foldlM_cons] at hrun
      obtain ⟨v₁, h₁, hrun⟩ := bind_eq_ok.mp hrun
      have hc₁ := execute_confined h hm hsize (htoks tok List.mem_cons_self) h₁
      have hsize₁ := hc₁.size_eq
      obtain ⟨hwf, hc⟩ := ih (execute_wf h h₁) hc₁.row ⟨by omega, by omega⟩
        (fun tok htok => htoks tok (List.mem_cons_of_mem _ htok)) hrun
      exact ⟨hwf, hc₁.trans hc⟩

end VT100

end MobileTerminal
