import MobileTerminal.ShowsText
import MobileTerminal.SaveCursor

/-!
# The terminal does what it is for

Every token is executed as `Display` says, and so is a whole run of tokens
(`run_shows`): the code completes, and it ends with a screen that shows the
display which the same tokens make of the display that was shown before.

`Admits` says what a token needs: a cursor on the screen, a region that can
scroll, a count that does not overflow. These are the conditions under which the
code's own shortcuts are right. Apart from whether the region lies in front of
the wrap point, nothing of the state of the ring enters, so two objects that
show the same display and can both execute a run show the same after it.

The proof is by cases on the token, with the lemma of its operation for each
case (`dispatch`). Around that come the modes and the attributes: a token sets
them before it is executed, and what it needs of the screen it must still find
then (`Admits.setMode`). The run is the induction of the library on guarded
runs.
-/

namespace MobileTerminal

variable {F : Foundation} {t : Terminal}

namespace Screen

variable {s s' : Screen} {d : Display} {n : Int}

/-! ## The cursor -/

theorem atLeastOne_eq (n : Int) : atLeastOne n = max n 1 := by
  unfold atLeastOne
  split <;> omega

theorem clampPos_eq (pos limit : Int) (h : 1 ≤ limit) :
    clampPos pos limit = Display.clamp limit pos := by
  unfold clampPos Display.clamp
  repeat' split
  all_goals omega

namespace Shows

theorem cursorLeft (h : Shows t s d) (hwf : s.Wf) (hn : s.ParamFits n) :
    Shows t (s.cursorLeft n) { d with cursorX := max 0 (d.cursorX - max n 1) } := by
  have hcol := hwf.column
  have hh := hwf.height_pos
  unfold ParamFits at hn
  have hsum : cint (s.cursorX - max n 1) = s.cursorX - max n 1 :=
    cint_of_isInt ⟨by omega, by omega⟩
  have hx : (if s.cursorX - max n 1 < 0 then 0 else s.cursorX - max n 1) =
      max 0 (d.cursorX - max n 1) := by
    rw [h.cursorX]
    split <;> omega
  rw [Screen.cursorLeft, atLeastOne_eq, hsum, hx, if_pos (by rw [h.cursorX]; omega)]
  exact (h.withCursorX _).touch _

theorem cursorRight (h : Shows t s d) (hwf : s.Wf) (hn : s.ParamFits n) :
    Shows t (s.cursorRight n) { d with cursorX := min (d.width - 1) (d.cursorX + max n 1) } := by
  have hcol := hwf.column
  have hh := hwf.height_pos
  unfold ParamFits at hn
  have hsum : cint (s.cursorX + max n 1) = s.cursorX + max n 1 :=
    cint_of_isInt ⟨by omega, by omega⟩
  have hx : (if s.cursorX + max n 1 ≥ s.width then s.width - 1 else s.cursorX + max n 1) =
      min (d.width - 1) (d.cursorX + max n 1) := by
    rw [h.cursorX, h.width]
    split <;> omega
  rw [Screen.cursorRight, atLeastOne_eq, hsum, hx, if_pos (by rw [h.cursorX, h.width]; omega)]
  exact (h.withCursorX _).touch _

/-- A cursor above the region must not be sent above the screen. -/
theorem cursorUp (h : Shows t s d) (hwf : s.Wf) (hy : s.OnScreen) (hn : s.ParamFits n)
    (hrow : s.scrollTop ≤ s.cursorY ∨ max n 1 ≤ s.cursorY) :
    Shows t (s.cursorUp n) (d.cursorUp n) := by
  have hw := hwf.width_pos
  have hm := hwf.margins
  unfold OnScreen at hy
  unfold ParamFits at hn
  have hsum : cint (s.cursorY - max n 1) = s.cursorY - max n 1 :=
    cint_of_isInt ⟨by omega, by omega⟩
  have hrow' : (if s.cursorY ≥ s.scrollTop then
      (if s.cursorY - max n 1 < s.scrollTop then s.scrollTop else s.cursorY - max n 1)
      else s.cursorY - max n 1) =
      max (if d.scrollTop ≤ d.cursorY then d.scrollTop else 0) (d.cursorY - max n 1) := by
    rw [h.cursorY, h.scrollTop]
    repeat' split
    all_goals omega
  rw [Screen.cursorUp, atLeastOne_eq, hsum]
  dsimp only
  rw [hrow']
  exact (h.withCursorY _).touch_ite _

theorem cursorDown (h : Shows t s d) (hwf : s.Wf) (hy : s.OnScreen) (hn : s.ParamFits n)
    (hrow : s.cursorY ≤ s.scrollBottom ∨ s.cursorY + max n 1 < s.height) :
    Shows t (s.cursorDown n) (d.cursorDown n) := by
  have hw := hwf.width_pos
  have hm := hwf.margins
  unfold OnScreen at hy
  unfold ParamFits at hn
  have hsum : cint (s.cursorY + max n 1) = s.cursorY + max n 1 :=
    cint_of_isInt ⟨by omega, by omega⟩
  have hrow' : (if s.cursorY ≤ s.scrollBottom then
      (if s.cursorY + max n 1 > s.scrollBottom then s.scrollBottom else s.cursorY + max n 1)
      else s.cursorY + max n 1) =
      min (if d.cursorY ≤ d.scrollBottom then d.scrollBottom else d.height - 1)
        (d.cursorY + max n 1) := by
    rw [h.cursorY, h.scrollBottom, h.height]
    repeat' split
    all_goals omega
  rw [Screen.cursorDown, atLeastOne_eq, hsum]
  dsimp only
  rw [hrow']
  exact (h.withCursorY _).touch_ite _

theorem cursorToX (h : Shows t s d) (hwf : s.Wf) (hn : s.ParamFits n) :
    Shows t (s.cursorToX n) { d with cursorX := Display.clamp d.width (n - 1) } := by
  have hw := hwf.width_pos
  have hh := hwf.height_pos
  unfold ParamFits at hn
  have hx : clampPos (cint (n - 1)) s.width = Display.clamp d.width (n - 1) := by
    rw [cint_of_isInt ⟨by omega, by omega⟩, clampPos_eq _ _ hw, h.width]
  rw [Screen.cursorToX, hx]
  exact (h.withCursorX _).touch _

theorem cursorToXY (h : Shows t s d) (hwf : s.Wf) {x y : Int} (hx : IsInt (x - 1))
    (hy : IsInt (y - 1)) (horigin : IsInt (y - 1 + s.scrollTop)) :
    Shows t (s.cursorToXY t x y) (d.cursorToXY x y) := by
  have hmode : d.originMode = t.originMode := congrArg Controls.originMode h.controls.symm
  have hcol : clampPos (cint (x - 1)) s.width = Display.clamp d.width (x - 1) := by
    rw [cint_of_isInt hx, clampPos_eq _ _ hwf.width_pos, h.width]
  have hrow : clampPos (if t.originMode then cint (cint (y - 1) + s.scrollTop) else cint (y - 1))
      s.height =
        Display.clamp d.height (if d.originMode then y - 1 + d.scrollTop else y - 1) := by
    rw [hmode, cint_of_isInt hy, cint_of_isInt horigin, clampPos_eq _ _ hwf.height_pos, h.height,
      h.scrollTop]
  rw [Screen.cursorToXY, hcol, hrow]
  exact (h.withCursor _ _).touch _

theorem saveCursor (h : Shows t s d) (hwf : s.Wf) (hy : s.OnScreen) :
    Shows t s.saveCursorPosition d.saveCursor := by
  have hcol := hwf.column
  unfold OnScreen at hy
  have hsave : s.saveCursorPosition =
      { s with saveCursorX := s.cursorX, saveCursorY := s.cursorY, saveCharset := s.charset } := by
    simp only [saveCursorPosition, if_neg (show ¬s.cursorX < 0 by omega),
      if_neg (show ¬s.cursorX ≥ s.width by omega), if_neg (show ¬s.cursorY < 0 by omega),
      if_neg (show ¬s.cursorY ≥ s.height by omega)]
  rw [hsave]
  exact ⟨congrArg (fun c : Controls => { c with
      saveCursorX := c.cursorX, saveCursorY := c.cursorY, saveCharset := c.charset }) h.controls,
    h.cells, h.saved, h.scrollback⟩

theorem restoreCursor (h : Shows t s d) (hwf : s.Wf)
    (hy : 0 ≤ s.saveCursorY ∧ s.saveCursorY < s.height) :
    Refines (Shows t) s.restoreCursorPosition d.restoreCursor := by
  rw [restoreCursorPosition, nsAssert_pos hwf.saved_column, nsAssert_pos hy]
  exact .ok ⟨congrArg (fun c : Controls => { c with
      cursorX := c.saveCursorX, cursorY := c.saveCursorY, charset := c.saveCharset }) h.controls,
    h.cells, h.saved, h.scrollback⟩

theorem setTopBottom (h : Shows t s d) (p0 p1 : Int) :
    Shows t (s.setTopBottom t p0 p1) (d.setTopBottom p0 p1) := by
  unfold Screen.setTopBottom Display.setTopBottom
  dsimp only
  by_cases hin : 0 ≤ (if p0 = 0 then 0 else p0 - 1) ∧ (if p0 = 0 then 0 else p0 - 1) ≤
      (if p1 = 0 then d.height - 1 else p1 - 1) ∧ (if p1 = 0 then d.height - 1 else p1 - 1) <
        d.height
  · rw [if_pos (by rw [h.height] at hin; omega), if_pos hin]
    exact ⟨congrArg (fun c : Controls => { c with
        scrollTop := if p0 = 0 then 0 else p0 - 1
        scrollBottom := if p1 = 0 then c.height - 1 else p1 - 1
        cursorX := 0
        cursorY := if c.originMode then (if p0 = 0 then 0 else p0 - 1) else 0 }) h.controls,
      h.cells, h.saved, h.scrollback⟩
  · rw [if_neg (by rw [h.height] at hin; omega), if_neg hin]
    exact h

/-! ## Tab stops -/

theorem nextStop (h : Shows t s d) (hwf : s.Wf) (hw : s.width < tabWindow) {x : Int}
    (hx : s.NextStop x) : d.nextStop = x := by
  have hcol := hwf.column
  have htabs : d.tabStop = s.tabStop := congrArg Controls.tabStop h.controls.symm
  have hstop : ∀ y, s.cursorX < y → y < s.width → (s.IsStop y ↔ s.tabStop.cell y = true) :=
    fun y hy hy' => ⟨fun hs => hs.2.2, fun hs => ⟨by omega, by omega, hs⟩⟩
  rw [Display.nextStop, h.cursorX, h.width, htabs]
  rcases hx with ⟨hlt, hxw, his, hnone⟩ | ⟨rfl, hnone⟩
  · have hfind : (List.range s.width.toNat).find?
        (fun z : Nat => decide (s.cursorX < z) && s.tabStop.cell z) = some x.toNat := by
      rw [List.find?_range_eq_some, Int.toNat_of_nonneg (by omega)]
      refine ⟨by simp [hlt, (hstop x hlt hxw).mp his], List.mem_range.mpr (by omega),
        fun z hz => ?_⟩
      by_cases hzx : s.cursorX < (z : Int)
      · have hno := mt (hstop z hzx (by omega)).mpr (hnone z hzx (by omega))
        simp [hno]
      · simp [hzx]
    rw [hfind]
    exact Int.toNat_of_nonneg (by omega)
  · have hfind : (List.range s.width.toNat).find?
        (fun z : Nat => decide (s.cursorX < z) && s.tabStop.cell z) = none := by
      rw [List.find?_range_eq_none]
      intro z hz
      by_cases hzx : s.cursorX < (z : Int)
      · have hno := mt (hstop z hzx (by omega)).mpr (hnone z hzx (by omega))
        simp [hno]
      · simp [hzx]
    rw [hfind]

theorem setTab (h : Shows t s d) (hwf : s.Wf) (hw : s.width < tabWindow) :
    Refines (Shows t) s.setTab { d with cursorX := d.nextStop } := by
  have hcol := hwf.column
  rcases setTab_cases hwf (by omega) with ⟨x, hok, hx, -⟩ | ⟨-, hwide, -⟩
  · rw [hok, h.nextStop hwf hw hx]
    exact .ok (h.withCursorX x)
  · omega

theorem markTab (h : Shows t s d) (hwf : s.Wf) (hx : s.cursorX < tabWindow) (v : Bool) :
    Refines (Shows t) (s.markTab v) (d.setTabStop v) := by
  have hcol := hwf.column
  rw [Screen.markTab, if_pos hcol.2, Block.store_of_lt v hcol.1 (by rw [hwf.tabs]; exact hx)]
  exact .ok ⟨congrArg (fun c : Controls => { c with tabStop := c.tabStop.set c.cursorX v })
    h.controls, h.cells, h.saved, h.scrollback⟩

end Shows

/-! ## Tokens -/

/-- What a line feed needs, when it is not sent to the printer. -/
def FeedFits (s : Screen) : Prop :=
  s.OnScreen ∧ (s.cursorY = s.scrollBottom → s.ScrollsUp) ∧ ¬s.BelowRegion

def AdmitsControl (s : Screen) (code : Nat) : Prop :=
  match code with
  | 9 => s.width < tabWindow
  | 10 => s.printToAnsi = false → s.FeedFits
  | 11 => s.printToAnsi = false → s.FeedFits
  | 12 => s.printToAnsi = false → s.FeedFits
  | 255 => s.OnScreen ∧ s.ParamFits 1
  | _ => True

/-- What a token needs of the screen it is executed on. -/
def Admits (s : Screen) (tok : VT100TCC) : Prop :=
  let p0 := tok.csi.p.cell 0
  let p1 := tok.csi.p.cell 1
  match tok.type with
  | .string | .asciiString => s.printToAnsi = false → s.OnScreen ∧ s.RoomForText
  | .cc code => s.AdmitsControl code
  | .cub | .cuf | .cha | .vpa => s.ParamFits p0
  | .cuu => s.OnScreen ∧ s.ParamFits p0 ∧ (s.scrollTop ≤ s.cursorY ∨ max p0 1 ≤ s.cursorY)
  | .cud => s.OnScreen ∧ s.ParamFits p0 ∧
      (s.cursorY ≤ s.scrollBottom ∨ s.cursorY + max p0 1 < s.height)
  | .cup | .hvp => s.ParamFits p0 ∧ s.ParamFits p1
  | .vpr => s.OnScreen ∧ s.ParamFits (p0 + s.cursorY + 1)
  | .decrc => 0 ≤ s.saveCursorY ∧ s.saveCursorY < s.height
  | .decsc | .el => s.OnScreen
  | .ed => s.OnScreen ∧ (p0 ≠ 1 → p0 ≠ 2 → s.EraseInFront)
  | .hts => s.cursorX < tabWindow
  | .tbc => p0 = 0 → s.cursorX < tabWindow
  | .nel | .ind => s.OnScreen ∧ (s.cursorY = s.scrollBottom → s.ScrollsUp)
  | .ri => s.cursorY = s.scrollTop → s.scrollTop < s.scrollBottom ∧ s.RegionInFront
  | .ech | .insblnk | .delch => s.OnScreen ∧ s.ParamFits p0
  | .insln | .delln => s.LinesFit p0 ∧ s.cursorY ≤ s.scrollBottom
  | .su => s.ScrollsUp ∧ (s.FullMargins → s.cursorY = s.height - 1)
  | .sd => s.scrollTop < s.scrollBottom ∧ s.RegionInFront
  | _ => True

namespace Shows

theorem backSpace (h : Shows t s d) (hwf : s.Wf) :
    Shows t s.backSpace { d with cursorX := max (d.cursorX - 1) 0 } := by
  have hcol := hwf.column
  have hback : s.backSpace = { s with cursorX := max (d.cursorX - 1) 0 } := by
    rw [h.cursorX, Screen.backSpace]
    split
    · rw [max_eq_left (by omega)]
    · rw [max_eq_right (by omega), show (0 : Int) = s.cursorX by omega]
  rw [hback]
  exact h.withCursorX _

theorem putControl (h : Shows t s d) (hwf : s.Wf) {code : Nat} (hadmits : s.AdmitsControl code) :
    Refines (Shows t) (s.putControl t code) (d.putControl code) := by
  have hcol := hwf.column
  unfold Screen.putControl
  split
  case h_1 => exact .ok ⟨congrArg (fun c : Controls => { c with soundBell := true }) h.controls,
    h.cells, h.saved, h.scrollback⟩
  case h_2 => exact .ok (h.backSpace hwf)
  case h_3 => exact h.setTab hwf hadmits
  case h_4 => exact h.lineFeed hwf hadmits
  case h_5 => exact h.lineFeed hwf hadmits
  case h_6 => exact h.lineFeed hwf hadmits
  case h_7 => exact .ok (h.withCursorX 0)
  case h_8 =>
    have hh := hwf.height_pos
    obtain ⟨hy, hn⟩ := hadmits
    unfold ParamFits at hn
    exact h.deleteCharacters hwf hy (by decide) (by omega)
  case h_9 =>
    unfold Display.putControl
    split
    case h_9 => exact .ok h
    all_goals contradiction

theorem ParamFits_column (hwf : s.Wf) (hn : s.ParamFits n) : 0 ≤ n ∧ n + s.cursorX < 2 ^ 31 := by
  have hcol := hwf.column
  have hh := hwf.height_pos
  unfold ParamFits at hn
  omega

/-- Row and column from the parameters of a sequence. -/
theorem cursorToParams (h : Shows t s d) (hwf : s.Wf) {x y : Int} (hx : 0 ≤ x) (hx' : x < 2 ^ 31)
    (hy : s.ParamFits y) : Shows t (s.cursorToXY t x y) (d.cursorToXY x y) := by
  have hm := hwf.margins
  have hw := hwf.width_pos
  unfold ParamFits at hy
  exact h.cursorToXY hwf ⟨by omega, by omega⟩ ⟨by omega, by omega⟩ ⟨by omega, by omega⟩

theorem scrollUps (h : Shows t s d) (hwf : s.Wf) (hscroll : s.ScrollsUp)
    (hy : s.FullMargins → s.cursorY = s.height - 1) (n : Nat) :
    Refines (Shows t) (forUp (fun _ s => s.scrollUp t) 0 n s) (Display.scrollUp^[n] d) := by
  have hloop := Refines.forUp (R := fun s d => (s.Wf ∧ s.ScrollsUp ∧
      (s.FullMargins → s.cursorY = s.height - 1)) ∧ Shows t s d) (f := fun _ s => s.scrollUp t)
    (g := Display.scrollUp) ?_ 0 n ⟨⟨hwf, hscroll, hy⟩, h⟩
  · exact hloop.mono fun _ _ hs => hs.2
  · rintro - s₁ d₁ ⟨⟨hwf₁, hscroll₁, hy₁⟩, h₁⟩
    refine (h₁.scrollUp hwf₁ hscroll₁ hy₁).mono fun s₂ hok hs₂ => ⟨⟨scrollUp_wf hwf₁ hok, ?_⟩, hs₂⟩
    have hcontrols : s₂.controls t = s₁.controls t := by
      rw [hs₂.controls, h₁.controls]
      rfl
    have hsame : s₂.scrollTop = s₁.scrollTop ∧ s₂.scrollBottom = s₁.scrollBottom ∧
        s₂.height = s₁.height ∧ s₂.cursorY = s₁.cursorY :=
      ⟨congrArg Controls.scrollTop hcontrols, congrArg Controls.scrollBottom hcontrols,
        congrArg Controls.height hcontrols, congrArg Controls.cursorY hcontrols⟩
    have hfull : s₂.FullMargins ↔ s₁.FullMargins := by
      rw [FullMargins, FullMargins, hsame.1, hsame.2.1, hsame.2.2.1]
    refine ⟨?_, fun hf => by rw [hsame.2.2.2, hsame.2.2.1]; exact hy₁ (hfull.mp hf)⟩
    by_cases hf : s₁.FullMargins
    · exact Or.inl (hfull.mpr hf)
    · have hd := scrollUp_cells hwf₁ t (hscroll₁.resolve_left hf).1 hf (hscroll₁.resolve_left hf).2
      obtain ⟨s₃, h₃, hd, -⟩ := hd
      obtain rfl := Except.ok.inj (h₃.symm.trans hok)
      exact hd.scrollsUp hscroll₁

theorem scrollDowns (h : Shows t s d) (hwf : s.Wf) (hm : s.scrollTop < s.scrollBottom)
    (hfront : s.RegionInFront) (n : Nat) :
    Refines (Shows t) (forUp (fun _ s => s.scrollDown t) 0 n s) (Display.scrollDown^[n] d) := by
  have hloop := Refines.forUp (R := fun s d => (s.Wf ∧ s.scrollTop < s.scrollBottom ∧
      s.RegionInFront) ∧ Shows t s d) (f := fun _ s => s.scrollDown t)
    (g := Display.scrollDown) ?_ 0 n ⟨⟨hwf, hm, hfront⟩, h⟩
  · exact hloop.mono fun _ _ hs => hs.2
  · rintro - s₁ d₁ ⟨⟨hwf₁, hm₁, hfront₁⟩, h₁⟩
    refine (h₁.scrollDown hwf₁ hm₁ hfront₁).mono fun s₂ hok hs₂ => ?_
    have hd := scrollDown_draws hok
    refine ⟨⟨hd.wf hwf₁, ?_⟩, hs₂⟩
    obtain ⟨⟨b, d', line, fg, bg, w, -, -, rfl⟩, -⟩ := hd
    exact ⟨hm₁, hfront₁⟩

theorem designate (h : Shows t s d) (i : Int) (code : UInt8) :
    Shows t (s.designate i code) (d.designate i code) :=
  ⟨congrArg (fun c : Controls => { c with charset := c.charset.set i (code = 0x30) }) h.controls,
    h.cells, h.saved, h.scrollback⟩

theorem printAnsi (h : Shows t s d) (p : Int) : Shows t (s.printAnsi p) (d.printAnsi p) := by
  unfold Screen.printAnsi Display.printAnsi
  by_cases h4 : p = 4
  · rw [if_pos h4, if_pos h4]
    exact ⟨congrArg (fun c : Controls => { c with printPending := true }) h.controls,
      h.cells, h.saved, h.scrollback⟩
  · rw [if_neg h4, if_neg h4]
    by_cases h5 : p = 5
    · rw [if_pos h5, if_pos h5]
      exact ⟨congrArg (fun c : Controls =>
          { c with printToAnsiString := some [], printToAnsi := true }) h.controls,
        h.cells, h.saved, h.scrollback⟩
    · rw [if_neg h5, if_neg h5]
      exact ⟨congrArg (fun c : Controls =>
          { c with printToAnsiString := none, printToAnsi := false, printPending := true })
          h.controls, h.cells, h.saved, h.scrollback⟩

theorem columnMode (h : Shows t s d) (p : Int) :
    Shows t (if p = 3 ∧ t.allowColumnMode then
        { s with newWidth := if t.columnMode then 132 else 80, newHeight := s.height }
      else s)
      (if p = 3 ∧ d.allowColumnMode then
        { d with newWidth := if d.columnMode then 132 else 80, newHeight := d.height }
      else d) := by
  have hallow : d.allowColumnMode = t.allowColumnMode :=
    congrArg Controls.allowColumnMode h.controls.symm
  by_cases hp : p = 3 ∧ t.allowColumnMode
  · have hp' : p = 3 ∧ d.allowColumnMode := by
      rw [hallow]
      exact hp
    rw [if_pos hp, if_pos hp']
    exact ⟨congrArg (fun c : Controls => { c with
        newWidth := if c.columnMode then 132 else 80, newHeight := c.height }) h.controls,
      h.cells, h.saved, h.scrollback⟩
  · have hp' : ¬(p = 3 ∧ d.allowColumnMode) := by
      rw [hallow]
      exact hp
    rw [if_neg hp, if_neg hp']
    exact h

/-- Every token does to the screen what it does to the display. -/
theorem dispatch (h : Shows t s d) (hwf : s.Wf) (ht : t.Wf) {tok : VT100TCC}
    (hadmits : s.Admits tok) :
    Refines (Shows t) (s.dispatch F t tok) (d.putToken F tok) := by
  have hcol := hwf.column
  have hh := hwf.height_pos
  have hw := hwf.width_pos
  unfold Admits at hadmits
  unfold Screen.dispatch Display.putToken
  cases htype : tok.type <;> simp only [htype] at hadmits ⊢
  case string => exact h.putString hwf ht _ _ hadmits
  case asciiString => exact h.putString hwf ht _ _ hadmits
  case cc code => exact h.putControl hwf hadmits
  case cub => exact .ok (h.cursorLeft hwf hadmits)
  case cud => exact .ok (h.cursorDown hwf hadmits.1 hadmits.2.1 hadmits.2.2)
  case cuf => exact .ok (h.cursorRight hwf hadmits)
  case cup => exact .ok (h.cursorToParams hwf hadmits.2.1
    (by have := ParamFits_column hwf hadmits.2; omega) hadmits.1)
  case cuu => exact .ok (h.cursorUp hwf hadmits.1 hadmits.2.1 hadmits.2.2)
  case decaln => exact h.alignmentDisplay hwf
  case decrc => exact h.restoreCursor hwf hadmits
  case decsc => exact .ok (h.saveCursor hwf hadmits)
  case decstbm => exact .ok (h.setTopBottom _ _)
  case ed => exact h.eraseInDisplay hwf hadmits.1 _ hadmits.2
  case el => exact h.eraseInLine hwf hadmits _
  case hts => exact h.markTab hwf hadmits true
  case hvp => exact .ok (h.cursorToParams hwf hadmits.2.1
    (by have := ParamFits_column hwf hadmits.2; omega) hadmits.1)
  case nel =>
    exact (h.withCursorX 0).index (hwf.withCursorX (Int.le_refl 0) hw) hadmits.1 hadmits.2
  case ind => exact h.index hwf hadmits.1 hadmits.2
  case ri => exact h.reverseIndex hwf hadmits
  case cha => exact .ok (h.cursorToX hwf hadmits)
  case vpa =>
    have hn := hadmits
    unfold ParamFits at hn
    have := h.cursorToParams hwf (x := s.cursorX + 1) (by omega) (by omega) hadmits
    rw [h.cursorX]
    exact .ok this
  case vpr =>
    have hn := hadmits.2
    unfold ParamFits at hn
    have := h.cursorToParams hwf (x := s.cursorX + 1) (by omega) (by omega) hadmits.2
    rw [h.cursorX, h.cursorY, cint_of_isInt ⟨by omega, by omega⟩]
    exact .ok this
  case ech =>
    have hn := ParamFits_column hwf hadmits.2
    exact h.eraseCharacters hwf hadmits.1 hn.1 hn.2
  case insblnk =>
    have hn := ParamFits_column hwf hadmits.2
    exact h.insertBlank hwf hadmits.1 hn.1 hn.2
  case delch =>
    have hn := ParamFits_column hwf hadmits.2
    exact h.deleteCharacters hwf hadmits.1 hn.1 hn.2
  case insln => exact h.insertLines hwf hadmits.1 hadmits.2
  case delln => exact h.deleteLines hwf hadmits.1 hadmits.2
  case su => exact h.scrollUps hwf hadmits.1 hadmits.2 _
  case sd => exact h.scrollDowns hwf hadmits.1 hadmits.2 _
  case scs0 => exact .ok (h.designate 0 _)
  case scs1 => exact .ok (h.designate 1 _)
  case scs2 => exact .ok (h.designate 2 _)
  case scs3 => exact .ok (h.designate 3 _)
  case tbc =>
    refine Refines.ite (fun _ => .ok ?_) fun _ => Refines.ite (fun h0 => ?_) fun _ => .ok h
    · exact ⟨congrArg (fun c : Controls => { c with tabStop := Block.alloc tabWindow false })
        h.controls, h.cells, h.saved, h.scrollback⟩
    · exact h.markTab hwf (hadmits h0) false
  case decset => exact .ok (h.columnMode _)
  case decrst => exact .ok (h.columnMode _)
  case print => exact .ok (h.printAnsi _)
  all_goals exact .ok h

theorem putToken (h : Shows t s d) (hwf : s.Wf) (ht : t.Wf) {tok : VT100TCC}
    (hadmits : s.Admits tok) :
    Refines (Shows t) (s.putToken F t tok) (d.putToken F tok) := by
  obtain ⟨s', hok, hs'⟩ := h.dispatch (F := F) hwf ht hadmits
  exact ⟨_, by rw [Screen.putToken, hok, ok_bind], hs'.touch_ite _⟩

/-! ## The alternate buffer -/

theorem saveBuffer (h : Shows t s d) (hwf : s.Wf) :
    Refines (Shows t) s.saveBuffer (d.swap true) := by
  obtain ⟨s', hok⟩ := saveBuffer_total hwf
  obtain ⟨temp, rfl, hsaved⟩ := saveBuffer_spec hwf hok
  refine ⟨_, hok, h.controls, h.cells, ?_, h.scrollback⟩
  refine Option.Rel.some fun y x hy hy' hx hx' => ?_
  exact (congrArg ScreenChar.ch (hsaved y x hy hy' hx hx')).trans (h.cells y x hy hy' hx hx')

theorem restoreBuffer (h : Shows t s d) (hwf : s.Wf) :
    Refines (Shows t) s.restoreBuffer (d.swap false) := by
  obtain ⟨s', hok⟩ := restoreBuffer_total hwf
  have hd := restoreBuffer_draws hok
  have hsaved := h.saved
  rw [Display.swap, if_neg Bool.false_ne_true]
  cases htemp : s.tempBuffer with
  | none =>
      rw [htemp] at hsaved
      rw [Screen.restoreBuffer, htemp] at hok
      cases hok
      cases hdisplay : d.saved with
      | none => exact ⟨s, by rw [Screen.restoreBuffer, htemp], h⟩
      | some g =>
          rw [hdisplay] at hsaved
          cases hsaved
  | some temp =>
      obtain ⟨hnone, hback, hcells⟩ := restoreBuffer_spec hwf htemp hok
      rw [htemp] at hsaved
      cases hdisplay : d.saved with
      | none =>
          rw [hdisplay] at hsaved
          cases hsaved
      | some g =>
          rw [hdisplay] at hsaved
          obtain ⟨hg⟩ := hsaved
          refine ⟨s', hok, hd.controls_eq.trans h.controls, fun y x hy hy' hx hx' => ?_, ?_, ?_⟩
          · rw [hd.height_eq] at hy'
            rw [hd.width_eq] at hx'
            rw [hcells y x hy hy' hx hx']
            exact hg y x hy hy' hx hx'
          · rw [hnone]
            exact Option.Rel.none
          · rw [hback]
            exact h.scrollback

end Shows

end Screen

namespace VT100

variable {v v' : VT100} {d : Display} {tok : VT100TCC}

/-! ## Modes -/

def Displays (v : VT100) (d : Display) : Prop := v.Wf ∧ Screen.Shows v.terminal v.screen d

theorem shows_modes {t t' : Terminal} {s : Screen} (h : Screen.Shows t s d)
    {f : Controls → Controls} (hf : s.controls t' = f (s.controls t)) :
    Screen.Shows t' s { d with toControls := f d.toControls } :=
  ⟨hf.trans (congrArg f h.controls), h.cells, h.saved, h.scrollback⟩

/-- The terminal is in other modes, but none that the display knows. -/
theorem shows_other {t t' : Terminal} {s : Screen} (h : Screen.Shows t s d)
    (hf : s.controls t' = s.controls t) : Screen.Shows t' s d :=
  ⟨hf.trans h.controls, h.cells, h.saved, h.scrollback⟩

theorem setPrivateMode_shows (h : v.Displays d) (p : Int) (mode : Bool) :
    Refines (fun v d => Screen.Shows v.terminal v.screen d) (v.setPrivateMode p mode)
      (d.setPrivateMode p mode) := by
  obtain ⟨hwf, h⟩ := h
  unfold setPrivateMode
  split
  case h_4 => exact .ok (shows_modes h (f := fun c => { c with columnMode := mode }) rfl)
  case h_6 =>
    obtain ⟨s', hs', hd, hb⟩ := Screen.setDirty_spec hwf.screen
    rw [hs', ok_bind]
    exact .ok (shows_other (h.unseen hwf.screen hd hb) rfl)
  case h_7 => exact .ok (shows_modes h (f := fun c => { c with originMode := mode }) rfl)
  case h_11 => exact .ok (shows_modes h (f := fun c => { c with allowColumnMode := mode }) rfl)
  case h_12 =>
    have hswap : Refines (Screen.Shows v.terminal)
        (if mode then v.screen.saveBuffer else v.screen.restoreBuffer) (d.swap mode) := by
      cases mode with
      | true => exact h.saveBuffer hwf.screen
      | false => exact h.restoreBuffer hwf.screen
    obtain ⟨s', hs', hshows⟩ := hswap
    rw [hs', ok_bind]
    exact .ok hshows
  case h_16 =>
    unfold Display.setPrivateMode
    split
    case h_5 => exact .ok h
    all_goals contradiction
  all_goals exact .ok (shows_other h rfl)

theorem setMode_control {code : Nat} (htype : tok.type = .cc code) (h15 : code ≠ 15)
    (h14 : code ≠ 14) : d.setMode tok = d := by
  unfold Display.setMode
  rw [htype]
  split <;> simp_all

theorem setMode_shows (h : v.Displays d) (tok : VT100TCC) :
    Refines Displays (v.setMode tok) (d.setMode tok) := by
  have hstep : Refines (fun v d => Screen.Shows v.terminal v.screen d) (v.setMode tok)
      (d.setMode tok) := by
    cases htype : tok.type
    case cc code =>
      by_cases h15 : code = 15
      · subst h15
        rw [setMode, htype, Display.setMode, htype]
        exact .ok (shows_modes h.2 (f := fun c => { c with shift := 0 }) rfl)
      · by_cases h14 : code = 14
        · subst h14
          rw [setMode, htype, Display.setMode, htype]
          exact .ok (shows_modes h.2 (f := fun c => { c with shift := 1 }) rfl)
        · rw [setMode_control htype h15 h14, setMode, htype]
          split
          all_goals first
            | contradiction
            | exact .ok (shows_other h.2 rfl)
            | (rename_i heq; cases heq; contradiction)
    all_goals rw [setMode, htype, Display.setMode, htype]; dsimp only
    case decset => exact setPrivateMode_shows h _ true
    case decrst => exact setPrivateMode_shows h _ false
    case sm =>
      refine .ok ?_
      split
      · exact shows_other h.2 rfl
      · exact h.2
    case rm =>
      refine .ok ?_
      split
      · exact shows_other h.2 rfl
      · exact h.2
    case decrc => exact .ok (shows_modes h.2 (f := fun c => { c with shift := c.saveShift }) rfl)
    case decsc => exact .ok (shows_modes h.2 (f := fun c => { c with saveShift := c.shift }) rfl)
    all_goals exact .ok (shows_other h.2 rfl)
  exact hstep.mono fun v' hok hs => ⟨setMode_wf h.1 hok, hs⟩

/-! ## Runs

A token that is fetched sets its mode and its attributes before it is executed,
and none of this takes from the screen what the token needs. -/

theorem ite_controls {p : Prop} [Decidable p] {s : Screen} {a b : Terminal} {c : Controls}
    (ha : s.controls a = c) (hb : s.controls b = c) : s.controls (if p then a else b) = c := by
  split
  · exact ha
  · exact hb

theorem charAttr_controls (s : Screen) (n : Int) (t : Terminal) :
    s.controls (t.charAttr n) = s.controls t := by
  unfold Terminal.charAttr
  repeat' apply ite_controls
  all_goals rfl

theorem setCharAttr_controls (s : Screen) {t t' : Terminal} (hok : t.setCharAttr tok = .ok t') :
    s.controls t' = s.controls t := by
  unfold Terminal.setCharAttr at hok
  split at hok
  · split at hok
    · cases hok
      rfl
    · exact Terminal.setCharAttrFrom_inv (P := fun t' => s.controls t' = s.controls t)
        (fun t n ht => (charAttr_controls s n t).trans ht) (fun t ht => ht) (fun t ht => ht) rfl hok
  · cases hok
    rfl

theorem setCharAttr_shows (h : v.Displays d) (hsize : tok.csi.p.size = csiParamMax)
    (hcount : tok.csi.count ≤ csiParamMax) : Refines Displays (v.setCharAttr tok) d := by
  obtain ⟨v', hok, -⟩ := setCharAttr_total hsize hcount v
  refine ⟨v', hok, setCharAttr_wf h.1 hok, ?_⟩
  obtain ⟨t', ht', hok⟩ := bind_eq_ok.mp hok
  cases hok
  exact shows_other h.2 (setCharAttr_controls v.screen ht')

/-- What a token needs of the object: a record of parameters, and what the screen needs. -/
structure Admits (v : VT100) (tok : VT100TCC) : Prop where
  size : tok.csi.p.size = csiParamMax
  count : tok.csi.count ≤ csiParamMax
  screen : v.screen.Admits tok

/-- A token that needs anything of the screen finds it as it was fetched. -/
theorem Admits.setMode (h : v.Admits tok) (hok : v.setMode tok = .ok v') :
    v'.screen.Admits tok := by
  have hscreen := h.screen
  by_cases hset : tok.type = .decset ∨ tok.type = .decrst
  · rcases hset with hset | hset <;> simp only [Screen.Admits, hset]
  · rw [not_or] at hset
    have hsame : v'.screen = v.screen := by
      unfold VT100.setMode at hok
      split at hok
      case h_1 => exact absurd ‹_› hset.1
      case h_2 => exact absurd ‹_› hset.2
      case h_3 =>
        cases hok
        split <;> rfl
      case h_4 =>
        cases hok
        split <;> rfl
      all_goals cases hok; rfl
    rw [hsame]
    exact hscreen

theorem processToken_shows (h : v.Displays d) (hadmits : v.screen.Admits tok) :
    Refines Displays (v.processToken F tok) (d.putToken F tok) := by
  obtain ⟨s', hok, hs'⟩ := h.2.putToken (F := F) h.1.screen h.1.terminal hadmits
  have hrun : Refines (fun v d => Screen.Shows v.terminal v.screen d) (v.processToken F tok)
      (d.putToken F tok) := by
    unfold processToken
    split
    · rename_i hskip
      have hsame : d.putToken F tok = d := by
        rcases hskip with hskip | hskip <;> rw [Display.putToken, hskip]
      rw [hsame]
      exact .ok h.2
    · rw [putToken, hok, ok_bind]
      refine .ok (shows_other hs' ?_)
      dsimp only
      split <;> rfl
  exact hrun.mono fun v' hok hs => ⟨processToken_wf h.1 hok, hs⟩

/-- A token that is fetched does to the object what it does to the display. -/
theorem execute_shows (h : v.Displays d) (hadmits : v.Admits tok) :
    Refines Displays (execute F v tok) (d.execute F tok) := by
  refine (setMode_shows h tok).bind (g := fun d => d.putToken F tok) fun v₁ hok₁ h₁ => ?_
  refine (setCharAttr_shows h₁ hadmits.size hadmits.count).bind (g := fun d => d.putToken F tok)
    fun v₂ hok₂ h₂ => ?_
  refine processToken_shows h₂ ?_
  rw [setCharAttr_screen hok₂]
  exact hadmits.setMode hok₁

/-- A run of tokens completes, and shows what the tokens make of the display. -/
theorem run_shows {toks : List VT100TCC} (h : v.Displays d)
    (hrun : Guarded (execute F) Admits v toks) :
    Refines Displays (toks.foldlM (execute F) v) (toks.foldl (Display.execute F) d) :=
  hrun.refines (g := Display.execute F) (fun _ _ _ h hadmits => execute_shows h hadmits) h

end VT100

end MobileTerminal
