import MobileTerminal.Scrollback
import MobileTerminal.SaveCursor

/-!
# The alternate screen

`DECSET 47` copies the visible rows into a block of their own and `DECRST 47`
copies them back, each in one or two pieces depending on where the screen lies
in the ring at that moment. The two moments need not agree: line feeds in
between may have rotated the ring, so that rows which were saved in one piece
are restored in two.

In between, the block is not touched by any token but these two, and only a
resize changes the size (`step_buffer`). So what comes back is what was saved,
wherever the ring has turned to (`alternate_inverse`), the scrollback is not
changed by either token, and a second `DECRST 47` has no block to restore from
and changes nothing.

`SavedIn` says that a block holds the visible rows, and it is the only
connection between the two halves of the proof. Saving establishes it and
restoring uses it, and both go through `viewLine_cases`, which says where in the
buffer a visible row stands.

A token is a `Swap` when it is fetched and executed and its mode is 47. The
controls embedded in its own bytes run before the buffer is copied, so the rows
that are saved are those of the screen they leave.
-/

namespace MobileTerminal

variable {F : Foundation}

namespace Screen

variable {s s' : Screen}

/-- The line of the buffer that holds visible row `y`. -/
def viewLine (s : Screen) (y : Int) : Int := wrapLine s.totalHeight (s.topLine + y)

theorem Wf.visibleCell_line (h : s.Wf) (y x : Int) :
    s.visibleCell y x = s.bufferLines.cell (s.viewLine y * s.realWidth + x) := by
  have hl := h.lineFrom_line y s.topLine
  rw [← h.top_aligned] at hl
  rw [visibleCell, hl, viewLine]

/-- Visible rows are copied from or to the lines of the ring: the first ones stand from
`screen_top` on, those that wrap around at the start of the buffer. -/
theorem Wf.viewLine_cases (h : s.Wf) {y : Int} (hy' : y < s.height) :
    (s.wrappedLines ≤ 0 ∨ y < s.height - s.wrappedLines) ∧ s.viewLine y = s.topLine + y ∨
      0 < s.wrappedLines ∧ s.height - s.wrappedLines ≤ y ∧
        s.viewLine y = y - (s.height - s.wrappedLines) := by
  have ht := h.top_range
  have hT : s.totalHeight = s.maxScrollbackLines + s.height := rfl
  obtain ⟨hn, -⟩ := h.wrapped_lines
  by_cases hwrap : s.topLine + y < s.totalHeight
  · refine Or.inl ⟨by omega, ?_⟩
    rw [viewLine, wrapLine_of_lt hwrap]
  · refine Or.inr ⟨by omega, by omega, ?_⟩
    rw [viewLine, wrapLine_of_ge (by omega)]
    omega

/-! ## Saving -/

/-- The block holds the visible rows, one after the other, each with the wrap mark behind its
last cell. -/
def SavedIn (s : Screen) (temp : Block ScreenChar) : Prop :=
  ∀ y x, 0 ≤ y → y < s.height → 0 ≤ x → x ≤ s.width →
    temp.cell (y * s.realWidth + x) = s.visibleCell y x

theorem saveBuffer_spec (h : s.Wf) (hok : s.saveBuffer = .ok s') :
    ∃ temp, s' = { s with tempBuffer := some temp } ∧ s.SavedIn temp := by
  obtain ⟨temp, htemp, hok⟩ := bind_eq_ok.mp hok
  cases hok
  refine ⟨temp, rfl, fun y x hy hy' hx hx' => ?_⟩
  have hxr : x < s.realWidth := by
    unfold realWidth
    omega
  rw [h.visibleCell_line]
  have hcases := h.viewLine_cases hy'
  split at htemp
  · rename_i hle
    rw [h.top_aligned, Int.mul_comm s.realWidth, ← Int.zero_mul s.realWidth] at htemp
    obtain ⟨-, rfl⟩ := Block.copy_eq_ok.mp htemp
    rw [Block.paste_lines_cell _ _ hx hxr, if_pos (by omega)]
    congr 3
    omega
  · rename_i hgt
    obtain ⟨temp₁, htemp₁, htemp⟩ := bind_eq_ok.mp htemp
    rw [h.top_aligned, ← Int.zero_mul s.realWidth] at htemp₁
    rw [← Int.zero_mul s.realWidth] at htemp
    obtain ⟨-, rfl⟩ := Block.copy_eq_ok.mp htemp₁
    obtain ⟨-, rfl⟩ := Block.copy_eq_ok.mp htemp
    rw [Block.paste_lines_cell _ _ hx hxr, Block.paste_lines_cell _ _ hx hxr]
    obtain ⟨hlow, hline⟩ | ⟨-, hhigh, hline⟩ := hcases
    · rw [if_neg (by omega), if_pos (by omega), hline]
      congr 3
      omega
    · rw [if_pos (by omega), hline]
      congr 3
      omega

/-! ## Restoring -/

/-- The buffer after the rows have been copied back. -/
theorem restored_cells (h : s.Wf) {temp b : Block ScreenChar}
    (hb : (if s.wrappedLines ≤ 0 then
        s.bufferLines.copy s.screenTop temp 0 (s.realWidth * s.height)
      else do
        let b ← s.bufferLines.copy s.screenTop temp 0 ((s.height - s.wrappedLines) * s.realWidth)
        b.copy 0 temp ((s.height - s.wrappedLines) * s.realWidth)
          (s.wrappedLines * s.realWidth) : Res _) = .ok b) {x : Int} (hx : 0 ≤ x)
    (hx' : x ≤ s.width) :
    (∀ y, 0 ≤ y → y < s.height →
      b.cell (s.viewLine y * s.realWidth + x) = temp.cell (y * s.realWidth + x)) ∧
    ∀ l, 0 ≤ l → l < s.totalHeight → (∀ y, 0 ≤ y → y < s.height → s.viewLine y ≠ l) →
      b.cell (l * s.realWidth + x) = s.bufferLines.cell (l * s.realWidth + x) := by
  have hxr : x < s.realWidth := by
    unfold realWidth
    omega
  have ht := h.top_range
  have hT : s.totalHeight = s.maxScrollbackLines + s.height := rfl
  obtain ⟨hn, -⟩ := h.wrapped_lines
  have hmax := h.max_pos
  split at hb
  · rename_i hle
    rw [h.top_aligned, Int.mul_comm s.realWidth, ← Int.zero_mul s.realWidth] at hb
    obtain ⟨-, rfl⟩ := Block.copy_eq_ok.mp hb
    constructor
    · intro y hy hy'
      have hcases := h.viewLine_cases hy'
      rw [Block.paste_lines_cell _ _ hx hxr, if_pos (by omega)]
      congr 3
      omega
    · intro l hl hl' hnot
      rw [Block.paste_lines_cell _ _ hx hxr, if_neg]
      rintro ⟨hlow, hhigh⟩
      have hcases := h.viewLine_cases (y := l - s.topLine) (by omega)
      exact hnot (l - s.topLine) (by omega) (by omega) (by omega)
  · rename_i hgt
    obtain ⟨b₁, hb₁, hb⟩ := bind_eq_ok.mp hb
    rw [h.top_aligned, ← Int.zero_mul s.realWidth] at hb₁
    rw [← Int.zero_mul s.realWidth] at hb
    obtain ⟨-, rfl⟩ := Block.copy_eq_ok.mp hb₁
    obtain ⟨-, rfl⟩ := Block.copy_eq_ok.mp hb
    constructor
    · intro y hy hy'
      rw [Block.paste_lines_cell _ _ hx hxr, Block.paste_lines_cell _ _ hx hxr]
      obtain ⟨hlow, hline⟩ | ⟨-, hhigh, hline⟩ := h.viewLine_cases hy'
      · rw [if_neg (by omega), if_pos (by omega)]
        congr 3
        omega
      · rw [if_pos (by omega)]
        congr 3
        omega
    · intro l hl hl' hnot
      rw [Block.paste_lines_cell _ _ hx hxr, Block.paste_lines_cell _ _ hx hxr, if_neg, if_neg]
      · rintro ⟨hlow, hhigh⟩
        have hcases := h.viewLine_cases (y := l - s.topLine) (by omega)
        exact hnot (l - s.topLine) (by omega) (by omega) (by omega)
      · rintro ⟨hlow, hhigh⟩
        have hcases := h.viewLine_cases (y := l + (s.height - s.wrappedLines)) (by omega)
        exact hnot (l + (s.height - s.wrappedLines)) (by omega) (by omega) (by omega)

theorem Wf.rowLine_viewLine (h : s.Wf) {y : Int} (hy : 0 ≤ y) (hy' : y < s.height) :
    s.viewLine y = s.rowLine (s.currentScrollbackLines + y) := h.wrap_top hy hy'

theorem restoreBuffer_spec (h : s.Wf) {temp : Block ScreenChar} (htemp : s.tempBuffer = some temp)
    (hok : s.restoreBuffer = .ok s') :
    s'.tempBuffer = none ∧ s'.scrollbackRows = s.scrollbackRows ∧
      ∀ y x, 0 ≤ y → y < s.height → 0 ≤ x → x ≤ s.width →
        s'.visibleCell y x = temp.cell (y * s.realWidth + x) := by
  have hd := restoreBuffer_draws hok
  have hwf' : s'.Wf := restoreBuffer_wf h hok
  simp only [restoreBuffer, htemp] at hok
  obtain ⟨b, hb, hok⟩ := bind_eq_ok.mp hok
  obtain ⟨s₁, h₁, hok⟩ := bind_eq_ok.mp hok
  have hbuf : s'.bufferLines = b := by
    have hb₁ := setDirty_bufferLines h₁
    cases hok
    exact hb₁
  refine ⟨?_, ?_, ?_⟩
  · cases hok
    rfl
  · refine h.scrollbackRows_congr hwf' hd.width_eq hd.count_eq fun i x hi hi' hx hx' => ?_
    have hT : s.totalHeight = s.maxScrollbackLines + s.height := rfl
    have hc := h.count_range
    have hh := h.height_pos
    have hrow : s'.rowLine i = s.rowLine i := hd.rowLine_eq i
    have hrw : s'.realWidth = s.realWidth := hd.realWidth_eq
    obtain ⟨hl, hl'⟩ := h.rowLine_range hi (by omega)
    rw [hwf'.cellAt_eq, h.cellAt_eq, hbuf, hrow, hrw]
    refine (restored_cells h hb hx hx').2 _ hl hl' fun y hy hy' => ?_
    rw [h.rowLine_viewLine hy hy', Ne, rowLine_inj (by omega) (by omega) hi (by omega)]
    omega
  · intro y x hy hy' hx hx'
    have htop : s'.topLine = s.topLine := hd.topLine_eq
    have hT : s'.totalHeight = s.totalHeight := hd.totalHeight_eq
    have hrw : s'.realWidth = s.realWidth := hd.realWidth_eq
    rw [hwf'.visibleCell_line, hbuf, viewLine, hT, htop, hrw]
    exact (restored_cells h hb hx hx').1 y hy hy'

end Screen

namespace VT100

variable {v v' : VT100} {tok : VT100TCC}

/-! ## Between saving and restoring

No step but a resize changes the size, and none but the two tokens the block.
The ring may turn, and the rows of the screen may be overwritten. -/

/-- Neither `DECSET 47` nor `DECRST 47` nor a resize. -/
def NoSwap (F : Foundation) (c : Config) : Event → Prop
  | .next => ∀ tok v', c.2.getNextToken F = .ok (tok, v') → ¬swapsBuffer tok
  | .setScreenSize _ _ => False
  | _ => True

/-- The saved buffer and the size. -/
structure SameBuffer (s s' : Screen) : Prop where
  temp : s'.tempBuffer = s.tempBuffer
  width : s'.width = s.width
  height : s'.height = s.height

theorem SameBuffer.refl (s : Screen) : SameBuffer s s := ⟨rfl, rfl, rfl⟩

theorem SameBuffer.trans {s s' s'' : Screen} (h : SameBuffer s s') (h' : SameBuffer s' s'') :
    SameBuffer s s'' :=
  ⟨h'.temp.trans h.temp, h'.width.trans h.width, h'.height.trans h.height⟩

theorem sameBuffer_of_keeps {s s' : Screen} (h : s.Keeps s') : SameBuffer s s' :=
  ⟨h.temp_eq, h.width_eq, h.height_eq⟩

theorem decodeControl_buffer {t : Terminal} {datap : List UInt8} {s s' : Screen} {n : Nat}
    (hok : decodeControl t datap s = .ok (tok, n, s')) : SameBuffer s s' :=
  decodeControl_inv (P := SameBuffer s)
    (fun _ _ _ hs hstep => hs.trans (sameBuffer_of_keeps (Screen.control_keeps hstep)))
    (.refl s) hok

theorem getNextToken_buffer (htok : ¬swapsBuffer tok) (hok : v.getNextToken F = .ok (tok, v')) :
    SameBuffer v.screen v'.screen := by
  cases getNextToken_fetches hok with
  | empty hp => exact .refl _
  | text hp htext h₁ =>
      rw [advance_screen h₁]
      exact .refl _
  | control hp hb hdecode hmode hattr h₁ =>
      rw [advance_screen h₁, setCharAttr_screen hattr]
      exact (decodeControl_buffer hdecode).trans
        (sameBuffer_of_keeps (setMode_draws htok hmode).keeps)
  | undecoded hp hb hdecode hwait h₁ =>
      rw [advance_screen h₁]
      exact .refl _
  | string hp hb hdecode hwait h₁ =>
      rw [advance_screen h₁]
      exact .refl _
  | unknown hp hb h₁ =>
      rw [advance_screen h₁]
      exact .refl _

theorem processToken_buffer (hok : v.processToken F tok = .ok v') :
    SameBuffer v.screen v'.screen := by
  unfold processToken at hok
  split at hok
  · cases hok
    exact .refl _
  · obtain ⟨s, hs, hok⟩ := bind_eq_ok.mp hok
    cases hok
    obtain ⟨hwidth, hheight, htemp⟩ := Screen.putToken_kept hs
    exact ⟨htemp, hwidth, hheight⟩

theorem step_buffer {c c' : Config} {e : Event} (hguard : NoSwap F c e) (hstep : Step F c e c') :
    SameBuffer c.2.screen c'.2.screen := by
  cases hstep with
  | put hok =>
      obtain ⟨-, hscreen⟩ := putStreamData_attrs hok
      rw [hscreen]
      exact .refl _
  | token hok hs => exact getNextToken_buffer (hguard _ _ hok) hok
  | stop hok hs hr =>
      have h₁ := getNextToken_buffer (hguard _ _ hok) hok
      obtain ⟨s, hs, hr⟩ := bind_eq_ok.mp hr
      cases hr
      exact h₁.trans (sameBuffer_of_keeps (Screen.refresh_draws hs).keeps)
  | exec hok => exact processToken_buffer hok
  | setScreenSize hok => exact hguard.elim
  | clearScreen hok =>
      obtain ⟨s, hs, hok⟩ := bind_eq_ok.mp hok
      cases hok
      exact sameBuffer_of_keeps (Screen.clearBuffer_keeps hs)

theorem path_buffer {c c' : Config} (hp : Path (Step F) (NoSwap F) c c') :
    SameBuffer c.2.screen c'.2.screen := by
  induction hp with
  | refl => exact .refl _
  | step hstep hguard _ ih => exact (step_buffer hguard hstep).trans ih

theorem path_wf {c c' : Config} (h : c.2.Wf) (hp : Path (Step F) (NoSwap F) c c') : c'.2.Wf := by
  induction hp with
  | refl => exact h
  | @step _ _ _ e hstep hguard _ ih =>
      refine ih (step_wf h ?_ hstep)
      cases e with
      | setScreenSize w h => exact hguard.elim
      | _ => exact trivial

/-! ## The two tokens -/

/-- `DECSET 47` or `DECRST 47` is fetched in `v` and executed, which leads to `v'`. The
controls embedded in its bytes, if any, have left the screen `s` when the buffer is
copied. -/
def Swap (F : Foundation) (type : TokenType) (v : VT100) (s : Screen) (v' : VT100) : Prop :=
  ∃ tok n v₁, v.getNextToken F = .ok (tok, v₁) ∧ tok.type = type ∧ tok.csi.p.cell 0 = 47 ∧
    decodeControl v.terminal v.terminal.pending v.screen = .ok (tok, n, s) ∧
    v₁.processToken F tok = .ok v'

theorem processToken_swap (htype : tok.type = .decset ∨ tok.type = .decrst)
    (hp : tok.csi.p.cell 0 = 47) (hok : v.processToken F tok = .ok v') :
    v'.screen = v.screen := by
  have hnot : ¬(tok.type = .skip ∨ tok.type = .notSupport) := by
    rcases htype with htype | htype <;> rw [htype] <;> simp
  rw [processToken, if_neg hnot] at hok
  obtain ⟨s, hs, hok⟩ := bind_eq_ok.mp hok
  cases hok
  obtain ⟨s₁, h₁, hs⟩ := bind_eq_ok.mp hs
  have hs₁ : s₁ = v.screen := by
    rcases htype with htype | htype
    · simp only [Screen.dispatch, htype, hp] at h₁
      exact (Except.ok.inj h₁).symm
    · simp only [Screen.dispatch, htype, hp] at h₁
      exact (Except.ok.inj h₁).symm
  subst hs₁
  cases hs
  simp

theorem Swap.screen {type : TokenType} {s : Screen} (h : Swap F type v s v') (hwf : v.Wf)
    (htype : type = .decset ∨ type = .decrst) : s.Wf ∧
      (if type = .decset then s.saveBuffer else s.restoreBuffer) = .ok v'.screen := by
  obtain ⟨tok, n, v₁, hfetch, rfl, hp, hdecode, hexec⟩ := h
  have hplain : tok.type.isPlain = false := by
    rcases htype with htype | htype <;> rw [htype] <;> rfl
  obtain ⟨n', s', v₂, v₃, hdecode', hmode, hattr, hadvance⟩ :=
    getNextToken_of_control hplain hfetch
  rw [hdecode] at hdecode'
  cases hdecode'
  refine ⟨Screen.decodeControl_wf hwf.screen hdecode, ?_⟩
  rw [processToken_swap htype hp hexec, advance_screen hadvance, setCharAttr_screen hattr]
  rcases htype with htype | htype
  · simp only [setMode, htype, hp, setPrivateMode] at hmode
    obtain ⟨s₁, h₁, hmode⟩ := bind_eq_ok.mp hmode
    cases hmode
    rw [if_pos htype]
    exact h₁
  · simp only [setMode, htype, hp, setPrivateMode] at hmode
    obtain ⟨s₁, h₁, hmode⟩ := bind_eq_ok.mp hmode
    cases hmode
    rw [if_neg (by rw [htype]; simp)]
    exact h₁

theorem Swap.wf {type : TokenType} {s : Screen} (h : Swap F type v s v') (hwf : v.Wf) :
    v'.Wf := by
  obtain ⟨tok, n, v₁, hfetch, -, -, -, hexec⟩ := h
  exact processToken_wf (getNextToken_wf hwf hfetch) hexec

theorem Swap.buffer {type : TokenType} {s : Screen} (h : Swap F type v s v') :
    SameBuffer v.screen s := by
  obtain ⟨tok, n, v₁, -, -, -, hdecode, -⟩ := h
  exact decodeControl_buffer hdecode

theorem Swap.saves {s : Screen} (h : Swap F .decset v s v') (hwf : v.Wf) :
    ∃ temp, v'.screen = { s with tempBuffer := some temp } ∧ s.SavedIn temp := by
  obtain ⟨hs, hok⟩ := h.screen hwf (Or.inl rfl)
  exact Screen.saveBuffer_spec hs hok

theorem Swap.restores {s : Screen} {temp : Block ScreenChar} (h : Swap F .decrst v s v')
    (hwf : v.Wf) (htemp : v.screen.tempBuffer = some temp) :
    v'.screen.tempBuffer = none ∧ v'.screen.scrollbackRows = s.scrollbackRows ∧
      ∀ y x, 0 ≤ y → y < s.height → 0 ≤ x → x ≤ s.width →
        v'.screen.visibleCell y x = temp.cell (y * s.realWidth + x) := by
  obtain ⟨hs, hok⟩ := h.screen hwf (Or.inr rfl)
  rw [if_neg (by simp)] at hok
  exact Screen.restoreBuffer_spec hs (h.buffer.temp.trans htemp) hok

theorem Swap.size {s : Screen} (h : Swap F .decrst v s v') (hwf : v.Wf) :
    v'.screen.width = s.width ∧ v'.screen.height = s.height := by
  obtain ⟨-, hok⟩ := h.screen hwf (Or.inr rfl)
  rw [if_neg (by simp)] at hok
  have hkeeps := (Screen.restoreBuffer_draws hok).keeps
  exact ⟨hkeeps.width_eq, hkeeps.height_eq⟩

theorem Swap.restores_nothing {s : Screen} (h : Swap F .decrst v s v') (hwf : v.Wf)
    (htemp : v.screen.tempBuffer = none) : v'.screen = s := by
  obtain ⟨-, hok⟩ := h.screen hwf (Or.inr rfl)
  rw [if_neg (by simp), Screen.restoreBuffer, h.buffer.temp.trans htemp] at hok
  exact (Except.ok.inj hok).symm

/-- `DECRST 47` brings back the visible rows that `DECSET 47` has saved, whatever happens
in between; neither changes the scrollback, and a second `DECRST 47` changes nothing. -/
theorem alternate_inverse {v₁ v₂ v₃ : VT100} {s s₂ : Screen} (hr : Reachable F (.reading, v))
    (hsave : Swap F .decset v s v₁)
    (hp : Path (Step F) (NoSwap F) (.reading, v₁) (.reading, v₂))
    (hrestore : Swap F .decrst v₂ s₂ v₃) :
    v₃.screen.visibleRows = s.visibleRows ∧
      v₁.screen.visibleRows = s.visibleRows ∧ v₁.screen.scrollbackRows = s.scrollbackRows ∧
      v₃.screen.scrollbackRows = s₂.scrollbackRows ∧
      ∀ v₄ s₄ v₅, Path (Step F) (NoSwap F) (.reading, v₃) (.reading, v₄) →
        Swap F .decrst v₄ s₄ v₅ → v₅.screen.rows = s₄.rows := by
  have hwf := reachable_wf hr
  obtain ⟨temp, hv₁, hsaved⟩ := hsave.saves hwf
  have hwf₁ := hsave.wf hwf
  have hwf₂ : v₂.Wf := path_wf hwf₁ hp
  have hwf₃ := hrestore.wf hwf₂
  have hbuffer : SameBuffer v₁.screen v₂.screen := path_buffer hp
  have htemp : v₂.screen.tempBuffer = some temp := by rw [hbuffer.temp, hv₁]
  obtain ⟨hnone, hscroll, hcells⟩ := hrestore.restores hwf₂ htemp
  have hsize : s₂.width = s.width ∧ s₂.height = s.height := by
    have h₂ := hbuffer.trans hrestore.buffer
    rw [hv₁] at h₂
    exact ⟨h₂.width, h₂.height⟩
  have hsize₃ : v₃.screen.width = s.width ∧ v₃.screen.height = s.height := by
    obtain ⟨hwidth, hheight⟩ := hrestore.size hwf₂
    exact ⟨hwidth.trans hsize.1, hheight.trans hsize.2⟩
  have hs : s.Wf := (hsave.screen hwf (Or.inl rfl)).1
  refine ⟨?_, by rw [hv₁]; rfl, by rw [hv₁]; rfl, hscroll, ?_⟩
  · refine hs.visibleRows_congr hwf₃.screen hsize₃.1 hsize₃.2 fun y x hy hy' hx hx' => ?_
    have hrw : s₂.realWidth = s.realWidth := congrArg (· + 1) hsize.1
    rw [hcells y x hy (by rw [hsize.2]; exact hy') hx (by rw [hsize.1]; exact hx'), hrw]
    exact hsaved y x hy hy' hx hx'
  · intro v₄ s₄ v₅ hp₄ hagain
    have hwf₄ : v₄.Wf := path_wf hwf₃ hp₄
    have hnone₄ : v₄.screen.tempBuffer = none := (path_buffer hp₄).temp.trans hnone
    rw [hagain.restores_nothing hwf₄ hnone₄]

theorem exists_swap (F : Foundation) {b : UInt8} {bs : List UInt8} {n : Nat} (h : v.Wf)
    (hb : b ≤ 0x1f) (hp : v.terminal.pending = b :: bs)
    (hdecode : decodeControl v.terminal (b :: bs) v.screen = .ok (tok, n, v.screen))
    (hn : n ≤ (b :: bs).length) (htype : tok.type = .decset ∨ tok.type = .decrst)
    (h47 : tok.csi.p.cell 0 = 47) :
    ∃ v', Swap F tok.type v v.screen v' ∧ v'.terminal.pending = (b :: bs).drop n := by
  obtain ⟨v₁, hmode, -⟩ := setMode_total h tok
  have hattr : v₁.setCharAttr tok = .ok v₁ := by
    have hnot : ¬tok.type = .sgr := by
      rcases htype with htype | htype <;> rw [htype] <;> simp
    simp only [VT100.setCharAttr, Terminal.setCharAttr, if_neg hnot, ok_bind]
  obtain ⟨v₂, hfetch, hwf₂, hpending₂, -, -⟩ := getNextToken_of_decode (F := F) h hb hp hdecode hn
    hmode hattr
  have hnot : ¬(tok.type = .skip ∨ tok.type = .notSupport) := by
    rcases htype with htype | htype <;> rw [htype] <;> simp
  have hstrict : tok.type ≠ .strictAnsiMode := by
    rcases htype with htype | htype <;> rw [htype] <;> simp
  have hexec : v₂.processToken F tok = .ok v₂ := by
    have hdispatch : v₂.screen.dispatch F v₂.terminal tok = .ok v₂.screen := by
      rcases htype with htype | htype <;> simp [Screen.dispatch, htype, h47]
    rw [processToken, if_neg hnot, VT100.putToken, Screen.putToken, hdispatch]
    simp [ok_bind, hstrict]
  exact ⟨v₂, ⟨tok, n, v₂, hfetch, rfl, h47, by rw [hp]; exact hdecode, hexec⟩, hpending₂⟩

/-- `ESC [ ? 4 7 h`, a line feed and `ESC [ ? 4 7 l`, below `ab` in the last row of a ring that
has been turned: the line feed turns it on, and the rows come back where it stands then. -/
theorem turned_alternate : ∃ v v₁ v₂ v₃ s s₂, Reachable Foundation.latin1 (.reading, v) ∧
    v.screen.topLine = 1016 ∧ Swap Foundation.latin1 .decset v s v₁ ∧
    Path (Step Foundation.latin1) (NoSwap Foundation.latin1) (.reading, v₁) (.reading, v₂) ∧
    v₂.screen.topLine = 1017 ∧ Swap Foundation.latin1 .decrst v₂ s₂ v₃ ∧
    v₃.screen.visibleRows = s.visibleRows := by
  have hab : ∀ b ∈ ([0x61, 0x62] : List UInt8), IsPrintable b := by simp [IsPrintable]
  obtain ⟨v₀, v', done, row, hv₀, hread, hrest, -, hs, hdone, -⟩ :=
    init_lineFeeds Foundation.latin1_asciiExact ⟨0, 0, 0⟩ 1040 _ hab (by decide)
  obtain ⟨t, hput, hwft, -, hpending⟩ := Terminal.putStreamData_spec hrest.wf
    [0x1b, 0x5b, 0x3f, 0x34, 0x37, 0x68, 0x0a, 0x1b, 0x5b, 0x3f, 0x34, 0x37, 0x6c]
  rw [hrest.pending_eq, List.nil_append] at hpending
  have hput : v'.putStreamData [0x1b, 0x5b, 0x3f, 0x34, 0x37, 0x68, 0x0a, 0x1b, 0x5b, 0x3f, 0x34,
      0x37, 0x6c] = .ok { v' with terminal := t } := by
    rw [VT100.putStreamData, hput, ok_bind]
  have hreach : Reachable Foundation.latin1 (.reading, { v' with terminal := t }) :=
    ((init_reachable hv₀).readInputStream hread).step (e := .put _) (.put hput) trivial
  obtain ⟨tok, hdecode, htype, h47⟩ : ∃ tok : VT100TCC,
      decodeControl t [0x1b, 0x5b, 0x3f, 0x34, 0x37, 0x68, 0x0a, 0x1b, 0x5b, 0x3f, 0x34, 0x37,
        0x6c] v'.screen = .ok (tok, 6, v'.screen) ∧ tok.type = .decset ∧
      tok.csi.p.cell 0 = 47 := by
    refine ⟨_, rfl, rfl, ?_⟩
    simp [CSIParam.addNumber, cint, Block.set, csiParamMax, CSIParam.zero]
  obtain ⟨v₁, hsave, hpending₁⟩ := exists_swap Foundation.latin1
    (v := { v' with terminal := t }) ⟨hwft, hs.wf⟩ (by decide) hpending hdecode (by decide)
    (Or.inl htype) h47
  rw [htype] at hsave
  have hwf₁ : v₁.Wf := hsave.wf ⟨hwft, hs.wf⟩
  obtain ⟨temp, hscreen₁, -⟩ := hsave.saves ⟨hwft, hs.wf⟩
  have hs₁ : v₁.screen.Shown defaultScrollback kDefaultWidth.toNat kDefaultHeight.toNat done row
      2 := by
    have hwf := hwf₁.screen
    rw [hscreen₁] at hwf ⊢
    exact hs.withTemp hwf
  -- the line feed
  obtain ⟨u, v₂, new, hfetch, -, hexec, hwf₂, hpending₂, hs₂⟩ := lineFeed_scrolls
    (F := Foundation.latin1) hwf₁ hs₁ (by rw [hdone]; decide) hpending₁
  have hguard : NoSwap Foundation.latin1 (.reading, v₁) .next := by
    intro tok' u' hok
    obtain rfl : { type := .cc 10 } = tok' :=
      congrArg Prod.fst (Except.ok.inj (hfetch.symm.trans hok))
    simp [swapsBuffer]
  have hpath : Path (Step Foundation.latin1) (NoSwap Foundation.latin1) (.reading, v₁)
      (.reading, v₂) :=
    .step (.token hfetch rfl) hguard (.step (e := .exec) (.exec hexec) trivial (.refl _))
  -- and back
  obtain ⟨tok', hdecode', htype', h47'⟩ : ∃ tok : VT100TCC,
      decodeControl v₂.terminal [0x1b, 0x5b, 0x3f, 0x34, 0x37, 0x6c] v₂.screen =
        .ok (tok, 6, v₂.screen) ∧ tok.type = .decrst ∧ tok.csi.p.cell 0 = 47 := by
    refine ⟨_, rfl, rfl, ?_⟩
    simp [CSIParam.addNumber, cint, Block.set, csiParamMax, CSIParam.zero]
  obtain ⟨v₃, hrestore, -⟩ := exists_swap Foundation.latin1 hwf₂ (by decide) hpending₂ hdecode'
    (by decide) (Or.inr htype') h47'
  rw [htype'] at hrestore
  refine ⟨_, v₁, v₂, v₃, _, _, hreach, ?_, hsave, hpath, ?_, hrestore,
    (alternate_inverse hreach hsave hpath hrestore).1⟩
  · rw [hs.top_eq, hdone]
    rfl
  · rw [hs₂.top_eq, List.length_append, hdone]
    rfl

end VT100

end MobileTerminal
