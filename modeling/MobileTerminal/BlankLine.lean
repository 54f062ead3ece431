import MobileTerminal.KeyedCache
import MobileTerminal.Traced
import MobileTerminal.SgrColour
import MobileTerminal.Lines
import MobileTerminal.Position

/-!
# The kept default line

`_getDefaultLineWithWidth:` keeps the line it answered last, with the colour
codes it was built for. The codes are kept in fields of type `char` and compared
with the codes of the terminal, which are integers. So a line that was built for
the codes `0x100` and `0x101` of the default colours is taken for one with the
codes 0 and 1.

The handlers that ask for the line are written once more, with a log of the
calls they make. Without the log they are the handlers of before
(`LineOp.log_result`). The log of a run is that of a cache of one entry, whose
keys are compared after they have lost their upper bits, and `KeyedCache` says
of any such cache when its answers are right: exactly when no call follows
directly on one whose truncated key it has and whose line has other cells
(`blank_lines_iff`).

A run here consists of SGR sequences and of the operations that may ask for the
line, in any order. SGR never asks; it only changes what is asked for next.
`KeepsLine k` says that the kept line was built for the request `k`, and
`Follows` says of a handler that its calls are answered from such a line on and
what is kept at its end. Both go through `bind`, so each handler follows from
the calls it makes.
-/

namespace MobileTerminal

variable {F : Foundation} {t : Terminal}

/-- What `_getDefaultLineWithWidth:` is asked for: the codes of the terminal and the width. -/
structure LineRequest where
  fgCode : Int
  bgCode : Int
  width : Int
deriving DecidableEq

namespace LineRequest

/-- The cells the line should have. -/
def blank (r : LineRequest) : ScreenChar := blankCell r.fgCode r.bgCode

/-- A line that was built for `k` is answered to `r`. -/
def Matches (k r : LineRequest) : Prop :=
  cchar k.fgCode = r.fgCode ∧ cchar k.bgCode = r.bgCode ∧ r.width ≤ k.width

instance : DecidableRel Matches := fun _ _ => inferInstanceAs (Decidable (_ ∧ _ ∧ _))

/-- The two want the same cells. -/
def SameBlank (k r : LineRequest) : Prop := k.blank = r.blank

/-- `r` is not taken for `k`, or wants the same cells. -/
def Compatible (k r : LineRequest) : Prop := Matches k r → SameBlank k r

theorem cchar_idem (n : Int) : cchar (cchar n) = cchar n := by
  unfold cchar
  omega

/-- The codes are truncated once and compared as they are. -/
theorem lossy : KeyedCache.Lossy Matches SameBlank where
  refl _ := rfl
  trans h h' := Eq.trans h h'
  siblings := by
    rintro k r r' ⟨hfg, hbg, -⟩ ⟨hfg', hbg', -⟩
    rw [SameBlank, blank, blank, ← hfg, ← hbg, ← hfg', ← hbg']
  next := by
    rintro k r r' ⟨hfg, hbg, -⟩ ⟨hfg', hbg', -⟩
    rw [SameBlank, blank, blank, ← hfg', ← hbg', ← hfg, ← hbg, cchar_idem, cchar_idem]

end LineRequest

/-- A call of `_getDefaultLineWithWidth:` and the line it answered. -/
structure LineCall where
  request : LineRequest
  line : Block ScreenChar

/-- The line has the cells that were asked for and is not marked. -/
structure LineCall.Right (call : LineCall) : Prop where
  cells : ∀ i, 0 ≤ i → i < call.request.width → call.line.cell i = call.request.blank
  mark : (call.line.cell call.request.width).ch = 0

namespace Screen

variable {s s' : Screen} {fresh : ScreenChar} {k r : LineRequest}

/-! ## The handlers with a log -/

abbrev Logged : Type := Traced LineCall (Fault Site) Screen

/-- A call with the given width, and what is done with its answer. -/
def withDefaultLine (t : Terminal) (width : Int) (f : Block ScreenChar → Screen → Res Screen)
    (s : Screen) : Logged :=
  let aDefaultLine := s.getDefaultLineWithWidth t width
  .after ⟨⟨t.foregroundColorCode, t.backgroundColorCode, width⟩, aDefaultLine.2⟩
    (.lift (f aDefaultLine.2 aDefaultLine.1))

def setDefaultLineLog (t : Terminal) (target : Int) (s : Screen) : Logged :=
  s.withDefaultLine t s.width fun line s => s.clearLine target line

def clearScreenLog (t : Terminal) (s : Screen) : Logged :=
  s.withDefaultLine t s.width fun line s₁ => do
    let s₂ ← forUp (fun i s => do
      let aLine ← s.getLineAtScreenIndex i
      s.clearLine aLine line) 0 s.height.toNat s₁
    setDirty { s₂ with cursorX := 0, cursorY := 0 }

def dropScrollbackLog (t : Terminal) (s : Screen) : Logged :=
  if s.maxScrollbackLines ≠ 0 then
    s.withDefaultLine t s.width fun line s₁ => do
      let s₂ ← forUp (fun i s => do
        let aLine ← s.getLineAtIndex i
        s.clearLine aLine line) 0 s.currentScrollbackLines.toNat s₁
      .ok { s₂ with currentScrollbackLines := 0, scrollbackTop := s₂.screenTop }
  else pure s

/-- `clearBuffer`, with `clearScrollbackBuffer` -/
def clearBufferLog (t : Terminal) (s : Screen) : Logged := do
  let s ← s.clearScreenLog t
  let s ← s.dropScrollbackLog t
  let s ← .lift s.setDirty
  .lift s.refresh

def scrollUpRegionLog (t : Terminal) (s : Screen) : Logged :=
  if s.scrollTop < s.scrollBottom then do
    let s ← .lift s.moveRegionUp
    let targetLine ← .lift (s.getLineAtScreenIndex s.scrollBottom)
    let s ← s.setDefaultLineLog t targetLine
    .lift s.dirtyRegion
  else pure s

def setNewLineLog (t : Terminal) (s : Screen) : Logged :=
  if s.cursorY < s.scrollBottom ∨ s.cursorY < s.height - 1 ∧ s.cursorY > s.scrollBottom then
    let s := { s with cursorY := s.cursorY + 1 }
    pure (if s.cursorX < s.width then s.touch (s.cursorY * s.width + s.cursorX) else s)
  else if s.FullMargins then do
    let totalHeight := s.totalHeight
    let s ← .lift s.keepTopLine
    let s := { s with screenTop := (incrementLinePointer s.screenTop totalHeight s.width).1 }
    let aLine ← .lift (s.getLineAtScreenIndex (s.height - 1))
    s.setDefaultLineLog t aLine
  else do
    .lift s.scrollAsserts
    s.scrollUpRegionLog t

def lineFeedLog (t : Terminal) (s : Screen) : Logged := do
  let s ← (if s.printToAnsi then pure (s.printStringToAnsi [0x0a]) else s.setNewLineLog t)
  pure { s with cursorX := 0 }

def scrollUpLog (t : Terminal) (s : Screen) : Logged := do
  .lift s.scrollAsserts
  if s.FullMargins then s.setNewLineLog t else s.scrollUpRegionLog t

def scrollDownLog (t : Terminal) (s : Screen) : Logged := do
  .lift s.scrollAsserts
  let s ← .lift s.moveRegionDown
  let targetLine ← .lift (s.getLineAtScreenIndex s.scrollTop)
  let s ← s.setDefaultLineLog t targetLine
  .lift s.dirtyRegion

def insertLinesLog (t : Terminal) (n : Int) (s : Screen) : Logged := do
  let s ← .lift (s.moveRowsDown n)
  let n := s.clampLines n
  s.withDefaultLine t s.width fun line s₁ => do
    let s₂ ← s₁.clearRows line s.cursorY n.toNat
    s₂.dirtyFill true (s₂.cursorY * s₂.width) ((s₂.scrollBottom - s₂.cursorY + 1) * s₂.width)

def deleteLinesLog (t : Terminal) (n : Int) (s : Screen) : Logged := do
  let s ← .lift (s.moveRowsUp n)
  let n := s.clampLines n
  s.withDefaultLine t s.width fun line s₁ => do
    let s₂ ← s₁.clearRows line (s.scrollBottom - n + 1) n.toNat
    s₂.dirtyFill true (s₂.cursorY * s₂.width) ((s₂.scrollBottom - s₂.cursorY + 1) * s₂.width)

def resizeWidthLog (t : Terminal) (width height : Int) (s : Screen) : Logged :=
  if s.width = 0 ∨ s.height = 0 ∨ width = s.width ∧ height = s.height then pure s
  else do
    let trimmed ← .lift (s.trimHeight (s.height - (s.cursorY + 1)).toNat s.height)
    let fuel := s.rowFuel
    let newTotalHeight := s.maxScrollbackLines + height
    withDefaultLine t width (fun line s => do
      let r ← s.reflow newTotalHeight width line fuel
      let bl ← (if r.wrapped then .ok r.bl else fillRest newTotalHeight width line r)
      let s ← setDirty (s.install newTotalHeight width height r bl)
      s.refresh) { s with height := trimmed }

/-! ## Without the log -/

@[simp] theorem withDefaultLine_result (width : Int) (f : Block ScreenChar → Screen → Res Screen) :
    (s.withDefaultLine t width f).result = f (s.getDefaultLineWithWidth t width).2
      (s.getDefaultLineWithWidth t width).1 := rfl

@[simp] theorem setDefaultLineLog_result (target : Int) :
    (s.setDefaultLineLog t target).result = s.setDefaultLine t target := rfl

theorem clearBufferLog_result : (s.clearBufferLog t).result = s.clearBuffer t := by
  have hclear : (s.clearScreenLog t).result = s.clearScreen t := rfl
  have hdrop : ∀ s : Screen, (s.dropScrollbackLog t).result = s.dropScrollback t := by
    intro s
    unfold dropScrollbackLog dropScrollback
    split <;> rfl
  simp only [clearBufferLog, clearBuffer, clearScrollbackBuffer, Traced.result_bind,
    Traced.result_lift, hclear, hdrop]

theorem scrollUpRegionLog_result : (s.scrollUpRegionLog t).result = s.scrollUpRegion t := by
  unfold scrollUpRegionLog scrollUpRegion
  split
  · simp only [Traced.result_bind, Traced.result_lift, setDefaultLineLog_result]
  · rfl

theorem setNewLineLog_result : (s.setNewLineLog t).result = s.setNewLine t := by
  unfold setNewLineLog setNewLine
  split
  · rfl
  · split
    · simp only [Traced.result_bind, Traced.result_lift, setDefaultLineLog_result]
    · simp only [Traced.result_bind, Traced.result_lift, scrollUpRegionLog_result]

theorem lineFeedLog_result : (s.lineFeedLog t).result = s.lineFeed t := by
  unfold lineFeedLog lineFeed
  cases s.printToAnsi with
  | false =>
      simp only [Traced.result_bind, Traced.result_pure, setNewLineLog_result, Bool.false_eq_true,
        if_false]
  | true => rfl

theorem scrollUpLog_result : (s.scrollUpLog t).result = s.scrollUp t := by
  unfold scrollUpLog scrollUp
  rw [Traced.result_bind, Traced.result_lift]
  congr 1
  funext _
  split
  · exact setNewLineLog_result
  · exact scrollUpRegionLog_result

theorem scrollDownLog_result : (s.scrollDownLog t).result = s.scrollDown t := by
  simp only [scrollDownLog, scrollDown, Traced.result_bind, Traced.result_lift,
    setDefaultLineLog_result]

theorem insertLinesLog_result (n : Int) : (s.insertLinesLog t n).result = s.insertLines t n := by
  simp only [insertLinesLog, insertLines, Traced.result_bind, Traced.result_lift,
    withDefaultLine_result]

theorem deleteLinesLog_result (n : Int) : (s.deleteLinesLog t n).result = s.deleteLines t n := by
  simp only [deleteLinesLog, deleteLines, Traced.result_bind, Traced.result_lift,
    withDefaultLine_result]

theorem resizeWidthLog_result (width height : Int) :
    (s.resizeWidthLog t width height).result = s.resizeWidth t width height := by
  unfold resizeWidthLog resizeWidth
  split
  · rfl
  · simp only [Traced.result_bind, Traced.result_lift, withDefaultLine_result]

/-! ## The kept line

A handler takes the kept line as it finds it and answers from it, or builds a
new one. What is kept after its calls is a function of the requests alone. -/

/-- The line that is built for `k`. -/
def lineFor (fresh : ScreenChar) (k : LineRequest) : Block ScreenChar :=
  newDefaultLine k.fgCode k.bgCode fresh k.width

/-- The kept line was built for `k`. -/
structure KeepsLine (fresh : ScreenChar) (k : LineRequest) (s : Screen) : Prop where
  fresh_eq : s.fresh = fresh
  line_eq : s.defaultLine = some (lineFor fresh k)
  fg_eq : s.defaultFgCode = cchar k.fgCode
  bg_eq : s.defaultBgCode = cchar k.bgCode
  width_eq : s.defaultLineWidth = k.width
  width_pos : 1 ≤ s.width

theorem KeepsLine.of_same (h : KeepsLine fresh k s) (hs : SameDefault s s') :
    KeepsLine fresh k s' := by
  obtain ⟨hline, hfg, hbg, hwidth, hfresh, hw⟩ := hs
  exact ⟨hfresh.trans h.fresh_eq, hline.trans h.line_eq, hfg.trans h.fg_eq, hbg.trans h.bg_eq,
    hwidth.trans h.width_eq, hw ▸ h.width_pos⟩

theorem KeepsLine.getDefaultLine (h : KeepsLine fresh k s) (r : LineRequest) :
    (s.getDefaultLine r.fgCode r.bgCode r.width).2 =
        lineFor fresh (KeyedCache.keep LineRequest.Matches k r) ∧
      KeepsLine fresh (KeyedCache.keep LineRequest.Matches k r)
        (s.getDefaultLine r.fgCode r.bgCode r.width).1 := by
  by_cases hmatch : LineRequest.Matches k r
  · have hkept : s.getDefaultLine r.fgCode r.bgCode r.width = (s, lineFor fresh k) := by
      rw [Screen.getDefaultLine, h.line_eq]
      simp only [h.fg_eq, h.bg_eq, h.width_eq]
      exact if_pos hmatch
    rw [KeyedCache.keep, if_pos hmatch, hkept]
    exact ⟨rfl, h⟩
  · have hbuilt : s.getDefaultLine r.fgCode r.bgCode r.width =
        s.buildDefaultLine r.fgCode r.bgCode r.width := by
      rw [Screen.getDefaultLine, h.line_eq]
      simp only [h.fg_eq, h.bg_eq, h.width_eq]
      exact if_neg hmatch
    rw [KeyedCache.keep, if_neg hmatch, hbuilt, Screen.buildDefaultLine, h.fresh_eq]
    exact ⟨rfl, rfl, rfl, rfl, rfl, rfl, h.width_pos⟩

/-- The calls of a log and their answers, from a kept line for `k` on. -/
def Answers (fresh : ScreenChar) : LineRequest → List LineCall → Prop
  | _, [] => True
  | k, call :: calls => 1 ≤ call.request.width ∧
      call.line = lineFor fresh (KeyedCache.keep LineRequest.Matches k call.request) ∧
      Answers fresh (KeyedCache.keep LineRequest.Matches k call.request) calls

/-- What is kept after the calls of a log. -/
def keptAfter (k : LineRequest) (calls : List LineCall) : LineRequest :=
  calls.foldl (fun k call => KeyedCache.keep LineRequest.Matches k call.request) k

theorem Answers.append {calls calls' : List LineCall} (h : Answers fresh k calls)
    (h' : Answers fresh (keptAfter k calls) calls') : Answers fresh k (calls ++ calls') := by
  induction calls generalizing k with
  | nil => exact h'
  | cons call calls ih =>
      obtain ⟨hwidth, hline, hrest⟩ := h
      exact ⟨hwidth, hline, ih hrest h'⟩

/-- A line is right exactly when it was built for a request that wants the same cells. -/
theorem right_iff {call : LineCall} (hpos : 1 ≤ call.request.width)
    (hline : call.line = lineFor fresh (KeyedCache.keep LineRequest.Matches k call.request)) :
    call.Right ↔
      LineRequest.SameBlank (KeyedCache.keep LineRequest.Matches k call.request) call.request := by
  have hwidth : call.request.width ≤ (KeyedCache.keep LineRequest.Matches k call.request).width := by
    unfold KeyedCache.keep
    split
    · rename_i hmatch
      exact hmatch.2.2
    · exact Int.le_refl _
  generalize KeyedCache.keep LineRequest.Matches k call.request = k' at hline hwidth ⊢
  constructor
  · intro hright
    have hfirst := hright.cells 0 (Int.le_refl 0) (by omega)
    rw [hline] at hfirst
    exact (if_pos (by omega)).symm.trans hfirst
  · intro hsame
    refine ⟨fun i hi hi' => ?_, ?_⟩
    · rw [hline]
      exact (if_pos (by omega)).trans hsame
    · rw [hline]
      exact newDefaultLine_ch ..

theorem Answers.right_iff {calls : List LineCall} (h : Answers fresh k calls) :
    (∀ call ∈ calls, call.Right) ↔
      List.IsChain LineRequest.Compatible (k :: calls.map LineCall.request) := by
  rw [show LineRequest.Compatible = fun k r => LineRequest.Matches k r → LineRequest.SameBlank k r
    from rfl, ← KeyedCache.allRight_iff LineRequest.lossy]
  induction calls generalizing k with
  | nil => simp [KeyedCache.AllRight]
  | cons call calls ih =>
      obtain ⟨hpos, hline, hrest⟩ := h
      rw [List.forall_mem_cons, List.map_cons, KeyedCache.AllRight, ih hrest,
        Screen.right_iff hpos hline]

/-! ## The logs of the handlers -/

/-- The calls of `x` are answered from a kept line for `k` on, and its result keeps what is kept
after them. -/
structure Follows (fresh : ScreenChar) (k : LineRequest) (x : Logged) : Prop where
  answers : Answers fresh k x.log
  keeps : ∀ s', x.result = .ok s' → KeepsLine fresh (keptAfter k x.log) s'

namespace Follows

theorem lift {x : Res Screen} (h : ∀ s', x = .ok s' → KeepsLine fresh k s') :
    Follows fresh k (.lift x) := ⟨trivial, h⟩

theorem pure (h : KeepsLine fresh k s) : Follows fresh k (pure s) :=
  ⟨trivial, fun _ hok => Except.ok.inj hok ▸ h⟩

theorem bind {x : Logged} {f : Screen → Logged} (hx : Follows fresh k x)
    (hf : ∀ k s', KeepsLine fresh k s' → Follows fresh k (f s')) : Follows fresh k (x >>= f) := by
  cases h₁ : x.result with
  | error e =>
      refine ⟨by rw [Traced.log_bind_of_error f h₁]; exact hx.answers, fun s' hok => ?_⟩
      rw [Traced.result_bind, h₁] at hok
      cases hok
  | ok s₁ =>
      have hrest := hf _ s₁ (hx.keeps s₁ h₁)
      refine ⟨by rw [Traced.log_bind_of_ok f h₁]; exact hx.answers.append hrest.answers,
        fun s' hok => ?_⟩
      rw [Traced.result_bind, h₁] at hok
      rw [Traced.log_bind_of_ok f h₁, keptAfter, List.foldl_append]
      exact hrest.keeps s' hok

theorem lift_bind {α : Type} {x : Res α} {f : α → Logged}
    (h : ∀ a, x = .ok a → Follows fresh k (f a)) : Follows fresh k (Traced.lift x >>= f) := by
  cases x with
  | ok a => exact h a rfl
  | error e => exact ⟨trivial, fun s' hok => by cases hok⟩

theorem withDefaultLine {width : Int} {f : Block ScreenChar → Screen → Res Screen}
    (h : KeepsLine fresh k s) (hw : 1 ≤ width)
    (hf : ∀ k line s₁ s', KeepsLine fresh k s₁ → f line s₁ = .ok s' → KeepsLine fresh k s') :
    Follows fresh k (s.withDefaultLine t width f) := by
  obtain ⟨hline, hkeeps⟩ := h.getDefaultLine ⟨t.foregroundColorCode, t.backgroundColorCode, width⟩
  exact ⟨⟨hw, hline, trivial⟩, fun s' hok => hf _ _ _ s' hkeeps hok⟩

end Follows

theorem forUp_clearLine_sameDefault {get : Int → Screen → Res Int} {line : Block ScreenChar}
    {lo : Int} {n : Nat} (hok : forUp (fun i s => do
      let aLine ← get i s
      s.clearLine aLine line) lo n s = .ok s') : SameDefault s s' := by
  refine SameButBuffer.sameDefault (forUp_inv (P := fun _ s' => SameButBuffer s s')
    (fun _ s₁ s₂ _ _ h hs => ?_) (.refl s) hok)
  obtain ⟨a, -, hs⟩ := bind_eq_ok.mp hs
  exact h.trans (clearLine_sameButBuffer hs)

theorem setDefaultLineLog_follows (h : KeepsLine fresh k s) (target : Int) :
    Follows fresh k (s.setDefaultLineLog t target) :=
  .withDefaultLine h h.width_pos fun _ _ _ _ h hok =>
    h.of_same (clearLine_sameButBuffer hok).sameDefault

theorem dirtyRegion_keepsLine (h : KeepsLine fresh k s) :
    ∀ s', s.dirtyRegion = .ok s' → KeepsLine fresh k s' :=
  fun _ hok => h.of_same (dirtyFill_sameDefault hok)

theorem clearBufferLog_follows (h : KeepsLine fresh k s) : Follows fresh k (s.clearBufferLog t) := by
  refine .bind (.withDefaultLine h h.width_pos ?_) fun k s₁ h₁ => ?_
  · intro k line s₁ s' h₁ hok
    obtain ⟨s₂, h₂, hok⟩ := bind_eq_ok.mp hok
    have hkeeps := h₁.of_same (forUp_clearLine_sameDefault h₂)
    exact KeepsLine.of_same (s := { s₂ with cursorX := 0, cursorY := 0 }) { hkeeps with }
      (setDirty_sameDefault hok)
  · refine .bind ?_ fun k s₂ h₂ => .bind (.lift fun s₃ hok => h₂.of_same (setDirty_sameDefault hok))
      fun k s₃ h₃ => .lift fun s₄ hok => h₃.of_same (refresh_sameDefault hok)
    unfold dropScrollbackLog
    split
    · refine .withDefaultLine h₁ h₁.width_pos fun k line s₂ s' h₂ hok => ?_
      obtain ⟨s₃, h₃, hok⟩ := bind_eq_ok.mp hok
      have hkeeps := h₂.of_same (forUp_clearLine_sameDefault h₃)
      exact Except.ok.inj hok ▸ { hkeeps with }
    · exact .pure h₁

theorem scrollUpRegionLog_follows (h : KeepsLine fresh k s) :
    Follows fresh k (s.scrollUpRegionLog t) := by
  unfold scrollUpRegionLog
  split
  · refine .lift_bind fun s₁ h₁ => .lift_bind fun line _ => ?_
    have hkeeps := h.of_same (moveRegionUp_sameButBuffer h₁).sameDefault
    exact .bind (setDefaultLineLog_follows hkeeps line) fun k s₂ h₂ =>
      .lift (dirtyRegion_keepsLine h₂)
  · exact .pure h

theorem setNewLineLog_follows (h : KeepsLine fresh k s) : Follows fresh k (s.setNewLineLog t) := by
  unfold setNewLineLog
  split
  · refine .pure ?_
    split <;> exact { h with }
  · split
    · refine .lift_bind fun s₁ h₁ => .lift_bind fun line _ => ?_
      have hkeeps := h.of_same (keepTopLine_sameDefault h₁)
      refine setDefaultLineLog_follows ?_ line
      exact hkeeps.of_same ⟨rfl, rfl, rfl, rfl, rfl, rfl⟩
    · exact .lift_bind fun _ _ => scrollUpRegionLog_follows h

theorem lineFeedLog_follows (h : KeepsLine fresh k s) : Follows fresh k (s.lineFeedLog t) := by
  refine .bind ?_ fun k s₁ h₁ => .pure { h₁ with }
  split
  · refine .pure ?_
    unfold printStringToAnsi
    split <;> exact { h with }
  · exact setNewLineLog_follows h

theorem scrollUpLog_follows (h : KeepsLine fresh k s) : Follows fresh k (s.scrollUpLog t) := by
  refine .lift_bind fun _ _ => ?_
  split
  · exact setNewLineLog_follows h
  · exact scrollUpRegionLog_follows h

theorem scrollDownLog_follows (h : KeepsLine fresh k s) : Follows fresh k (s.scrollDownLog t) := by
  refine .lift_bind fun _ _ => .lift_bind fun s₁ h₁ => .lift_bind fun line _ => ?_
  have hkeeps := h.of_same (moveRegionDown_sameButBuffer h₁).sameDefault
  exact .bind (setDefaultLineLog_follows hkeeps line) fun k s₂ h₂ =>
    .lift (dirtyRegion_keepsLine h₂)

theorem insertLinesLog_follows (h : KeepsLine fresh k s) (n : Int) :
    Follows fresh k (s.insertLinesLog t n) := by
  refine .lift_bind fun s₁ h₁ => ?_
  have hkeeps := h.of_same (moveRowsDown_sameButBuffer h₁).sameDefault
  refine .withDefaultLine hkeeps hkeeps.width_pos fun k line s₂ s' h₂ hok => ?_
  obtain ⟨s₃, h₃, hok⟩ := bind_eq_ok.mp hok
  exact (h₂.of_same (forUp_clearLine_sameDefault h₃)).of_same (dirtyFill_sameDefault hok)

theorem deleteLinesLog_follows (h : KeepsLine fresh k s) (n : Int) :
    Follows fresh k (s.deleteLinesLog t n) := by
  refine .lift_bind fun s₁ h₁ => ?_
  have hkeeps := h.of_same (moveRowsUp_sameButBuffer h₁).sameDefault
  refine .withDefaultLine hkeeps hkeeps.width_pos fun k line s₂ s' h₂ hok => ?_
  obtain ⟨s₃, h₃, hok⟩ := bind_eq_ok.mp hok
  exact (h₂.of_same (forUp_clearLine_sameDefault h₃)).of_same (dirtyFill_sameDefault hok)

theorem install_keepsLine {width height newTotalHeight : Int} (hw : 1 ≤ width)
    (h : KeepsLine fresh k s) (r : Reflow) (bl : Block ScreenChar) :
    KeepsLine fresh k (s.install newTotalHeight width height r bl) :=
  ⟨h.fresh_eq, h.line_eq, h.fg_eq, h.bg_eq, h.width_eq, hw⟩

theorem resizeWidthLog_follows (h : KeepsLine fresh k s) {width : Int} (hw : 1 ≤ width)
    (height : Int) : Follows fresh k (s.resizeWidthLog t width height) := by
  unfold resizeWidthLog
  split
  · exact .pure h
  · refine .lift_bind fun trimmed _ => ?_
    refine .withDefaultLine { h with } hw fun k line s₁ s' h₁ hok => ?_
    obtain ⟨r, -, hok⟩ := bind_eq_ok.mp hok
    obtain ⟨bl, -, hok⟩ := bind_eq_ok.mp hok
    obtain ⟨s₂, h₂, hok⟩ := bind_eq_ok.mp hok
    exact ((install_keepsLine hw h₁ r bl).of_same (setDirty_sameDefault h₂)).of_same
      (refresh_sameDefault hok)

/-- A resize asks once, unless there is nothing to do. -/
theorem resizeWidthLog_requests {width height : Int}
    (hne : ¬(s.width = 0 ∨ s.height = 0 ∨ width = s.width ∧ height = s.height))
    (hok : s.resizeWidth t width height = .ok s') :
    (s.resizeWidthLog t width height).log.map LineCall.request =
      [⟨t.foregroundColorCode, t.backgroundColorCode, width⟩] := by
  rw [resizeWidth, if_neg hne] at hok
  obtain ⟨trimmed, htrimmed, -⟩ := bind_eq_ok.mp hok
  rw [resizeWidthLog, if_neg hne, Traced.log_bind_of_ok _ htrimmed]
  rfl

theorem keptAfter_requests (k : LineRequest) (calls : List LineCall) :
    keptAfter k calls =
      (calls.map LineCall.request).foldl (KeyedCache.keep LineRequest.Matches) k := by
  rw [keptAfter, List.foldl_map]

/-- `init` of `VT100Screen` asks before there is a terminal: the codes are those of `nil`. -/
theorem init_keepsLine (hok : Screen.init fresh = .ok s) :
    KeepsLine fresh ⟨0, 0, defaultTerminalWidth⟩ s := by
  obtain ⟨tabs, -, hok⟩ := bind_eq_ok.mp hok
  obtain ⟨s₁, h₁, hok⟩ := bind_eq_ok.mp hok
  have h₀ : KeepsLine fresh ⟨0, 0, defaultTerminalWidth⟩
      ((uncleared fresh tabs).getDefaultLine 0 0 (uncleared fresh tabs).width).1 :=
    ⟨rfl, rfl, rfl, rfl, rfl, (by decide : 1 ≤ defaultTerminalWidth)⟩
  have hkeeps := h₀.of_same (forUp_clearLine_sameDefault h₁)
  exact KeepsLine.of_same (s := { s₁ with dirty := DirtyMap.alloc (s₁.height * s₁.width) })
    { hkeeps with } (setDirty_sameDefault hok)

end Screen

/-! ## Runs -/

/-- The operations that may ask for the line. -/
inductive LineOp where
  | resize (width height : Int)
  | lineFeed
  | clear
  | scrollUp
  | scrollDown
  | insertLines (n : Int)
  | deleteLines (n : Int)

namespace LineOp

variable {s s' : Screen} {fresh : ScreenChar} {k : LineRequest}

def run (t : Terminal) (s : Screen) : LineOp → Res Screen
  | resize width height => s.resizeWidth t width height
  | lineFeed => s.lineFeed t
  | clear => s.clearBuffer t
  | scrollUp => s.scrollUp t
  | scrollDown => s.scrollDown t
  | insertLines n => s.insertLines t n
  | deleteLines n => s.deleteLines t n

def log (t : Terminal) (s : Screen) : LineOp → Screen.Logged
  | resize width height => s.resizeWidthLog t width height
  | lineFeed => s.lineFeedLog t
  | clear => s.clearBufferLog t
  | scrollUp => s.scrollUpLog t
  | scrollDown => s.scrollDownLog t
  | insertLines n => s.insertLinesLog t n
  | deleteLines n => s.deleteLinesLog t n

/-- A screen has at least one cell. -/
def Ok : LineOp → Prop
  | resize width height => 1 ≤ width ∧ 1 ≤ height
  | _ => True

theorem log_result (op : LineOp) : (op.log t s).result = op.run t s := by
  cases op with
  | resize width height => exact Screen.resizeWidthLog_result width height
  | lineFeed => exact Screen.lineFeedLog_result
  | clear => exact Screen.clearBufferLog_result
  | scrollUp => exact Screen.scrollUpLog_result
  | scrollDown => exact Screen.scrollDownLog_result
  | insertLines n => exact Screen.insertLinesLog_result n
  | deleteLines n => exact Screen.deleteLinesLog_result n

theorem log_follows {op : LineOp} (hop : op.Ok) (h : s.KeepsLine fresh k) :
    Screen.Follows fresh k (op.log t s) := by
  cases op with
  | resize width height => exact Screen.resizeWidthLog_follows h hop.1 height
  | lineFeed => exact Screen.lineFeedLog_follows h
  | clear => exact Screen.clearBufferLog_follows h
  | scrollUp => exact Screen.scrollUpLog_follows h
  | scrollDown => exact Screen.scrollDownLog_follows h
  | insertLines n => exact Screen.insertLinesLog_follows h n
  | deleteLines n => exact Screen.deleteLinesLog_follows h n

theorem run_wf {op : LineOp} (hop : op.Ok) (h : s.Wf) (hok : op.run t s = .ok s') : s'.Wf := by
  cases op with
  | resize width height => exact Screen.resizeWidth_wf h hop.1 hop.2 hok
  | lineFeed => exact Screen.lineFeed_wf h hok
  | clear => exact Screen.clearBuffer_wf h hok
  | scrollUp => exact Screen.scrollUp_wf h hok
  | scrollDown => exact (Screen.scrollDown_draws hok).wf h
  | insertLines n => exact (Screen.insertLines_draws hok).wf h
  | deleteLines n => exact (Screen.deleteLines_draws hok).wf h

end LineOp

/-- An SGR sequence arrives, or an operation is carried out. -/
inductive LineEvent where
  | sgr (params : List (List UInt8))
  | op (op : LineOp)

def LineEvent.Ok : LineEvent → Prop
  | .sgr params => IsParams params
  | .op o => o.Ok

namespace VT100

variable {v v' : VT100} {fresh : ScreenChar} {k : LineRequest}

def lineEvent (F : Foundation) (v : VT100) : LineEvent → Res VT100
  | .sgr params => v.readInputStream F (csiSequence [] params sgrByte)
  | .op op => do
      let s ← op.run v.terminal v.screen
      .ok { v with screen := s }

/-- The same with the calls. SGR does not ask for the line. -/
def lineEventLog (F : Foundation) (v : VT100) : LineEvent → Traced LineCall (Fault Site) VT100
  | .sgr params => .lift (v.readInputStream F (csiSequence [] params sgrByte))
  | .op op => do
      let s ← op.log v.terminal v.screen
      pure { v with screen := s }

def lineRun (F : Foundation) (run : List LineEvent) (v : VT100) : Res VT100 :=
  run.foldlM (lineEvent F) v

/-- A run and the calls that are made in it. -/
def lineRunLog (F : Foundation) : List LineEvent → VT100 → Traced LineCall (Fault Site) VT100
  | [], v => pure v
  | e :: run, v => do
      let v ← v.lineEventLog F e
      lineRunLog F run v

theorem lineEventLog_result (e : LineEvent) :
    (v.lineEventLog F e).result = v.lineEvent F e := by
  cases e with
  | sgr params => rfl
  | op op =>
      rw [lineEventLog, Traced.result_bind, LineOp.log_result]
      rfl

theorem lineRunLog_result (run : List LineEvent) :
    (v.lineRunLog F run).result = v.lineRun F run := by
  induction run generalizing v with
  | nil => rfl
  | cons e run ih =>
      rw [lineRunLog, lineRun, List.foldlM_cons, Traced.result_bind, lineEventLog_result]
      exact congrArg (v.lineEvent F e >>= ·) (funext fun v' => ih)

/-- Nothing is pending, or a sequence with too many parameters has arrived and everything behind
it waits. -/
def Waiting (v : VT100) : Prop :=
  v.terminal.pending = [] ∨ ∃ params rest, IsParams params ∧ 16 < params.length ∧
    v.terminal.pending = csiSequence [] params sgrByte ++ rest

theorem readInputStream_sgr_sameDefault (h : v.Wf) (hwait : v.Waiting)
    {params : List (List UInt8)} (hp : IsParams params)
    (hok : v.readInputStream F (csiSequence [] params sgrByte) = .ok v') :
    v'.Wf ∧ v'.Waiting ∧ v.screen.SameDefault v'.screen := by
  have hstuck : ∀ {params' rest}, IsParams params' → 16 < params'.length →
      v.terminal.pending ++ csiSequence [] params sgrByte =
        csiSequence [] params' sgrByte ++ rest →
      v'.Wf ∧ v'.Waiting ∧ v.screen.SameDefault v'.screen := by
    intro params' rest hp' hlen' hpending
    obtain ⟨v₁, h₁, hwf, hpending', -, hsame⟩ := readInputStream_stuck (F := F) h hp' hlen' hpending
    obtain rfl : v' = v₁ := Except.ok.inj (hok.symm.trans h₁)
    exact ⟨hwf, Or.inr ⟨params', rest, hp', hlen', hpending'⟩, hsame⟩
  rcases hwait with hempty | ⟨params', rest, hp', hlen', hpending⟩
  · by_cases hlen : params.length ≤ 16
    · obtain ⟨v₁, h₁, hwf, hempty', -, hsame⟩ := readInputStream_sgr (F := F) h hempty hp hlen
      obtain rfl : v' = v₁ := Except.ok.inj (hok.symm.trans h₁)
      obtain ⟨d, hd⟩ := hsame
      rw [hd]
      exact ⟨hwf, Or.inl hempty', rfl, rfl, rfl, rfl, rfl, rfl⟩
    · have hpending : v.terminal.pending ++ csiSequence [] params sgrByte =
          csiSequence [] params sgrByte ++ [] := by
        rw [hempty, List.nil_append, List.append_nil]
      exact hstuck hp (by omega) hpending
  · have hmore : v.terminal.pending ++ csiSequence [] params sgrByte =
        csiSequence [] params' sgrByte ++ (rest ++ csiSequence [] params sgrByte) := by
      rw [hpending, List.append_assoc]
    exact hstuck hp' hlen' hmore

/-- What holds between the events of a run. -/
structure LineState (fresh : ScreenChar) (k : LineRequest) (v : VT100) : Prop where
  wf : v.Wf
  waiting : v.Waiting
  keeps : v.screen.KeepsLine fresh k

theorem lineEventLog_op_log (o : LineOp) :
    (v.lineEventLog F (.op o)).log = (o.log v.terminal v.screen).log := by
  cases hok : (o.log v.terminal v.screen).result with
  | error e => exact Traced.log_bind_of_error _ hok
  | ok s' =>
      rw [lineEventLog, Traced.log_bind_of_ok _ hok]
      exact List.append_nil _

theorem lineEventLog_answers {e : LineEvent} (he : e.Ok) (h : LineState fresh k v) :
    Screen.Answers fresh k (v.lineEventLog F e).log ∧
      ∀ v', (v.lineEventLog F e).result = .ok v' →
        LineState fresh (Screen.keptAfter k (v.lineEventLog F e).log) v' := by
  cases e with
  | sgr params =>
      refine ⟨trivial, fun v' hok => ?_⟩
      obtain ⟨hwf, hwait, hsame⟩ := readInputStream_sgr_sameDefault h.wf h.waiting he hok
      exact ⟨hwf, hwait, h.keeps.of_same hsame⟩
  | op o =>
      have hfollows := LineOp.log_follows (t := v.terminal) he h.keeps
      rw [lineEventLog_op_log]
      refine ⟨hfollows.answers, fun v' hok => ?_⟩
      rw [lineEventLog, Traced.result_bind] at hok
      obtain ⟨s', hs', hok⟩ := bind_eq_ok.mp hok
      obtain rfl := Except.ok.inj hok
      have hwf := LineOp.run_wf he h.wf.screen ((LineOp.log_result o).symm.trans hs')
      exact ⟨⟨h.wf.terminal, hwf⟩, h.waiting, hfollows.keeps s' hs'⟩

/-- The calls of a run are answered from the kept line on. -/
theorem lineRunLog_answers {run : List LineEvent} (hrun : ∀ e ∈ run, e.Ok)
    (h : LineState fresh k v) : Screen.Answers fresh k (v.lineRunLog F run).log := by
  induction run generalizing v k with
  | nil => exact trivial
  | cons e run ih =>
      obtain ⟨hanswers, hstate⟩ := lineEventLog_answers (F := F) (hrun e (List.mem_cons_self ..)) h
      rw [lineRunLog]
      cases hok : (v.lineEventLog F e).result with
      | error err =>
          rw [Traced.log_bind_of_error _ hok]
          exact hanswers
      | ok v' =>
          rw [Traced.log_bind_of_ok _ hok]
          exact hanswers.append
            (ih (fun e' hmem => hrun e' (List.mem_cons_of_mem _ hmem)) (hstate v' hok))

/-- The line that a new object keeps: it was built for the default colours, when the screen got
its size. -/
def initRequest : LineRequest := ⟨fgColorCodeDefault, bgColorCodeDefault, kDefaultWidth⟩

theorem init_keeps (hv : VT100.init fresh = .ok v) : v.screen.KeepsLine fresh initRequest := by
  obtain ⟨s₀, h₀, hv⟩ := bind_eq_ok.mp hv
  obtain ⟨s₁, h₁, hv⟩ := bind_eq_ok.mp hv
  obtain ⟨s₀', h₀', hs₀⟩ := Screen.init_fresh fresh
  obtain rfl : s₀ = s₀' := Except.ok.inj (h₀.symm.trans h₀')
  obtain rfl := Except.ok.inj hv
  have hw : 1 ≤ kDefaultWidth := by decide
  have hkeeps := (Screen.resizeWidthLog_follows (t := { Terminal.init with
    encoding := nsUtf8StringEncoding }) (Screen.init_keepsLine h₀) hw kDefaultHeight).keeps s₁
    (by rw [Screen.resizeWidthLog_result]; exact h₁)
  rw [Screen.keptAfter_requests, Screen.resizeWidthLog_requests ?_ h₁, List.foldl_cons,
    List.foldl_nil, KeyedCache.keep, if_neg (by decide)] at hkeeps
  · exact { hkeeps with }
  · rw [hs₀.width_eq, hs₀.height_eq]
    decide

/-- All lines that are answered in a run are right exactly when no call follows directly on a
call with other colours whose truncated codes are its own. The first call follows on the
one that built the line of the new object. Whether the calls of the run complete does not
matter; the lines that were answered before one failed count. -/
theorem blank_lines_iff (hv : VT100.init fresh = .ok v) {run : List LineEvent}
    (hrun : ∀ e ∈ run, e.Ok) :
    (∀ call ∈ (v.lineRunLog F run).log, call.Right) ↔
      List.IsChain LineRequest.Compatible
        (initRequest :: (v.lineRunLog F run).log.map LineCall.request) := by
  obtain ⟨v₀, hv₀, ht, -⟩ := init_fresh fresh
  obtain rfl : v = v₀ := Except.ok.inj (hv.symm.trans hv₀)
  have hwait : v.Waiting := Or.inl (by rw [ht]; rfl)
  exact (lineRunLog_answers hrun ⟨init_wf hv, hwait, init_keeps hv⟩).right_iff

/-- A new object is made 100 columns wide: the colours are those of the kept line, but the
width is another, so a new line is built. -/
theorem init_resized_line : ∃ v, VT100.init ⟨0, 0, 0⟩ = .ok v ∧
    (v.lineRunLog Foundation.latin1 [.op (.resize 100 30)]).log.map LineCall.request =
      [⟨fgColorCodeDefault, bgColorCodeDefault, 100⟩] ∧
    ∀ call ∈ (v.lineRunLog Foundation.latin1 [.op (.resize 100 30)]).log, call.Right := by
  obtain ⟨v, hv, ht, hs⟩ := init_fresh ⟨0, 0, 0⟩
  obtain ⟨s', hresize, -⟩ := hs.resizeWidth (by decide) v.terminal 100 30 (by decide) (by decide)
  have hne : ¬(v.screen.width = 0 ∨ v.screen.height = 0 ∨
      (100 : Int) = v.screen.width ∧ (30 : Int) = v.screen.height) := by
    rw [hs.width_eq, hs.height_eq]
    decide
  have hrequests := Screen.resizeWidthLog_requests hne hresize
  have hresult : (v.lineEventLog Foundation.latin1 (.op (.resize 100 30))).result =
      .ok { v with screen := s' } := by
    rw [lineEventLog_result]
    exact bind_eq_ok.mpr ⟨s', hresize, rfl⟩
  have hlog : (v.lineRunLog Foundation.latin1 [.op (.resize 100 30)]).log.map LineCall.request =
      [⟨fgColorCodeDefault, bgColorCodeDefault, 100⟩] := by
    rw [lineRunLog, Traced.log_bind_of_ok _ hresult, lineEventLog_op_log, List.map_append,
      show LineOp.log v.terminal v.screen (.resize 100 30) =
        v.screen.resizeWidthLog v.terminal 100 30 from rfl, hrequests, ht]
    rfl
  refine ⟨v, hv, hlog, (blank_lines_iff hv (by simp [LineEvent.Ok, LineOp.Ok])).mpr ?_⟩
  rw [hlog, List.isChain_cons_cons]
  exact ⟨fun hmatch => absurd hmatch (by decide), List.isChain_singleton _⟩

/-- `ESC [ 3 0 ; 4 1 m` on a new object, whose screen is then cleared: the line has the default
colours. -/
theorem init_stale_line : ∃ v call, VT100.init ⟨0, 0, 0⟩ = .ok v ∧
    call ∈ (v.lineRunLog Foundation.latin1 [.sgr [[0x33, 0x30], [0x34, 0x31]], .op .clear]).log ∧
    call.request = ⟨0, 1, 80⟩ ∧
    call.line.cell 0 = blankCell fgColorCodeDefault bgColorCodeDefault ∧ ¬call.Right := by
  obtain ⟨v, hv, ht, hs⟩ := init_fresh ⟨0, 0, 0⟩
  have hempty : v.terminal.pending = [] := by
    rw [ht]
    rfl
  have hp : IsParams [[0x33, 0x30], [0x34, 0x31]] := by simp [IsParams, isDigit]
  obtain ⟨v₁, h₁, -, -, hattr, hsame⟩ := readInputStream_sgr (F := Foundation.latin1) (init_wf hv)
    hempty hp (by decide)
  have hnumbers : sgrNumbers [[0x33, 0x30], [0x34, 0x31]] = [30, 41] := by
    simp [sgrNumbers, sgrNumber, decimal, decimalFrom, cint]
  rw [hnumbers, ht] at hattr
  have hfg : v₁.terminal.foregroundColorCode = 0 := by
    rw [Terminal.foregroundColorCode_of_attr (congrFun hattr)]
    rfl
  have hrev : v₁.terminal.reversed = 0 := congrFun hattr .reversed
  have hback : v₁.terminal.bgColorcode = 1 := congrFun hattr .bg
  have hbg : v₁.terminal.backgroundColorCode = 1 := by
    rw [Terminal.backgroundColorCode, hrev, hback]
    rfl
  obtain ⟨d, hd⟩ := hsame
  have hwidth : v₁.screen.width = 80 := by
    rw [hd]
    exact hs.width_eq
  have hkeeps : v₁.screen.KeepsLine ⟨0, 0, 0⟩ initRequest := by
    rw [hd]
    exact { init_keeps hv with }
  obtain ⟨hline, -⟩ := hkeeps.getDefaultLine ⟨0, 1, 80⟩
  have hkept : KeyedCache.keep LineRequest.Matches initRequest ⟨0, 1, 80⟩ = initRequest := by decide
  rw [hkept] at hline
  have hcell : (Screen.lineFor ⟨0, 0, 0⟩ initRequest).cell 0 =
      blankCell fgColorCodeDefault bgColorCodeDefault := rfl
  have hanswer : (v₁.screen.getDefaultLineWithWidth v₁.terminal v₁.screen.width).2 =
      Screen.lineFor ⟨0, 0, 0⟩ initRequest := by
    rw [Screen.getDefaultLineWithWidth, hfg, hbg, hwidth]
    exact hline
  -- the first call of `clearScreen`
  refine ⟨v, ⟨⟨0, 1, 80⟩, Screen.lineFor ⟨0, 0, 0⟩ initRequest⟩, hv, ?_, rfl, hcell, fun hright => ?_⟩
  · have hfirst : (v.lineEventLog Foundation.latin1 (.sgr [[0x33, 0x30], [0x34, 0x31]])).result =
        .ok v₁ := h₁
    rw [lineRunLog, Traced.log_bind_of_ok _ hfirst]
    refine List.mem_append_right _ (Traced.log_bind_of_mem _ ?_)
    rw [lineEventLog_op_log]
    refine Traced.log_bind_of_mem _ ?_
    rw [Screen.clearScreenLog, Screen.withDefaultLine, Traced.log_after, hfg, hbg, hanswer, hwidth]
    exact List.mem_cons_self ..
  · have hblank := hright.cells 0 (Int.le_refl 0) (by decide)
    rw [hcell] at hblank
    exact absurd hblank (by decide)

end VT100

end MobileTerminal
