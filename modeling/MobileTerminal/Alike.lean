import MobileTerminal.Fetch
import MobileTerminal.Wait

/-!
# What the dirty flags do not decide

No operation of the screen reads a dirty flag: they tell the view what to draw
and nothing else. `SameButDirty` relates two screens that differ in their flags
only; every operation keeps it, and it faults on the one screen exactly when it
faults on the other. The same holds of a whole `VT100` object for the flags and
for the place its pending bytes have in the stream buffer (`VT100.Alike`), and
so of the token loop.

This is what the comparison of different ways to cut the input rests on. Every
call of `readInputStream:` ends with a refresh of the flags around the cursor,
and moves what is pending to the start of the buffer when that is full. Two ways
to cut the same bytes therefore never lead to equal states, only to states that
are alike.

There is one lemma for each operation, named like it, and all have the same
shape: alike before, alike or the same fault afterwards (`ExceptRel`). The
relation goes through `bind`, `if` and the loops by general rules, so the lemmas
follow the text of the operations.
-/

namespace MobileTerminal

namespace Screen

variable {t : Terminal} {s s' : Screen}

/-- Two screens that differ in nothing but their dirty flags. -/
def SameButDirty (s s' : Screen) : Prop := ∃ d, s' = { s with dirty := d }

namespace SameButDirty

theorem refl (s : Screen) : SameButDirty s s := ⟨_, rfl⟩

theorem symm (h : SameButDirty s s') : SameButDirty s' s := by
  obtain ⟨d, rfl⟩ := h
  exact ⟨s.dirty, rfl⟩

theorem trans {s'' : Screen} (h : SameButDirty s s') (h' : SameButDirty s' s'') :
    SameButDirty s s'' := by
  obtain ⟨d, rfl⟩ := h
  obtain ⟨d', rfl⟩ := h'
  exact ⟨d', rfl⟩

theorem ite {p : Prop} [Decidable p] {a a' b b' : Screen} (ha : SameButDirty a a')
    (hb : SameButDirty b b') : SameButDirty (if p then a else b) (if p then a' else b') := by
  split
  · exact ha
  · exact hb

/-! ## Flags and cells -/

theorem touch (h : SameButDirty s s') (i j : Int) : SameButDirty (s.touch i) (s'.touch j) := by
  obtain ⟨d, rfl⟩ := h
  exact ⟨_, rfl⟩

theorem dirtyFill (h : SameButDirty s s') (v v' : Bool) (i i' n : Int) :
    ExceptRel SameButDirty (s.dirtyFill v i n) (s'.dirtyFill v' i' n) := by
  obtain ⟨d, rfl⟩ := h
  unfold Screen.dirtyFill DirtyMap.fill
  by_cases hn : n < 0
  · simp only [hn, if_true]
    exact .error _
  · simp only [hn, if_false]
    exact ⟨_, rfl⟩

theorem refresh (h : SameButDirty s s') : ExceptRel SameButDirty s.refresh s'.refresh := by
  have hflags := fun n => h.dirtyFill false false 0 0 n
  obtain ⟨d, rfl⟩ := h
  exact .ite (fun _ => hflags _) (fun _ => ⟨d, rfl⟩)

theorem setDirty (h : SameButDirty s s') : ExceptRel SameButDirty s.setDirty s'.setDirty := by
  have hsize : s'.width * s'.height = s.width * s.height := by
    obtain ⟨d, rfl⟩ := h
    rfl
  unfold Screen.setDirty
  rw [hsize]
  exact (h.dirtyFill _ _ _ _ _).bind fun _ _ h => h.refresh

theorem storeCell (h : SameButDirty s s') (a : Int) (c : ScreenChar) :
    ExceptRel SameButDirty (s.storeCell a c) (s'.storeCell a c) := by
  obtain ⟨d, rfl⟩ := h
  exact .bind_same _ fun b => ⟨d, rfl⟩

theorem storeCh (h : SameButDirty s s') (a : Int) (ch : UniChar) :
    ExceptRel SameButDirty (s.storeCh a ch) (s'.storeCh a ch) := by
  obtain ⟨d, rfl⟩ := h
  exact .bind_same _ fun c => storeCell ⟨d, rfl⟩ _ _

theorem moveCells (h : SameButDirty s s') (target source n : Int) :
    ExceptRel SameButDirty (s.moveCells target source n) (s'.moveCells target source n) := by
  obtain ⟨d, rfl⟩ := h
  exact .bind_same _ fun b => ⟨d, rfl⟩

theorem copyLine (h : SameButDirty s s') (target source : Int) :
    ExceptRel SameButDirty (s.copyLine target source) (s'.copyLine target source) := by
  obtain ⟨d, rfl⟩ := h
  exact moveCells ⟨d, rfl⟩ _ _ _

theorem clearLine (h : SameButDirty s s') (target : Int) (line : Block ScreenChar) :
    ExceptRel SameButDirty (s.clearLine target line) (s'.clearLine target line) := by
  obtain ⟨d, rfl⟩ := h
  exact .bind_same _ fun b => ⟨d, rfl⟩

theorem getDefaultLineWithWidth (h : SameButDirty s s') (t : Terminal) (width : Int) :
    SameButDirty (s.getDefaultLineWithWidth t width).1 (s'.getDefaultLineWithWidth t width).1 ∧
      (s'.getDefaultLineWithWidth t width).2 = (s.getDefaultLineWithWidth t width).2 := by
  obtain ⟨d, rfl⟩ := h
  have hsame : { s with dirty := d }.getDefaultLineWithWidth t width =
      ({ (s.getDefaultLineWithWidth t width).1 with dirty := d },
        (s.getDefaultLineWithWidth t width).2) := by
    unfold Screen.getDefaultLineWithWidth getDefaultLine
    simp only
    split
    · split <;> rfl
    · rfl
  rw [hsame]
  exact ⟨⟨d, rfl⟩, rfl⟩

theorem setDefaultLine (h : SameButDirty s s') (t : Terminal) (target : Int) :
    ExceptRel SameButDirty (s.setDefaultLine t target) (s'.setDefaultLine t target) := by
  have hwidth : s'.width = s.width := by
    obtain ⟨d, rfl⟩ := h
    rfl
  obtain ⟨hs, hline⟩ := h.getDefaultLineWithWidth t s.width
  simp only [Screen.setDefaultLine, hwidth, hline]
  exact hs.clearLine _ _

theorem blankCells (h : SameButDirty s s') (t : Terminal) (a : Int) (n : Nat) :
    ExceptRel SameButDirty (s.blankCells t a n) (s'.blankCells t a n) :=
  forUp_rel (fun _ _ _ h => h.storeCell _ _) 0 n h

theorem getLineAtScreenIndex (h : SameButDirty s s') (i : Int) :
    s'.getLineAtScreenIndex i = s.getLineAtScreenIndex i := by
  obtain ⟨d, rfl⟩ := h
  rfl

theorem scrollAsserts (h : SameButDirty s s') : s'.scrollAsserts = s.scrollAsserts := by
  obtain ⟨d, rfl⟩ := h
  rfl

theorem dirtyRegion (h : SameButDirty s s') :
    ExceptRel SameButDirty s.dirtyRegion s'.dirtyRegion := by
  obtain ⟨d, rfl⟩ := h
  exact dirtyFill ⟨d, rfl⟩ _ _ _ _ _

/-- A row that is looked up and then used. -/
theorem atRow {f g : Int → Res Screen} (h : SameButDirty s s') (i : Int)
    (hfg : ∀ a, ExceptRel SameButDirty (f a) (g a)) :
    ExceptRel SameButDirty (s.getLineAtScreenIndex i >>= f) (s'.getLineAtScreenIndex i >>= g) := by
  rw [h.getLineAtScreenIndex]
  exact .bind_same _ hfg

/-! ## Scrolling and line feeds -/

theorem moveRegionUp (h : SameButDirty s s') :
    ExceptRel SameButDirty s.moveRegionUp s'.moveRegionUp := by
  have hpair := h
  obtain ⟨d, rfl⟩ := h
  refine hpair.atRow _ fun a => hpair.atRow _ fun b =>
    .ite (fun _ => hpair.moveCells _ _ _) fun _ => ?_
  exact forUp_rel (fun i _ _ h => h.atRow (i + 1) fun a => h.atRow i fun b => h.copyLine b a) _ _
    hpair

theorem scrollUpRegion (h : SameButDirty s s') (t : Terminal) :
    ExceptRel SameButDirty (s.scrollUpRegion t) (s'.scrollUpRegion t) := by
  have hmove := h.moveRegionUp
  obtain ⟨d, rfl⟩ := h
  refine .ite (fun _ => hmove.bind fun s₁ s₂ h => ?_) (fun _ => ⟨d, rfl⟩)
  have hbottom : s₂.scrollBottom = s₁.scrollBottom := by
    obtain ⟨d', rfl⟩ := h
    rfl
  rw [hbottom]
  exact h.atRow _ fun a => (h.setDefaultLine t a).bind fun _ _ h => h.dirtyRegion

theorem addLineToScrollback (h : SameButDirty s s') :
    SameButDirty s.addLineToScrollback.2 s'.addLineToScrollback.2 ∧
      s'.addLineToScrollback.1 = s.addLineToScrollback.1 := by
  obtain ⟨d, rfl⟩ := h
  have hsame : { s with dirty := d }.addLineToScrollback =
      (s.addLineToScrollback.1, { s.addLineToScrollback.2 with dirty := d }) := by
    unfold Screen.addLineToScrollback
    simp only
    split
    · split
      · split <;> rfl
      · rfl
    · rfl
  rw [hsame]
  exact ⟨⟨d, rfl⟩, rfl⟩

theorem keepTopLine (h : SameButDirty s s') :
    ExceptRel SameButDirty s.keepTopLine s'.keepTopLine := by
  have hall := h.setDirty
  obtain ⟨hadd, hlost⟩ := h.addLineToScrollback
  have hmax : s'.maxScrollbackLines = s.maxScrollbackLines := by
    obtain ⟨d, rfl⟩ := h
    rfl
  simp only [Screen.keepTopLine, hmax, hlost]
  refine .ite (fun _ => .ite (fun _ => hadd.setDirty) (fun _ => ?_)) (fun _ => hall)
  obtain ⟨d, hadd⟩ := hadd
  rw [hadd]
  -- the flags move along with the rows; a negative length stops both
  simp only [DirtyMap.move]
  by_cases hn : s.addLineToScrollback.2.width * (s.addLineToScrollback.2.height - 1) < 0
  · simp only [hn, if_true]
    exact .error _
  · simp only [hn, if_false, ok_bind]
    exact dirtyFill ⟨_, rfl⟩ _ _ _ _ _

theorem setNewLine (h : SameButDirty s s') (t : Terminal) :
    ExceptRel SameButDirty (s.setNewLine t) (s'.setNewLine t) := by
  have hkeep := h.keepTopLine
  have hregion := h.scrollUpRegion t
  obtain ⟨d, rfl⟩ := h
  refine .ite (fun _ => ?_) (fun _ => .ite (fun _ => ?_) (fun _ => ?_))
  · exact ite ⟨_, rfl⟩ ⟨d, rfl⟩
  · refine hkeep.bind fun s₁ s₂ h => ?_
    obtain ⟨d', rfl⟩ := h
    exact atRow ⟨d', rfl⟩ _ fun a => setDefaultLine ⟨d', rfl⟩ t a
  · exact .bind_same _ fun _ => hregion

theorem scrollUp (h : SameButDirty s s') (t : Terminal) :
    ExceptRel SameButDirty (s.scrollUp t) (s'.scrollUp t) := by
  have hline := h.setNewLine t
  have hregion := h.scrollUpRegion t
  obtain ⟨d, rfl⟩ := h
  exact .bind_same _ fun _ => .ite (fun _ => hline) (fun _ => hregion)

theorem moveRegionDown (h : SameButDirty s s') :
    ExceptRel SameButDirty s.moveRegionDown s'.moveRegionDown := by
  have hpair := h
  obtain ⟨d, rfl⟩ := h
  refine .ite (fun _ => hpair.atRow _ fun a => hpair.atRow _ fun b =>
    .ite (fun _ => hpair.moveCells _ _ _) fun _ => ?_) (fun _ => hpair)
  exact forDown_rel (fun i _ _ h => h.atRow i fun a => h.atRow (i + 1) fun b => h.copyLine b a) _ _
    hpair

theorem scrollDown (h : SameButDirty s s') (t : Terminal) :
    ExceptRel SameButDirty (s.scrollDown t) (s'.scrollDown t) := by
  have hmove := h.moveRegionDown
  have hasserts := h.scrollAsserts
  simp only [Screen.scrollDown, hasserts]
  refine .bind_same _ fun _ => hmove.bind fun s₁ s₂ h => ?_
  have htop : s₂.scrollTop = s₁.scrollTop := by
    obtain ⟨d, rfl⟩ := h
    rfl
  rw [htop]
  exact h.atRow _ fun a => (h.setDefaultLine t a).bind fun _ _ h => h.dirtyRegion

/-! ## Text -/

theorem stepRight (h : SameButDirty s s') : SameButDirty s.stepRight s'.stepRight := by
  obtain ⟨d, rfl⟩ := h
  exact ⟨_, rfl⟩

theorem wrapToNextLine (h : SameButDirty s s') (t : Terminal) :
    ExceptRel SameButDirty (s.wrapToNextLine t) (s'.wrapToNextLine t) := by
  obtain ⟨d, rfl⟩ := h
  have hstart : SameButDirty { s with cursorX := 0 } { s with cursorX := 0, dirty := d } :=
    ⟨d, rfl⟩
  exact hstart.atRow _ fun a => (hstart.storeCh _ _).bind fun _ _ h => h.setNewLine t

theorem putCell (h : SameButDirty s s') (t : Terminal) (c : ScreenChar) :
    ExceptRel SameButDirty (s.putCell t c) (s'.putCell t c) := by
  have hstore := fun a c => h.storeCell a c
  obtain ⟨d, rfl⟩ := h
  refine atRow ⟨d, rfl⟩ _ fun a => (hstore _ _).bind fun s₁ s₂ h => ?_
  have hstep := h.stepRight
  obtain ⟨d', rfl⟩ := h
  exact .ite (fun _ => hstep.wrapToNextLine t) (fun _ => hstep)

/-- The cells of a string, one after the other. -/
theorem putCells (h : SameButDirty s s') (t : Terminal) (cells : List ScreenChar) :
    ExceptRel SameButDirty (cells.foldlM (fun s c => s.putCell t c) s)
      (cells.foldlM (fun s c => s.putCell t c) s') := by
  induction cells generalizing s s' with
  | nil => exact h
  | cons c cells ih =>
      rw [List.foldlM_cons, List.foldlM_cons]
      exact (h.putCell t c).bind fun _ _ h => ih h

theorem setString (h : SameButDirty s s') (F : Foundation) (t : Terminal) (string : List UniChar)
    (ascii : Bool) :
    ExceptRel SameButDirty (s.setString F t string ascii) (s'.setString F t string ascii) := by
  have hcells := fun cells => h.putCells t cells
  obtain ⟨d, rfl⟩ := h
  exact .ite (fun _ => ⟨d, rfl⟩) (fun _ => .bind_same _ fun cells => hcells cells)

theorem printStringToAnsi (h : SameButDirty s s') (string : List UniChar) :
    SameButDirty (s.printStringToAnsi string) (s'.printStringToAnsi string) := by
  obtain ⟨d, rfl⟩ := h
  exact ite ⟨d, rfl⟩ ⟨d, rfl⟩

theorem putString (h : SameButDirty s s') (F : Foundation) (t : Terminal) (string : List UniChar)
    (ascii : Bool) :
    ExceptRel SameButDirty (s.putString F t string ascii) (s'.putString F t string ascii) := by
  have hprint := h.printStringToAnsi string
  have hset := h.setString F t string ascii
  obtain ⟨d, rfl⟩ := h
  exact .ite (fun _ => hprint) (fun _ => hset)

/-! ## Editing and erasing -/

theorem deleteCharacters (h : SameButDirty s s') (t : Terminal) (n : Int) :
    ExceptRel SameButDirty (s.deleteCharacters t n) (s'.deleteCharacters t n) := by
  have hmove := fun a b n => h.moveCells a b n
  obtain ⟨d, rfl⟩ := h
  refine .ite (fun _ => atRow ⟨d, rfl⟩ _ fun a => ?_) (fun _ => ⟨d, rfl⟩)
  refine ExceptRel.bind (R := SameButDirty) (.ite (fun _ => hmove _ _ _) (fun _ => ⟨d, rfl⟩))
    fun s₁ s₂ h => ?_
  have hblank := fun a n => h.blankCells t a n
  obtain ⟨d', rfl⟩ := h
  refine (hblank _ _).bind fun s₁ s₂ h => ?_
  obtain ⟨d'', rfl⟩ := h
  exact dirtyFill ⟨d'', rfl⟩ _ _ _ _ _

theorem backSpace (h : SameButDirty s s') : SameButDirty s.backSpace s'.backSpace := by
  obtain ⟨d, rfl⟩ := h
  exact ite ⟨d, rfl⟩ ⟨d, rfl⟩

theorem setTab (h : SameButDirty s s') : ExceptRel SameButDirty s.setTab s'.setTab := by
  obtain ⟨d, rfl⟩ := h
  exact .bind_same _ fun x => ⟨d, rfl⟩

theorem insertBlank (h : SameButDirty s s') (t : Terminal) (n : Int) :
    ExceptRel SameButDirty (s.insertBlank t n) (s'.insertBlank t n) := by
  have hmove := fun a b n => h.moveCells a b n
  obtain ⟨d, rfl⟩ := h
  refine .ite (fun _ => ⟨d, rfl⟩) (fun _ => atRow ⟨d, rfl⟩ _ fun a => ?_)
  refine (hmove _ _ _).bind fun s₁ s₂ h => ?_
  have hblank := fun a n => h.blankCells t a n
  obtain ⟨d', rfl⟩ := h
  refine (hblank _ _).bind fun s₁ s₂ h => ?_
  obtain ⟨d'', rfl⟩ := h
  exact dirtyFill ⟨d'', rfl⟩ _ _ _ _ _

theorem eraseCharacters (h : SameButDirty s s') (t : Terminal) (n : Int) :
    ExceptRel SameButDirty (s.eraseCharacters t n) (s'.eraseCharacters t n) := by
  have hblank := fun a n => h.blankCells t a n
  obtain ⟨d, rfl⟩ := h
  refine .ite (fun _ => atRow ⟨d, rfl⟩ _ fun a => ?_) (fun _ => ⟨d, rfl⟩)
  refine (hblank _ _).bind fun s₁ s₂ h => ?_
  obtain ⟨d', rfl⟩ := h
  exact dirtyFill ⟨d', rfl⟩ _ _ _ _ _

theorem eraseLoop (h : SameButDirty s s') (t : Terminal) (idx1 idx2 : Int) :
    ExceptRel (fun p p' => p.1 = p'.1 ∧ SameButDirty p.2 p'.2) (s.eraseLoop t idx1 idx2)
      (s'.eraseLoop t idx1 idx2) := by
  have hpair := h
  obtain ⟨d, rfl⟩ := h
  refine forUp_rel (fun i p p' h => ?_) _ _ ⟨rfl, hpair⟩
  obtain ⟨a, s₁⟩ := p
  obtain ⟨a', s₂⟩ := p'
  obtain ⟨rfl, h⟩ := h
  exact (h.storeCell _ _).bind fun _ _ h => ⟨rfl, h⟩

theorem eraseInDisplay (h : SameButDirty s s') (t : Terminal) (p : Int) :
    ExceptRel SameButDirty (s.eraseInDisplay t p) (s'.eraseInDisplay t p) := by
  have hloop := fun a b => h.eraseLoop t a b
  obtain ⟨d, rfl⟩ := h
  refine (hloop _ _).bind fun p₁ p₂ h => ?_
  obtain ⟨-, d', h⟩ := h
  simp only [h]
  exact dirtyFill ⟨d', rfl⟩ _ _ _ _ _

theorem eraseInLine (h : SameButDirty s s') (t : Terminal) (p : Int) :
    ExceptRel SameButDirty (s.eraseInLine t p) (s'.eraseInLine t p) := by
  have hblank := fun a n => h.blankCells t a n
  obtain ⟨d, rfl⟩ := h
  refine atRow ⟨d, rfl⟩ _ fun a => (hblank _ _).bind fun s₁ s₂ h => ?_
  obtain ⟨d', rfl⟩ := h
  exact dirtyFill ⟨d', rfl⟩ _ _ _ _ _

theorem alignmentRow (h : SameButDirty s s') (t : Terminal) (a : Int) :
    ExceptRel SameButDirty
      (forUp (fun j s => s.storeCell (a + j) { t.blank with ch := 0x45 }) 0 s.width.toNat s >>=
        fun s => s.storeCh (a + s.width) 0)
      (forUp (fun j s => s.storeCell (a + j) { t.blank with ch := 0x45 }) 0 s'.width.toNat s' >>=
        fun s => s.storeCh (a + s.width) 0) := by
  have hpair := h
  obtain ⟨d, rfl⟩ := h
  refine (forUp_rel (fun j _ _ h => h.storeCell _ _) _ _ hpair).bind fun s₁ s₂ h => ?_
  have hmark := fun a => h.storeCh a 0
  obtain ⟨d', rfl⟩ := h
  exact hmark _

theorem alignmentDisplay (h : SameButDirty s s') (t : Terminal) :
    ExceptRel SameButDirty (s.alignmentDisplay t) (s'.alignmentDisplay t) := by
  have hpair := h
  obtain ⟨d, rfl⟩ := h
  exact (forUp_rel (fun i _ _ h => h.atRow i fun a => h.alignmentRow t a) _ _ hpair).bind
    fun _ _ h => h.setDirty

/-! ## Moving the cursor -/

theorem cursorLeft (h : SameButDirty s s') (n : Int) :
    SameButDirty (s.cursorLeft n) (s'.cursorLeft n) := by
  obtain ⟨d, rfl⟩ := h
  exact touch (ite ⟨d, rfl⟩ ⟨d, rfl⟩) _ _

theorem cursorRight (h : SameButDirty s s') (n : Int) :
    SameButDirty (s.cursorRight n) (s'.cursorRight n) := by
  obtain ⟨d, rfl⟩ := h
  exact touch (ite ⟨d, rfl⟩ ⟨d, rfl⟩) _ _

theorem cursorUp (h : SameButDirty s s') (n : Int) :
    SameButDirty (s.cursorUp n) (s'.cursorUp n) := by
  obtain ⟨d, rfl⟩ := h
  exact ite ⟨_, rfl⟩ ⟨d, rfl⟩

theorem cursorDown (h : SameButDirty s s') (n : Int) :
    SameButDirty (s.cursorDown n) (s'.cursorDown n) := by
  obtain ⟨d, rfl⟩ := h
  exact ite ⟨_, rfl⟩ ⟨d, rfl⟩

theorem cursorToX (h : SameButDirty s s') (x : Int) :
    SameButDirty (s.cursorToX x) (s'.cursorToX x) := by
  obtain ⟨d, rfl⟩ := h
  exact ⟨_, rfl⟩

theorem cursorToXY (h : SameButDirty s s') (t : Terminal) (x y : Int) :
    SameButDirty (s.cursorToXY t x y) (s'.cursorToXY t x y) := by
  obtain ⟨d, rfl⟩ := h
  exact ⟨_, rfl⟩

theorem saveCursorPosition (h : SameButDirty s s') :
    SameButDirty s.saveCursorPosition s'.saveCursorPosition := by
  obtain ⟨d, rfl⟩ := h
  exact ⟨d, rfl⟩

theorem restoreCursorPosition (h : SameButDirty s s') :
    ExceptRel SameButDirty s.restoreCursorPosition s'.restoreCursorPosition := by
  obtain ⟨d, rfl⟩ := h
  exact .bind_same _ fun _ => .bind_same _ fun _ => ⟨d, rfl⟩

theorem setTopBottom (h : SameButDirty s s') (t : Terminal) (p0 p1 : Int) :
    SameButDirty (s.setTopBottom t p0 p1) (s'.setTopBottom t p0 p1) := by
  obtain ⟨d, rfl⟩ := h
  exact ite ⟨d, rfl⟩ ⟨d, rfl⟩

theorem index (h : SameButDirty s s') (t : Terminal) :
    ExceptRel SameButDirty (s.index t) (s'.index t) := by
  have hup := h.scrollUp t
  obtain ⟨d, rfl⟩ := h
  exact .ite (fun _ => hup) (fun _ => ⟨d, rfl⟩)

theorem reverseIndex (h : SameButDirty s s') (t : Terminal) :
    ExceptRel SameButDirty (s.reverseIndex t) (s'.reverseIndex t) := by
  have hdown := h.scrollDown t
  obtain ⟨d, rfl⟩ := h
  exact .ite (fun _ => hdown) (fun _ => ⟨d, rfl⟩)

/-! ## Inserting and deleting lines -/

theorem clearRows (h : SameButDirty s s') (line : Block ScreenChar) (y : Int) (n : Nat) :
    ExceptRel SameButDirty (s.clearRows line y n) (s'.clearRows line y n) :=
  forUp_rel (fun _ _ _ h => h.atRow _ fun a => h.clearLine a line) 0 n h

theorem moveRowsDown (h : SameButDirty s s') (n : Int) :
    ExceptRel SameButDirty (s.moveRowsDown n) (s'.moveRowsDown n) := by
  have hpair := h
  obtain ⟨d, rfl⟩ := h
  refine .ite (fun _ => forDown_rel (fun i s₁ s₂ h => ?_) _ _ hpair) (fun _ => hpair)
  have hcopy := fun a b => h.copyLine a b
  obtain ⟨d', rfl⟩ := h
  exact atRow ⟨d', rfl⟩ _ fun a => atRow ⟨d', rfl⟩ _ fun b => hcopy b a

theorem moveRowsUp (h : SameButDirty s s') (n : Int) :
    ExceptRel SameButDirty (s.moveRowsUp n) (s'.moveRowsUp n) := by
  have hpair := h
  obtain ⟨d, rfl⟩ := h
  refine .ite (fun _ => forUp_rel (fun i s₁ s₂ h => ?_) _ _ hpair) (fun _ => hpair)
  have hcopy := fun a b => h.copyLine a b
  obtain ⟨d', rfl⟩ := h
  exact atRow ⟨d', rfl⟩ _ fun a => atRow ⟨d', rfl⟩ _ fun b => hcopy b a

/-- What `insertLines:` and `deleteLines:` do after the rows have moved. -/
theorem clearRows_dirty (h : SameButDirty s s') (t : Terminal) (y : Int) (n : Nat) :
    ExceptRel SameButDirty
      ((s.getDefaultLineWithWidth t s.width).1.clearRows (s.getDefaultLineWithWidth t s.width).2 y n
        >>= fun s => s.dirtyFill true (s.cursorY * s.width)
          ((s.scrollBottom - s.cursorY + 1) * s.width))
      ((s'.getDefaultLineWithWidth t s'.width).1.clearRows
          (s'.getDefaultLineWithWidth t s'.width).2 y n
        >>= fun s => s.dirtyFill true (s.cursorY * s.width)
          ((s.scrollBottom - s.cursorY + 1) * s.width)) := by
  have hwidth : s'.width = s.width := by
    obtain ⟨d, rfl⟩ := h
    rfl
  obtain ⟨hs, hline⟩ := h.getDefaultLineWithWidth t s.width
  rw [hwidth, hline]
  refine (hs.clearRows _ _ _).bind fun s₁ s₂ h => ?_
  obtain ⟨d, rfl⟩ := h
  exact dirtyFill ⟨d, rfl⟩ _ _ _ _ _

theorem insertLines (h : SameButDirty s s') (t : Terminal) (n : Int) :
    ExceptRel SameButDirty (s.insertLines t n) (s'.insertLines t n) := by
  refine (h.moveRowsDown n).bind fun s₁ s₂ h => ?_
  have hclear := fun y n => h.clearRows_dirty t y n
  obtain ⟨d, rfl⟩ := h
  exact hclear _ _

theorem deleteLines (h : SameButDirty s s') (t : Terminal) (n : Int) :
    ExceptRel SameButDirty (s.deleteLines t n) (s'.deleteLines t n) := by
  refine (h.moveRowsUp n).bind fun s₁ s₂ h => ?_
  have hclear := fun y n => h.clearRows_dirty t y n
  obtain ⟨d, rfl⟩ := h
  exact hclear _ _

/-! ## `putToken:` -/

theorem markTab (h : SameButDirty s s') (v : Bool) :
    ExceptRel SameButDirty (s.markTab v) (s'.markTab v) := by
  obtain ⟨d, rfl⟩ := h
  exact .ite (fun _ => .bind_same _ fun tabs => ⟨d, rfl⟩) (fun _ => ⟨d, rfl⟩)

theorem printAnsi (h : SameButDirty s s') (p : Int) :
    SameButDirty (s.printAnsi p) (s'.printAnsi p) := by
  obtain ⟨d, rfl⟩ := h
  exact ite ⟨d, rfl⟩ (ite ⟨d, rfl⟩ ⟨d, rfl⟩)

theorem lineFeed (h : SameButDirty s s') (t : Terminal) :
    ExceptRel SameButDirty (s.lineFeed t) (s'.lineFeed t) := by
  have hprint := h.printStringToAnsi [0x0a]
  have hline := h.setNewLine t
  obtain ⟨d, rfl⟩ := h
  refine ExceptRel.bind (R := SameButDirty) (.ite (fun _ => hprint) (fun _ => hline))
    fun s₁ s₂ h => ?_
  obtain ⟨d', rfl⟩ := h
  exact ⟨d', rfl⟩

theorem putControl (h : SameButDirty s s') (t : Terminal) (code : Nat) :
    ExceptRel SameButDirty (s.putControl t code) (s'.putControl t code) := by
  have hcolumn : SameButDirty { s with cursorX := 0 } { s' with cursorX := 0 } := by
    obtain ⟨d, rfl⟩ := h
    exact ⟨d, rfl⟩
  have hbell : SameButDirty s.setBell s'.setBell := by
    obtain ⟨d, rfl⟩ := h
    exact ⟨d, rfl⟩
  unfold Screen.putControl
  split
  · exact hbell
  · exact h.backSpace
  · exact h.setTab
  · exact h.lineFeed t
  · exact h.lineFeed t
  · exact h.lineFeed t
  · exact hcolumn
  · exact h.deleteCharacters t 1
  · exact h

/-- The control characters in the middle of a sequence. -/
theorem control (h : SameButDirty s s') (t : Terminal) (b : UInt8) :
    ExceptRel SameButDirty (MobileTerminal.control t s b) (MobileTerminal.control t s' b) := by
  have hbell : SameButDirty s.setBell s'.setBell := by
    obtain ⟨d, rfl⟩ := h
    exact ⟨d, rfl⟩
  have hrow : s'.cursorY = s.cursorY := by
    obtain ⟨d, rfl⟩ := h
    rfl
  unfold MobileTerminal.control csiControl
  split
  case h_2 => exact hbell
  case h_3 => exact h.backSpace
  case h_4 => exact h.setTab
  case h_5 => exact h.setNewLine t
  case h_6 => exact h.setNewLine t
  case h_7 => exact h.setNewLine t
  case h_8 =>
    rw [hrow]
    exact h.cursorToXY t _ _
  case h_15 => exact h.deleteCharacters t 1
  all_goals exact h

theorem dispatch (h : SameButDirty s s') (F : Foundation) (t : Terminal) (tok : VT100TCC) :
    ExceptRel SameButDirty (s.dispatch F t tok) (s'.dispatch F t tok) := by
  have hpair := h
  unfold Screen.dispatch
  simp only
  split
  case h_1 => exact h.putString F t _ _
  case h_2 => exact h.putString F t _ _
  case h_3 => exact h.putControl t _
  case h_4 => exact h.cursorLeft _
  case h_5 => exact h.cursorDown _
  case h_6 => exact h.cursorRight _
  case h_7 => exact h.cursorToXY t _ _
  case h_8 => exact h.cursorUp _
  case h_9 => exact h.alignmentDisplay t
  case h_10 => exact h.restoreCursorPosition
  case h_11 => exact h.saveCursorPosition
  case h_12 => exact h.setTopBottom t _ _
  case h_13 => exact h.eraseInDisplay t _
  case h_14 => exact h.eraseInLine t _
  case h_15 => exact h.markTab true
  case h_16 => exact h.cursorToXY t _ _
  case h_17 =>
    obtain ⟨d, rfl⟩ := h
    exact index ⟨d, rfl⟩ t
  case h_18 => exact h.index t
  case h_19 => exact h.reverseIndex t
  case h_24 =>
    obtain ⟨d, rfl⟩ := h
    exact .ite (fun _ => ⟨d, rfl⟩) (fun _ => .ite (fun _ => hpair.markTab false) (fun _ => hpair))
  case h_25 =>
    obtain ⟨d, rfl⟩ := h
    exact ite ⟨d, rfl⟩ ⟨d, rfl⟩
  case h_26 =>
    obtain ⟨d, rfl⟩ := h
    exact ite ⟨d, rfl⟩ ⟨d, rfl⟩
  case h_27 => exact h.cursorToX _
  case h_28 =>
    obtain ⟨d, rfl⟩ := h
    exact hpair.cursorToXY t _ _
  case h_29 =>
    obtain ⟨d, rfl⟩ := h
    exact hpair.cursorToXY t _ _
  case h_30 => exact h.eraseCharacters t _
  case h_31 => exact h.printAnsi _
  case h_32 => exact h.insertBlank t _
  case h_33 => exact h.insertLines t _
  case h_34 => exact h.deleteCharacters t _
  case h_35 => exact h.deleteLines t _
  case h_36 => exact forUp_rel (fun _ _ _ h => h.scrollUp t) _ _ h
  case h_37 => exact forUp_rel (fun _ _ _ h => h.scrollDown t) _ _ h
  case h_38 => exact h
  all_goals
    -- the four character sets
    obtain ⟨d, rfl⟩ := h
    exact ⟨d, rfl⟩

theorem putToken (h : SameButDirty s s') (F : Foundation) (t : Terminal) (tok : VT100TCC) :
    ExceptRel SameButDirty (s.putToken F t tok) (s'.putToken F t tok) := by
  have hrun := h.dispatch F t tok
  obtain ⟨d, rfl⟩ := h
  refine hrun.bind fun s₁ s₂ h => ?_
  have hpair := h
  obtain ⟨d', rfl⟩ := h
  exact ite (hpair.touch _ _) hpair

/-- The token is followed by the same token without its cursor flag. -/
theorem putToken_dispatch (F : Foundation) (t : Terminal) (tok : VT100TCC) (s : Screen) :
    ExceptRel SameButDirty (s.dispatch F t tok) (s.putToken F t tok) := by
  unfold Screen.putToken
  cases s.dispatch F t tok with
  | error e => exact .error e
  | ok s' =>
      show SameButDirty s' (if _ then _ else _)
      split
      · exact ⟨_, rfl⟩
      · exact .refl s'

theorem saveBuffer (h : SameButDirty s s') : ExceptRel SameButDirty s.saveBuffer s'.saveBuffer := by
  obtain ⟨d, rfl⟩ := h
  exact .bind_same _ fun temp => ⟨d, rfl⟩

theorem restoreBuffer (h : SameButDirty s s') :
    ExceptRel SameButDirty s.restoreBuffer s'.restoreBuffer := by
  have htemp : s'.tempBuffer = s.tempBuffer := by
    obtain ⟨d, rfl⟩ := h
    rfl
  unfold Screen.restoreBuffer
  rw [htemp]
  split
  · exact h
  · obtain ⟨d, rfl⟩ := h
    refine .bind_same _ fun b => ?_
    have hbuffer : SameButDirty { s with bufferLines := b } { s with bufferLines := b, dirty := d } :=
      ⟨d, rfl⟩
    refine hbuffer.setDirty.bind fun s₁ s₂ h => ?_
    obtain ⟨d', rfl⟩ := h
    exact ⟨d', rfl⟩

end SameButDirty

theorem refresh_sameButDirty (hok : s.refresh = .ok s') : SameButDirty s s' := by
  unfold refresh at hok
  split at hok
  · obtain ⟨d, -, hok⟩ := bind_eq_ok.mp hok
    cases hok
    exact ⟨d, rfl⟩
  · cases hok
    exact .refl s

end Screen

/-! ## The `VT100` object -/

/-- An operation of the screen sees the modes of the terminal, not its stream. -/
theorem putToken_sameModes (F : Foundation) {t t' : Terminal} (h : t.SameModes t')
    (tok : VT100TCC) (s : Screen) : s.putToken F t' tok = s.putToken F t tok := by
  obtain ⟨stream, len, total, off, rfl⟩ := h
  rfl

theorem control_sameModes {t t' : Terminal} (h : t.SameModes t') (b : UInt8) (s : Screen) :
    control t' s b = control t s b := by
  obtain ⟨stream, len, total, off, rfl⟩ := h
  rfl

/-- The control characters of a sequence, one after the other. -/
theorem controls_alike {t t' : Terminal} (h : t.SameModes t') {s s' : Screen}
    (hs : s.SameButDirty s') (bs : List UInt8) :
    ExceptRel Screen.SameButDirty (bs.foldlM (control t) s) (bs.foldlM (control t') s') := by
  induction bs generalizing s s' with
  | nil => exact hs
  | cons b bs ih =>
      rw [List.foldlM_cons, List.foldlM_cons, control_sameModes h]
      exact (hs.control t b).bind fun _ _ hs => ih hs

/-- The same token, the same number of bytes, and screens alike. -/
def SameDecoded (p p' : VT100TCC × Nat × Screen) : Prop :=
  p.1 = p'.1 ∧ p.2.1 = p'.2.1 ∧ p.2.2.SameButDirty p'.2.2

theorem decodeCsi_alike {t t' : Terminal} (h : t.SameModes t') {s s' : Screen}
    (hs : s.SameButDirty s') (datap : List UInt8) :
    ExceptRel SameDecoded (decodeCsi t datap s) (decodeCsi t' datap s') := by
  simp only [decodeCsi, getCSIParam_eq, bind_assoc, ok_bind]
  refine (controls_alike h hs _).bind fun s₁ s₂ hs => ?_
  have hheight : s₂.height = s₁.height := by
    obtain ⟨d, rfl⟩ := hs
    rfl
  rw [hheight]
  exact .ite (fun _ => ⟨rfl, rfl, hs⟩) fun _ =>
    .ite (fun _ => .bind_same _ fun _ => ⟨rfl, rfl, hs⟩) (fun _ => ⟨rfl, rfl, hs⟩)

theorem decodeControl_alike {t t' : Terminal} (h : t.SameModes t') {s s' : Screen}
    (hs : s.SameButDirty s') (datap : List UInt8) :
    ExceptRel SameDecoded (decodeControl t datap s) (decodeControl t' datap s') := by
  by_cases hcsi : isCSI datap = true
  · rw [decodeControl_csi hcsi, decodeControl_csi hcsi]
    exact decodeCsi_alike h hs datap
  · rw [decodeControl_plain hcsi, decodeControl_plain hcsi]
    exact ⟨rfl, rfl, hs⟩

namespace VT100

variable {F : Foundation} {v v' : VT100}

/-- The same modes, and screens that differ in their dirty flags at most. -/
structure SameState (v v' : VT100) : Prop where
  modes : v.terminal.SameModes v'.terminal
  screen : v.screen.SameButDirty v'.screen

theorem SameState.symm (h : SameState v v') : SameState v' v := ⟨h.modes.symm, h.screen.symm⟩

theorem SameState.trans {v'' : VT100} (h : SameState v v') (h' : SameState v' v'') :
    SameState v v'' :=
  ⟨h.modes.trans h'.modes, h.screen.trans h'.screen⟩

theorem SameState.setPrivateMode (h : SameState v v') (p : Int) (mode : Bool) :
    ExceptRel SameState (v.setPrivateMode p mode) (v'.setPrivateMode p mode) := by
  obtain ⟨t, s⟩ := v
  obtain ⟨t', s'⟩ := v'
  obtain ⟨⟨stream, len, total, off, rfl⟩, hs⟩ := h
  unfold VT100.setPrivateMode
  simp only
  split
  case h_6 => exact hs.setDirty.bind fun _ _ hs => ⟨⟨_, _, _, _, rfl⟩, hs⟩
  case h_12 =>
    refine ExceptRel.bind (R := Screen.SameButDirty)
      (.ite (fun _ => hs.saveBuffer) (fun _ => hs.restoreBuffer)) fun _ _ hs => ?_
    exact ⟨⟨_, _, _, _, rfl⟩, hs⟩
  all_goals exact ⟨⟨_, _, _, _, rfl⟩, hs⟩

theorem SameState.setMode (h : SameState v v') (tok : VT100TCC) :
    ExceptRel SameState (v.setMode tok) (v'.setMode tok) := by
  have hprivate := h.setPrivateMode
  obtain ⟨t, s⟩ := v
  obtain ⟨t', s'⟩ := v'
  obtain ⟨⟨stream, len, total, off, rfl⟩, hs⟩ := h
  unfold VT100.setMode
  simp only
  split
  case h_1 => exact hprivate _ _
  case h_2 => exact hprivate _ _
  case h_3 =>
    by_cases h4 : tok.csi.p.cell 0 = 4
    · simp only [h4, if_true]
      exact ⟨⟨_, _, _, _, rfl⟩, hs⟩
    · simp only [h4, if_false]
      exact ⟨⟨_, _, _, _, rfl⟩, hs⟩
  case h_4 =>
    by_cases h4 : tok.csi.p.cell 0 = 4
    · simp only [h4, if_true]
      exact ⟨⟨_, _, _, _, rfl⟩, hs⟩
    · simp only [h4, if_false]
      exact ⟨⟨_, _, _, _, rfl⟩, hs⟩
  all_goals exact ⟨⟨_, _, _, _, rfl⟩, hs⟩

end VT100

namespace Terminal

variable {t t' : Terminal}

theorem SameModes.ite {p : Prop} [Decidable p] {a a' b b' : Terminal} (ha : a.SameModes a')
    (hb : b.SameModes b') : (if p then a else b).SameModes (if p then a' else b') := by
  split
  · exact ha
  · exact hb

theorem SameModes.charAttr (h : t.SameModes t') (n : Int) :
    (t.charAttr n).SameModes (t'.charAttr n) := by
  obtain ⟨stream, len, total, off, rfl⟩ := h
  unfold Terminal.charAttr
  repeat' refine SameModes.ite ?_ ?_
  all_goals exact ⟨_, _, _, _, rfl⟩

theorem SameModes.setCharAttrFrom (h : t.SameModes t') (csi : CSIParam) (k : Nat) (i : Int) :
    ExceptRel SameModes (setCharAttrFrom csi k i t) (setCharAttrFrom csi k i t') := by
  induction k generalizing i t t' with
  | zero => exact h
  | succ k ih =>
      refine .bind_same _ fun n => .bind_same _ fun colour256 =>
        .ite (fun _ => .bind_same _ fun c => ?_) (fun _ => ih (h.charAttr n) _)
      obtain ⟨stream, len, total, off, rfl⟩ := h
      exact SameModes.ite ⟨_, _, _, _, rfl⟩ ⟨_, _, _, _, rfl⟩

theorem SameModes.setCharAttr (h : t.SameModes t') (tok : VT100TCC) :
    ExceptRel SameModes (t.setCharAttr tok) (t'.setCharAttr tok) := by
  refine .ite (fun _ => .ite (fun _ => ?_) (fun _ => h.setCharAttrFrom _ _ _)) (fun _ => h)
  obtain ⟨stream, len, total, off, rfl⟩ := h
  exact ⟨_, _, _, _, rfl⟩

end Terminal

namespace VT100

variable {F : Foundation} {v v' : VT100}

theorem SameState.setCharAttr (h : SameState v v') (tok : VT100TCC) :
    ExceptRel SameState (v.setCharAttr tok) (v'.setCharAttr tok) :=
  (h.modes.setCharAttr tok).bind fun _ _ hmodes => ⟨hmodes, h.screen⟩

theorem SameState.processToken (h : SameState v v') (tok : VT100TCC) :
    ExceptRel SameState (v.processToken F tok) (v'.processToken F tok) := by
  refine .ite (fun _ => h) fun _ => ?_
  unfold VT100.putToken
  rw [putToken_sameModes F h.modes]
  refine (h.screen.putToken F v.terminal tok).bind fun s s' hs => ⟨?_, hs⟩
  obtain ⟨stream, len, total, off, hmodes⟩ := h.modes
  rw [hmodes]
  exact Terminal.SameModes.ite ⟨_, _, _, _, rfl⟩ ⟨_, _, _, _, rfl⟩

/-! ## Fetching and the token loop -/

/-- Two objects that differ in nothing but the dirty flags and the place of the
pending bytes in the stream buffer. -/
structure Alike (v v' : VT100) : Prop extends SameState v v' where
  pending_eq : v'.terminal.pending = v.terminal.pending

theorem Alike.refl (v : VT100) : Alike v v := ⟨⟨.refl _, .refl _⟩, rfl⟩

theorem Alike.symm (h : Alike v v') : Alike v' v := ⟨h.toSameState.symm, h.pending_eq.symm⟩

theorem Alike.trans {v'' : VT100} (h : Alike v v') (h' : Alike v' v'') : Alike v v'' :=
  ⟨h.toSameState.trans h'.toSameState, h'.pending_eq.trans h.pending_eq⟩

/-- The assertion compares with the number of pending bytes. -/
theorem advance_beyond (h : v.terminal.Wf) {n : Nat} (hn : v.terminal.pending.length < n) :
    v.advance n = .error (.assertion .streamLength) := by
  have hlen := Terminal.pending_length h
  rw [advance, if_pos (by omega), nsAssert, if_neg (by omega)]
  rfl

theorem Alike.skip (h : Alike v v') (hw : v.terminal.Wf) (hw' : v'.terminal.Wf) {n : Nat}
    (hn : n ≤ v.terminal.pending.length) :
    Alike { v with terminal := v.terminal.skip n } { v' with terminal := v'.terminal.skip n } := by
  have hn' : n ≤ v'.terminal.pending.length := by rw [h.pending_eq]; exact hn
  refine ⟨⟨?_, h.screen⟩, ?_⟩
  · obtain ⟨stream, len, total, off, hmodes⟩ := h.modes
    rw [hmodes]
    exact ⟨_, _, _, _, rfl⟩
  · rw [Terminal.skip_pending hw hn, Terminal.skip_pending hw' hn', h.pending_eq]

theorem Alike.advance (h : Alike v v') (hw : v.terminal.Wf) (hw' : v'.terminal.Wf) (n : Nat) :
    ExceptRel Alike (v.advance n) (v'.advance n) := by
  have hp := h.pending_eq
  by_cases hn : n ≤ v.terminal.pending.length
  · have hn' : n ≤ v'.terminal.pending.length := by rw [hp]; exact hn
    rw [advance_eq hw hn, advance_eq hw' hn']
    exact h.skip hw hw' hn
  · rw [advance_beyond hw (by omega), advance_beyond hw' (by rw [hp]; omega)]
    exact .error _

theorem Alike.overwritePending (h : Alike v v') (hw : v.terminal.Wf) (hw' : v'.terminal.Wf)
    {bytes : List UInt8} (hlen : bytes.length = v.terminal.pending.length) :
    Alike (v.overwritePending bytes) (v'.overwritePending bytes) := by
  have hlen' : bytes.length = v'.terminal.pending.length := by rw [h.pending_eq, hlen]
  refine ⟨⟨?_, h.screen⟩, ?_⟩
  · obtain ⟨stream, len, total, off, hmodes⟩ := h.modes
    simp only [VT100.overwritePending, hmodes]
    exact ⟨_, _, _, _, rfl⟩
  · rw [overwritePending_pending hw hlen, overwritePending_pending hw' hlen']

/-- The same token, and objects alike. -/
def SameFetched (p p' : VT100TCC × VT100) : Prop := p.1 = p'.1 ∧ Alike p.2 p'.2

theorem Alike.advance_fetched (h : Alike v v') (hw : v.terminal.Wf) (hw' : v'.terminal.Wf)
    (n : Nat) (tok : VT100TCC) :
    ExceptRel SameFetched (v.advance n >>= fun v => .ok (tok, v))
      (v'.advance n >>= fun v => .ok (tok, v)) :=
  (h.advance hw hw' n).bind fun _ _ h => ⟨rfl, h⟩

theorem Alike.getNextToken (h : Alike v v') (hw : v.terminal.Wf) (hw' : v'.terminal.Wf) :
    ExceptRel SameFetched (v.getNextToken F) (v'.getNextToken F) := by
  have hencoding : v'.terminal.encoding = v.terminal.encoding := by
    obtain ⟨stream, len, total, off, hmodes⟩ := h.modes
    rw [hmodes]
  unfold VT100.getNextToken
  rw [h.pending_eq, hencoding]
  split
  · refine ⟨rfl, ⟨?_, h.screen⟩, ?_⟩
    · exact (Terminal.emptyStream_sameModes _).symm.trans
        (h.modes.trans (Terminal.emptyStream_sameModes _))
    · rw [Terminal.emptyStream_pending, Terminal.emptyStream_pending]
  · rename_i b rest hp
    refine .ite (fun _ => h.advance_fetched hw hw' _ _) fun _ => .ite (fun _ => ?_)
      fun _ => .ite (fun _ => ?_) (fun _ => h.advance_fetched hw hw' _ _)
    · -- a control character or a sequence
      refine (decodeControl_alike h.modes h.screen (b :: rest)).bind_ok fun p p' _ _ hdecoded => ?_
      obtain ⟨tok, n, s⟩ := p
      obtain ⟨tok', n', s'⟩ := p'
      obtain ⟨rfl, rfl, hs⟩ : tok = tok' ∧ n = n' ∧ s.SameButDirty s' := hdecoded
      have hwf : (VT100.mk v.terminal s).terminal.Wf := hw
      have hwf' : (VT100.mk v'.terminal s').terminal.Wf := hw'
      have hsame : SameState { v with screen := s } { v' with screen := s' } := ⟨h.modes, hs⟩
      refine (hsame.setMode tok).bind_ok fun v₁ v₁' h₁ h₁' hsame => ?_
      refine (hsame.setCharAttr tok).bind_ok fun v₂ v₂' h₂ h₂' hsame => ?_
      have hp₂ := (setCharAttr_sameStream h₂).pending_eq.trans (setMode_sameStream h₁).pending_eq
      have hp₂' := (setCharAttr_sameStream h₂').pending_eq.trans (setMode_sameStream h₁').pending_eq
      have halike : Alike v₂ v₂' := ⟨hsame, hp₂'.trans (h.pending_eq.trans hp₂.symm)⟩
      exact halike.advance_fetched (setCharAttr_terminalWf (setMode_terminalWf hwf h₁) h₂)
        (setCharAttr_terminalWf (setMode_terminalWf hwf' h₁') h₂') _ _
    · -- text beyond ASCII
      have hlen := decodeString_bytes_length F (b :: rest) v.terminal.encoding
      rw [← hp] at hlen
      have hbytes := h.overwritePending hw hw' hlen
      have hwf := overwritePending_terminalWf hw
        (decodeString F v.terminal.pending v.terminal.encoding).2.2
      have hwf' := overwritePending_terminalWf hw'
        (decodeString F v.terminal.pending v.terminal.encoding).2.2
      rw [hp] at hbytes hwf hwf'
      exact .ite (fun _ => hbytes.advance_fetched hwf hwf' _ _)
        (fun _ => hbytes.advance_fetched hwf hwf' _ _)

/-- The token loop does the same on both. -/
theorem Alike.tokenLoop (h : Alike v v') (hw : v.Wf) (hw' : v'.Wf) (fuel : Nat) :
    ExceptRel Alike (tokenLoop F fuel v) (tokenLoop F fuel v') := by
  induction fuel generalizing v v' with
  | zero => exact .error _
  | succ fuel ih =>
      refine (h.getNextToken hw.terminal hw'.terminal).bind_ok fun p p' h₁ h₁' hfetched => ?_
      obtain ⟨tok, v₁⟩ := p
      obtain ⟨tok', v₁'⟩ := p'
      obtain ⟨rfl, h⟩ : tok = tok' ∧ Alike v₁ v₁' := hfetched
      have hwf := getNextToken_wf hw h₁
      have hwf' := getNextToken_wf hw' h₁'
      have hp : v₁'.terminal.pending = v₁.terminal.pending := h.pending_eq
      refine .ite (fun _ => ?_) fun _ => ?_
      · exact h.screen.refresh.bind fun _ _ hs => ⟨⟨h.modes, hs⟩, hp⟩
      · refine (h.toSameState.processToken tok).bind_ok fun v₂ v₂' h₂ h₂' hsame => ?_
        refine ih ⟨hsame, ?_⟩ (processToken_wf hwf h₂) (processToken_wf hwf' h₂')
        rw [(processToken_sameStream h₂).pending_eq, (processToken_sameStream h₂').pending_eq, hp]

end VT100

end MobileTerminal
