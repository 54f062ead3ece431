import MobileTerminal.Lines
import MobileTerminal.ShowsPlain

/-!
# Clearing

`clearScreen` of the object clears the screen and the scrollback and needs
nothing of the state it is called in (`clearScreen_shows`): it completes also
when the cursor is off the screen. What it leaves of two objects does not tell
them apart, as long as the controls that clearing does not reset are the same
and so is what is put aside for the alternate screen (`clearScreen_forgets`).

After that the two rings lie differently, with the rows of the one somewhere
else in the buffer than those of the other, and still every run of tokens that
both can execute keeps them alike (`run_looksLike`).

The command `clear` prints `ESC [ 2 J` and `ESC [ H` instead: it leaves the
scrollback alone, and goes home to where the origin mode says (`clear_shows`).
It is read from the stream like anything else, and needs a cursor on the screen.
-/

namespace MobileTerminal

variable {F : Foundation} {t : Terminal}

/-- Nothing on the screen and nothing behind it. -/
def Display.clear (d : Display) : Display :=
  { d with cell := fun _ _ => 0, cursorX := 0, cursorY := 0, scrollback := [] }

namespace Screen

variable {s s' : Screen} {d : Display}

/-- Rows from `base` on become `line`, however their addresses are found. -/
theorem clearLines_spec (h : s.Wf) (line : Block ScreenChar) (hl : s.realWidth ≤ line.size)
    (get : Int → Screen → Res Int) (base : Int) (n : Nat) (hbase : 0 ≤ base)
    (hn : base + n ≤ s.totalHeight) (hget : ∀ s' (i : Int), Draws s s' → 0 ≤ i → i < n →
      get i s' = .ok (s'.rowLine (base + i) * s'.realWidth)) :
    ∃ s', forUp (fun i s => do
        let aLine ← get i s
        s.clearLine aLine line) 0 n s = .ok s' ∧ Draws s s' ∧
      ∀ j x, 0 ≤ j → j < s.totalHeight → 0 ≤ x → x ≤ s.width →
        s'.cellAt j x = if base ≤ j ∧ j < base + n then line.cell x else s.cellAt j x := by
  have hloop := forUp_total 0 n
    (f := fun i s => do
      let aLine ← get i s
      s.clearLine aLine line)
    (P := fun i s' => Draws s s' ∧ ∀ j x, 0 ≤ j → j < s.totalHeight → 0 ≤ x → x ≤ s.width →
      s'.cellAt j x = if base ≤ j ∧ j < base + i then line.cell x else s.cellAt j x)
    ?_ (s := s) ⟨.refl s, fun j x _ _ _ _ => by rw [if_neg (by omega)]⟩
  · obtain ⟨s', hok, hd, hcells⟩ := hloop
    rw [Int.zero_add] at hcells
    exact ⟨s', hok, hd, hcells⟩
  · rintro i s₁ hi hi' ⟨hd, hcells⟩
    obtain ⟨s₂, hok, hd₂, hcells₂⟩ := clearLine_spec (i := base + i) (hd.wf h)
      (by rw [hd.realWidth_eq]; exact hl) (by omega) (by rw [hd.totalHeight_eq]; omega)
    rw [hd.totalHeight_eq, hd.width_eq] at hcells₂
    refine ⟨s₂, ?_, hd.trans hd₂, fun j x hj hj' hx hx' => ?_⟩
    · rw [hget s₁ i hd hi (by omega), ok_bind]
      exact hok
    · rw [hcells₂ j x hj hj' hx hx', hcells j x hj hj' hx hx']
      by_cases hji : j = base + i
      · rw [if_pos hji, if_pos (by omega)]
      · rw [if_neg hji]
        congr 1
        apply propext
        omega

namespace Shows

theorem clearScreen (h : Shows t s d) (hwf : s.Wf) :
    Refines (Shows t) (s.clearScreen t)
      { d with cell := fun _ _ => 0, cursorX := 0, cursorY := 0 } := by
  have hheight := hwf.height_pos
  have hrange := hwf.count_range
  have hT : s.totalHeight = s.maxScrollbackLines + s.height := rfl
  have hline := getDefaultLine_draws t.foregroundColorCode t.backgroundColorCode s.width s
  have hlwf := hline.wf hwf
  have hrows : ((s.height.toNat : Nat) : Int) = s.height := Int.toNat_of_nonneg (by omega)
  obtain ⟨s₁, h₁, hd₁, hcells⟩ := clearLines_spec hlwf (s.blankLine t)
    (by rw [hline.realWidth_eq]; exact (hwf.blankLine_ok t).1)
    (fun i s => s.getLineAtScreenIndex i) s.currentScrollbackLines s.height.toNat hrange.1
    (by rw [hline.totalHeight_eq]; omega) (by
      intro s' i hd hi hi'
      have hds := hline.trans hd
      rw [(hd.wf hlwf).visibleLine hi (by rw [hds.height_eq]; omega), hds.count_eq])
  rw [hline.totalHeight_eq, hline.width_eq, hrows] at hcells
  have hds := hline.trans hd₁
  have hbuf : (s.getDefaultLineWithWidth t s.width).1.bufferLines = s.bufferLines :=
    getDefaultLine_bufferLines _ _ _ s
  have hshows₁ : Shows t s₁ { d with cell := fun _ _ => 0 } := by
    refine h.draws hwf hds (fun y x hy hy' hx hx' => ?_) fun i x hi hi' hx hx' => ?_
    · rw [hcells _ x (by omega) (by omega) hx hx', if_pos (by omega)]
      exact (hwf.blankLine_ok t).2 x
    · rw [hcells _ x hi (by omega) hx hx', if_neg (by omega), hline.cellAt_of_eq hwf hbuf]
  have hw := hwf.width_pos
  have hwf₁ : Wf { s₁ with cursorX := 0, cursorY := 0 } :=
    { hds.wf hwf with column := ⟨Int.le_refl 0, by rw [← hds.width_eq] at hw; exact hw⟩ }
  obtain ⟨s₂, h₂, hd₂, hb₂⟩ := setDirty_spec hwf₁
  refine ⟨s₂, ?_, (hshows₁.withCursor 0 0).unseen hwf₁ hd₂ hb₂⟩
  rw [Screen.clearScreen]
  exact bind_eq_ok.mpr ⟨s₁, h₁, h₂⟩

theorem dropScrollback (h : Shows t s d) (hwf : s.Wf) :
    Refines (fun s d => s.Wf ∧ Shows t s d) (s.dropScrollback t) { d with scrollback := [] } := by
  have hmax := hwf.max_pos
  have hrange := hwf.count_range
  have hheight := hwf.height_pos
  have hT : s.totalHeight = s.maxScrollbackLines + s.height := rfl
  have hline := getDefaultLine_draws t.foregroundColorCode t.backgroundColorCode s.width s
  have hlwf := hline.wf hwf
  have hcount : ((s.currentScrollbackLines.toNat : Nat) : Int) = s.currentScrollbackLines :=
    Int.toNat_of_nonneg hrange.1
  obtain ⟨s₁, h₁, hd₁, hcells⟩ := clearLines_spec hlwf (s.blankLine t)
    (by rw [hline.realWidth_eq]; exact (hwf.blankLine_ok t).1)
    (fun i s => s.getLineAtIndex i) 0 s.currentScrollbackLines.toNat (Int.le_refl 0)
    (by rw [hline.totalHeight_eq]; omega) (by
      intro s' i hd hi hi'
      rw [(hd.wf hlwf).indexLine hi, Int.zero_add, rowLine])
  rw [hline.totalHeight_eq, hline.width_eq, hcount] at hcells
  have hds := hline.trans hd₁
  have hbuf : (s.getDefaultLineWithWidth t s.width).1.bufferLines = s.bufferLines :=
    getDefaultLine_bufferLines _ _ _ s
  refine ⟨_, by rw [Screen.dropScrollback, if_pos (by omega)]; exact bind_eq_ok.mpr ⟨s₁, h₁, rfl⟩,
    ?_⟩
  have hwf₁ := hds.wf hwf
  have htop := hwf₁.top_range
  have hmax₁ := hwf₁.max_pos
  refine ⟨{ hwf₁ with
      scrollback_aligned := hwf₁.top_aligned
      scrollback_range := htop
      count_range := ⟨Int.le_refl 0, by simp only; omega⟩
      top_eq := ?_ }, hds.controls_eq.trans h.controls, fun y x hy hy' hx hx' => ?_, ?_, rfl⟩
  · simp only [Int.add_zero]
    exact (wrapLine_of_lt htop.2).symm
  · have hy' : y < s.height := by
      rw [← hds.height_eq]
      exact hy'
    have hx' : x ≤ s.width := by
      rw [← hds.width_eq]
      exact hx'
    show (s₁.visibleCell y x).ch = d.cell y x
    rw [hds.visibleCell_eq hwf hy hy', hcells _ x (by omega) (by omega) hx hx', if_neg (by omega),
      hline.cellAt_of_eq hwf hbuf]
    exact h.cellAt hwf hy hy' hx hx'
  · obtain ⟨⟨b, d', line, fg, bg, w, -, -, rfl⟩, -⟩ := hds
    exact h.saved

theorem clearBuffer (h : Shows t s d) (hwf : s.Wf) :
    Refines (Shows t) (s.clearBuffer t) d.clear := by
  obtain ⟨s₁, h₁, hs₁⟩ := h.clearScreen hwf
  have hwf₁ := clearScreen_wf hwf h₁
  obtain ⟨s₂, h₂, hwf₂, hs₂⟩ := hs₁.dropScrollback hwf₁
  obtain ⟨s₃, h₃, hd₃, hb₃⟩ := setDirty_spec hwf₂
  obtain ⟨s₄, h₄, hd₄, hb₄⟩ := refresh_spec (hd₃.wf hwf₂)
  refine ⟨s₄, ?_, (hs₂.unseen hwf₂ hd₃ hb₃).unseen (hd₃.wf hwf₂) hd₄ hb₄⟩
  rw [Screen.clearBuffer, h₁, ok_bind, clearScrollbackBuffer, h₂, ok_bind, h₃, ok_bind, h₄]

end Shows

end Screen

namespace VT100

variable {v v' : VT100} {d : Display}

/-- Clearing completes in every state and leaves nothing of what was to be seen. -/
theorem clearScreen_shows (h : v.Displays d) : Refines Displays v.clearScreen d.clear := by
  obtain ⟨s, hok, hs⟩ := h.2.clearBuffer h.1.screen
  refine ⟨{ v with screen := s }, ?_, ⟨h.1.terminal, Screen.clearBuffer_wf h.1.screen hok⟩, hs⟩
  rw [VT100.clearScreen, hok, ok_bind]

/-! ## Nothing is left -/

/-- The controls of a cleared screen. -/
def clearedControls (v : VT100) : Controls :=
  { v.screen.controls v.terminal with cursorX := 0, cursorY := 0 }

theorem clearScreen_keeps (hok : v.clearScreen = .ok v') : Screen.Keeps v.screen v'.screen := by
  obtain ⟨s, hs, hok⟩ := bind_eq_ok.mp hok
  cases hok
  exact Screen.clearBuffer_keeps hs

/-- A new object of three columns and one row, and a line feed that moves the ring. -/
theorem sized_lineFeed : ∃ v v' u, VT100.init ⟨0, 0, 0⟩ = .ok v ∧
    v.setScreenSize 3 1 = .ok v' ∧ v'.Wf ∧
    v'.readInputStream Foundation.latin1 [0x0a] = .ok u ∧ u.Wf ∧
    u.clearedControls = v'.clearedControls ∧ Screen.SameAside v'.screen u.screen ∧
    v'.display.Open 3 1 := by
  obtain ⟨v, v', hv, hsize, hwf, hempty, hopen, hs⟩ :=
    sized_open ⟨0, 0, 0⟩ (w := 3) (h := 1) (by decide) (by decide) (by decide)
  have hlegible : Legible [0x0a] :=
    legible_written (show ∀ p ∈ [Piece.control 0x0a []], p.WellFormed by decide +kernel)
  obtain ⟨u, hu, ⟨hwf', hshows⟩, -, -⟩ := readInputStream_plain Foundation.latin1_asciiExact hwf
    hempty hopen hlegible (by decide +kernel)
  have hprint : v'.display.printToAnsi = false := hs.print_eq
  have hrow : v'.display.cursorY = v'.display.scrollBottom := by
    rw [hopen.bottom]
    exact hs.cursor.2
  have hdisplay : (tokensOf (1 : Nat) [0x0a]).foldl (Display.execute Foundation.latin1) v'.display =
      { v'.display.scrollUp with cursorX := 0 } := by
    show v'.display.lineFeed = _
    rw [Display.lineFeed, hprint, if_neg Bool.false_ne_true, Display.newLine, if_pos hrow]
  rw [hdisplay] at hshows
  refine ⟨v, v', u, hv, hsize, hwf, hu, hwf', ?_, ?_, hopen⟩
  · exact congrArg (fun c : Controls => { c with cursorX := 0, cursorY := 0 }) hshows.controls
  · exact (Screen.shows_display v'.terminal _).sameAside hshows rfl rfl rfl

theorem cleared_alike (h : v.Wf) (h' : v'.Wf) (hcontrols : v'.clearedControls = v.clearedControls)
    (haside : Screen.SameAside v.screen v'.screen) :
    ∃ u u', v.clearScreen = .ok u ∧ v'.clearScreen = .ok u' ∧ u.Displays v.display.clear ∧ u'.Wf ∧
      Screen.LooksLike u.terminal u.screen u'.terminal u'.screen := by
  obtain ⟨u, hu, hwf, hs⟩ := clearScreen_shows (displays_display h)
  obtain ⟨u', hu', hwf', hs'⟩ := clearScreen_shows (displays_display h')
  have hheight : u'.screen.height = u.screen.height := by
    rw [← hs.height, ← hs'.height]
    exact congrArg Controls.height hcontrols
  have hwidth : u'.screen.width = u.screen.width := by
    rw [← hs.width, ← hs'.width]
    exact congrArg Controls.width hcontrols
  refine ⟨u, u', hu, hu', ⟨hwf, hs⟩, hwf', ?_, fun y x hy hy' hx hx' => ?_, ?_, ?_⟩
  · exact hs'.controls.trans (hcontrols.trans hs.controls.symm)
  · rw [hs.cells y x hy hy' hx hx', hs'.cells y x hy (hheight ▸ hy') hx (hwidth ▸ hx')]
    rfl
  · exact haside.keeps (clearScreen_keeps hu) (clearScreen_keeps hu')
  · exact hs'.scrollback.trans hs.scrollback.symm

/-- Nothing of the cells, of the scrollback, of the cursor and of the ring is left by clearing:
objects that agree in the rest look alike. -/
theorem clearScreen_forgets (h : v.Wf) (h' : v'.Wf)
    (hcontrols : v'.clearedControls = v.clearedControls)
    (haside : Screen.SameAside v.screen v'.screen) :
    ∃ u u', v.clearScreen = .ok u ∧ v'.clearScreen = .ok u' ∧
      Screen.LooksLike u.terminal u.screen u'.terminal u'.screen ∧
      u.numberOfRows = u.screen.height ∧
      ∀ y x, 0 ≤ y → y < u.screen.height → 0 ≤ x → x ≤ u.screen.width →
        (u.screen.visibleCell y x).ch = 0 := by
  obtain ⟨u, u', hu, hu', ⟨hwf, hs⟩, -, halike⟩ := cleared_alike h h' hcontrols haside
  refine ⟨u, u', hu, hu', halike, ?_, hs.cells⟩
  have hlen := hwf.screen.scrollbackRows_length
  have hmax := hwf.screen.max_pos
  have hnone : u.screen.scrollbackRows = [] := List.map_eq_nil_iff.mp hs.scrollback
  rw [hnone, List.length_nil] at hlen
  rw [numberOfRows, Screen.numberOfLines, if_neg (by omega), ← hlen]
  exact Int.zero_add _

/-- A new object of three columns and one row, before and after a line feed that moves the
ring. -/
theorem sized_clearScreen_forgets : ∃ v v' u w w', VT100.init ⟨0, 0, 0⟩ = .ok v ∧
    v.setScreenSize 3 1 = .ok v' ∧ v'.readInputStream Foundation.latin1 [0x0a] = .ok u ∧
    v'.clearScreen = .ok w ∧ u.clearScreen = .ok w' ∧
    Screen.LooksLike w.terminal w.screen w'.terminal w'.screen := by
  obtain ⟨v, v', u, hv, hsize, hwf, hu, hwf', hcontrols, haside, -⟩ := sized_lineFeed
  obtain ⟨w, w', hw, hw', hlooks, -⟩ := clearScreen_forgets hwf hwf' hcontrols haside
  exact ⟨v, v', u, w, w', hv, hsize, hu, hw, hw', hlooks⟩

/-! ## Where the ring lies -/

/-- Objects that look alike go on looking alike under any run of tokens that both can execute,
wherever their rows lie in the two rings. What each token needs is asked of both objects,
as one region may lie across the end of its buffer and the other may not. -/
theorem run_looksLike (h : v.Wf) (h' : v'.Wf)
    (halike : Screen.LooksLike v.terminal v.screen v'.terminal v'.screen)
    (hrun : Guarded (execute F) Admits v toks) (hrun' : Guarded (execute F) Admits v' toks) :
    ∃ u u', toks.foldlM (execute F) v = .ok u ∧ toks.foldlM (execute F) v' = .ok u' ∧
      Screen.LooksLike u.terminal u.screen u'.terminal u'.screen := by
  obtain ⟨u, hu, -, hshows⟩ := run_shows (displays_display h) hrun
  obtain ⟨u', hu', -, hshows'⟩ := run_shows (d := v.display) ⟨h', halike.shows⟩ hrun'
  exact ⟨u, u', hu, hu', hshows.looksLike hshows'⟩

/-- A new object of three columns and one row that is cleared, and one that has got a line
feed before: the second has its row in another line of the ring. -/
theorem cleared_looksLike : ∃ v v' u w w' r r', VT100.init ⟨0, 0, 0⟩ = .ok v ∧
    v.setScreenSize 3 1 = .ok v' ∧ v'.readInputStream Foundation.latin1 [0x0a] = .ok u ∧
    v'.clearScreen = .ok w ∧ u.clearScreen = .ok w' ∧
    [textToken [0x61]].foldlM (execute Foundation.latin1) w = .ok r ∧
    [textToken [0x61]].foldlM (execute Foundation.latin1) w' = .ok r' ∧
    Screen.LooksLike r.terminal r.screen r'.terminal r'.screen := by
  obtain ⟨v, v', u, hv, hsize, hwf, hu, hwf', hcontrols, haside, hopen⟩ := sized_lineFeed
  obtain ⟨w, w', hw, hw', hshows, hclear, halike⟩ := cleared_alike hwf hwf' hcontrols haside
  have hcleared : v'.display.clear.Open 3 1 :=
    ⟨hopen.width_eq, hopen.height_eq, hopen.top, hopen.bottom, ⟨Int.le_refl 0, Int.zero_lt_one⟩,
      hopen.savedRow⟩
  have hrun : ∀ r d, r.Displays d → d.toControls = v'.display.clear.toControls →
      Guarded (execute Foundation.latin1) Admits r [textToken [0x61]] := by
    intro r d hr hd
    refine guarded_plain hr (hcleared.congr hd) ?_ (by decide +kernel)
    exact fun tok htok => (List.mem_singleton.mp htok) ▸ .of_zero rfl TokenType.noConfusion
  obtain ⟨r, r', hr, hr', hlooks⟩ := run_looksLike hshows.1 hclear halike
    (hrun w _ hshows rfl) (hrun w' _ ⟨hclear, halike.shows⟩ hshows.2.controls)
  exact ⟨v, v', u, w, w', r, r', hv, hsize, hu, hw, hw', hr, hr', hlooks⟩

/-! ## The command -/

/-- What the command `clear` prints. -/
def clearBytes : List UInt8 := [0x1b, 0x5b, 0x32, 0x4a, 0x1b, 0x5b, 0x48]

theorem clearBytes_legible : Legible clearBytes :=
  legible_written (show ∀ p ∈ [Piece.sequence [] [[0x32]] 0x4a, .sequence [] [[]] 0x48],
    p.WellFormed by decide +kernel)

/-- `ESC [ 2 J ESC [ H` is read, whatever is on the screen: it becomes blank and the cursor
goes home, which in origin mode is the top margin. Scrollback, margins and modes stay, and
nothing is left pending. -/
theorem clear_shows (hF : F.AsciiExact) (h : v.Wf) (hempty : v.terminal.pending = [])
    (hy : v.screen.OnScreen) (hfits : v.screen.ParamFits 1) :
    Refines (fun v d => v.Displays d ∧ v.terminal.pending = []) (v.readInputStream F clearBytes)
      { v.display with
        cell := fun _ _ => 0, cursorX := 0
        cursorY := if v.display.originMode then v.display.scrollTop else 0 } := by
  have hm := h.screen.margins
  have hheight := h.screen.height_pos
  have hwidth := h.screen.width_pos
  have htokens : tokensOf v.screen.height clearBytes = [firstToken v.screen.height clearBytes,
      firstToken v.screen.height [0x1b, 0x5b, 0x48]] := rfl
  have herase : (firstToken v.screen.height clearBytes).type = .ed ∧
      (firstToken v.screen.height clearBytes).csi.p.cell 0 = 2 := ⟨rfl, rfl⟩
  have hhome : (firstToken v.screen.height [0x1b, 0x5b, 0x48]).type = .cup ∧
      (firstToken v.screen.height [0x1b, 0x5b, 0x48]).csi.p.cell 0 = 1 ∧
      (firstToken v.screen.height [0x1b, 0x5b, 0x48]).csi.p.cell 1 = 1 := ⟨rfl, rfl, rfl⟩
  have hrun : Guarded (execute F) (fun v tok => v.screen.Admits tok) v
      (tokensOf v.screen.height clearBytes) := by
    rw [htokens]
    refine .cons ?_ fun v₁ h₁ => .cons ?_ fun _ _ => .nil
    · simp only [Screen.Admits, herase]
      exact ⟨hy, fun _ hne => absurd rfl hne⟩
    · have hsize := execute_size h₁
      have hw : v₁.screen.width = v.screen.width := congrArg Prod.fst hsize
      have hh : v₁.screen.height = v.screen.height := congrArg Prod.snd hsize
      unfold Screen.ParamFits at hfits
      simp only [Screen.Admits, hhome, Screen.ParamFits, hw, hh]
      exact ⟨hfits, hfits⟩
  have hread := readInputStream_display hF h hempty clearBytes_legible hrun
  have hdisplay : (tokensOf v.screen.height clearBytes).foldl (Display.execute F) v.display =
      { v.display with
        cell := fun _ _ => 0, cursorX := 0
        cursorY := if v.display.originMode then v.display.scrollTop else 0 } := by
    have hcolumn : Display.clamp v.screen.width (1 - 1) = 0 := by
      unfold Display.clamp
      omega
    have hrow : Display.clamp v.screen.height (if v.display.originMode
        then 1 - 1 + v.screen.scrollTop else 1 - 1) =
        if v.display.originMode then v.screen.scrollTop else 0 := by
      unfold Display.clamp
      split <;> omega
    rw [htokens]
    simp only [List.foldl_cons, List.foldl_nil, Display.execute, Display.setMode, Display.putToken,
      herase, hhome, Display.eraseInDisplay, Display.cursorToXY, Display.cursorTo]
    exact congrArg₂ (fun x y =>
      { v.display with cell := fun _ _ => 0, cursorX := x, cursorY := y }) hcolumn hrow
  rwa [hdisplay] at hread

/-- Nothing is left of the rows `ab` and `cd` on an object of three columns and two rows. -/
theorem text_clear_shows : ∃ v v₁ v₂ u, VT100.init ⟨0, 0, 0⟩ = .ok v ∧
    v.setScreenSize 3 2 = .ok v₁ ∧ v₁.readInputStream Foundation.latin1 textBytes = .ok v₂ ∧
    (v₂.screen.cursorX = 2 ∧ v₂.screen.cursorY = 1 ∧ (v₂.screen.visibleCell 1 0).ch = 0x63) ∧
    v₂.readInputStream Foundation.latin1 clearBytes = .ok u ∧
    u.screen.cursorX = 0 ∧ u.screen.cursorY = 0 ∧
    ∀ y x, 0 ≤ y → y < 2 → 0 ≤ x → x < 3 → (u.screen.visibleCell y x).ch = 0 := by
  obtain ⟨v, v₁, v₂, first, row, hv, h₁, h₂, hrest, hs, htext⟩ :=
    sized_text Foundation.latin1_asciiExact ⟨0, 0, 0⟩ (w := 3) (h := 2) (by decide) (by decide)
  have hheight : v₂.screen.height = 2 := hs.height_eq
  have hwidth : v₂.screen.width = 3 := hs.width_eq
  have htop : v₂.screen.scrollTop = 0 := hs.margins.1
  have hrow : v₂.screen.cursorY = 1 := hs.cursorY_eq
  obtain ⟨u, hu, ⟨-, hshows⟩, -⟩ := clear_shows Foundation.latin1_asciiExact ⟨hrest.wf, hs.wf⟩
    hrest.pending_eq ⟨by omega, by omega⟩ ⟨by decide, by rw [hheight, hwidth]; decide⟩
  have hhome : u.screen.cursorY = 0 := by
    rw [← hshows.cursorY]
    show (if _ then v₂.screen.scrollTop else 0) = 0
    rw [htop, ite_self]
  have hrows : u.screen.height = 2 := hshows.height.symm.trans hheight
  have hcols : u.screen.width = 3 := hshows.width.symm.trans hwidth
  refine ⟨v, v₁, v₂, u, hv, h₁, h₂, ⟨hs.cursorX_eq, hrow, ?_⟩, hu, hshows.cursorX.symm, hhome, ?_⟩
  · have hlen : 0 < row.length := by
      rw [hs.row_length]
      decide
    have hfirst : row[0] = v₁.terminal.printed 0x63 := by
      have hhead := congrArg (·[0]?) htext
      simpa [List.getElem?_take, List.getElem?_eq_getElem hlen] using hhead
    have hcell : v₂.screen.visibleCell v₂.screen.cursorY 0 = row[0] := hs.cursor_cell hlen
    rw [hrow, hfirst] at hcell
    rw [hcell]
    rfl
  · intro y x hy hy' hx hx'
    exact hshows.cells y x hy (by omega) hx (by omega)

end VT100

end MobileTerminal
