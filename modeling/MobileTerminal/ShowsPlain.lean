import MobileTerminal.CursorRow
import MobileTerminal.ShowsStream
import MobileTerminal.Written

/-!
# Without margins

As long as no margins are set, the conditions of `Admits` need not be watched:
on an open display the cursor stays on the screen, the region is the whole
screen, and every token but three has what it needs. DECSTBM sets margins, SU
asks for the cursor in the last row, and ED 0 depends on where the screen lies
in the ring; the other tokens may come in any order (`feed_plain`), and nothing
is asked of the state in between.

`Plain` is a property of the token and the size alone, so it can be read off the
bytes before anything is executed. What is left in it are the limits of the code
on any screen: tab stops end at `TABWINDOW`, a count must not overflow when the
row or the column is added to it, and RI and SD scroll only where there are two
rows.

The proof has two halves. Plain tokens keep a display open, which is shown about
the displays alone, one operation after the other. And a screen that shows an
open display admits every plain token (`admits`). Together they make the guard
of `feed_display` hold at every step (`guarded_plain`).
-/

namespace MobileTerminal

variable {F : Foundation}

namespace Display

/-- A display of this size without margins, with both cursors on the screen. -/
structure Open (w h : Int) (d : Display) : Prop where
  width_eq : d.width = w
  height_eq : d.height = h
  top : d.scrollTop = 0
  bottom : d.scrollBottom = h - 1
  row : 0 ≤ d.cursorY ∧ d.cursorY < h
  savedRow : 0 ≤ d.saveCursorY ∧ d.saveCursorY < h

/-- A parameter that no sum with it overflows. -/
def Small (w h n : Int) : Prop := 0 ≤ n ∧ n < 2 ^ 31 - h - w

instance (w h n : Int) : Decidable (Small w h n) := inferInstanceAs (Decidable (_ ∧ _))

/-- A token that an open display always admits. -/
def Plain (w h : Int) (tok : VT100TCC) : Prop :=
  let p0 := tok.csi.p.cell 0
  let p1 := tok.csi.p.cell 1
  match tok.type with
  | .cc code => (code = 9 → w < tabWindow) ∧ (code = 255 → Small w h 1)
  | .cub | .cuf | .cha | .vpa | .cuu | .cud => Small w h p0
  | .ech | .insblnk | .delch | .insln | .delln => Small w h p0
  | .cup | .hvp => Small w h p0 ∧ Small w h p1
  | .vpr => 0 ≤ p0 ∧ Small w h (p0 + h)
  | .ed => p0 = 1 ∨ p0 = 2
  | .hts | .tbc => w < tabWindow
  | .ri | .sd => 1 < h
  | .decstbm | .su => False
  | _ => True

instance (w h : Int) (tok : VT100TCC) : Decidable (Plain w h tok) := by
  unfold Plain
  cases tok.type <;> infer_instance

variable {w h : Int} {d : Display} {tok : VT100TCC}

/-! ## What stays

Everything here is about displays. An operation that only writes cells keeps a
display open for that reason; the others need that the cursor stays between the
first and the last row. -/

theorem Open.full (hd : d.Open w h) : d.FullMargins := ⟨hd.top, by rw [hd.bottom, hd.height_eq]⟩

theorem Open.congr {d' : Display} (hd : d.Open w h) (hc : d'.toControls = d.toControls) :
    Open w h d' := by
  have hy := congrArg Controls.cursorY hc
  have hsaved := congrArg Controls.saveCursorY hc
  refine ⟨(congrArg Controls.width hc).trans hd.width_eq,
    (congrArg Controls.height hc).trans hd.height_eq, (congrArg Controls.scrollTop hc).trans hd.top,
    (congrArg Controls.scrollBottom hc).trans hd.bottom, ?_, ?_⟩
  · rw [hy]
    exact hd.row
  · rw [hsaved]
    exact hd.savedRow

theorem Open.withCell (hd : d.Open w h) (g : Int → Int → UniChar) :
    Open w h { d with cell := g } :=
  ⟨hd.width_eq, hd.height_eq, hd.top, hd.bottom, hd.row, hd.savedRow⟩

theorem Open.withCursorX (hd : d.Open w h) (x : Int) : Open w h { d with cursorX := x } :=
  ⟨hd.width_eq, hd.height_eq, hd.top, hd.bottom, hd.row, hd.savedRow⟩

theorem Open.withCursorY (hd : d.Open w h) {y : Int} (hy : 0 ≤ y ∧ y < h) :
    Open w h { d with cursorY := y } :=
  ⟨hd.width_eq, hd.height_eq, hd.top, hd.bottom, hy, hd.savedRow⟩

theorem Open.scrollUp (hd : d.Open w h) : Open w h d.scrollUp :=
  ⟨hd.width_eq, hd.height_eq, hd.top, hd.bottom, hd.row, hd.savedRow⟩

theorem Open.newLine (hd : d.Open w h) : Open w h d.newLine := by
  have hrow := hd.row
  have hheight := hd.height_eq
  unfold Display.newLine
  split
  · exact hd.scrollUp
  · exact hd.withCursorY (by omega)

theorem Open.reverseIndex (hd : d.Open w h) : Open w h d.reverseIndex := by
  have hrow := hd.row
  unfold Display.reverseIndex
  split
  · exact hd.withCell _
  · exact hd.withCursorY (by omega)

theorem Open.putChar (hd : d.Open w h) (c : UniChar) : Open w h (d.putChar c) := by
  unfold Display.putChar
  split
  · exact (hd.withCell _).withCursorX _
  · exact Open.newLine ⟨hd.width_eq, hd.height_eq, hd.top, hd.bottom, hd.row, hd.savedRow⟩

theorem Open.foldl_putChar (hd : d.Open w h) (cs : List UniChar) :
    Open w h (cs.foldl Display.putChar d) := by
  induction cs generalizing d with
  | nil => exact hd
  | cons c cs ih => exact ih (hd.putChar c)

theorem Open.printString (hd : d.Open w h) (string : List UniChar) :
    Open w h (d.printString string) :=
  ⟨hd.width_eq, hd.height_eq, hd.top, hd.bottom, hd.row, hd.savedRow⟩

theorem Open.putString (hd : d.Open w h) (string : List UniChar) (ascii : Bool) :
    Open w h (d.putString F string ascii) := by
  unfold Display.putString
  split
  · exact hd.printString string
  · split
    · exact hd
    · exact hd.foldl_putChar _

theorem Open.lineFeed (hd : d.Open w h) : Open w h d.lineFeed := by
  unfold Display.lineFeed
  split
  · exact (hd.printString _).withCursorX 0
  · exact hd.newLine.withCursorX 0

theorem Open.putControl (hd : d.Open w h) (code : Nat) : Open w h (d.putControl code) := by
  unfold Display.putControl
  split
  case h_1 => exact ⟨hd.width_eq, hd.height_eq, hd.top, hd.bottom, hd.row, hd.savedRow⟩
  case h_2 => exact hd.withCursorX _
  case h_3 => exact hd.withCursorX _
  case h_4 => exact hd.lineFeed
  case h_5 => exact hd.lineFeed
  case h_6 => exact hd.lineFeed
  case h_7 => exact hd.withCursorX _
  case h_8 => exact hd.withCell _
  case h_9 => exact hd

theorem Open.cursorTo (hd : d.Open w h) (x y : Int) : Open w h (d.cursorTo x y) := by
  have hrow := hd.row
  refine ⟨hd.width_eq, hd.height_eq, hd.top, hd.bottom, ?_, hd.savedRow⟩
  show 0 ≤ clamp d.height y ∧ clamp d.height y < h
  rw [hd.height_eq, clamp]
  omega

theorem Open.scrollDowns (hd : d.Open w h) (n : Nat) : Open w h (Display.scrollDown^[n] d) := by
  induction n generalizing d with
  | zero => exact hd
  | succ n ih => exact ih (hd.withCell _)

theorem Open.putToken (hd : d.Open w h) (hplain : Plain w h tok) :
    Open w h (d.putToken F tok) := by
  have hrow := hd.row
  have htop := hd.top
  have hbottom := hd.bottom
  unfold Plain at hplain
  unfold Display.putToken
  cases htype : tok.type <;> simp only [htype] at hplain ⊢
  case string => exact hd.putString _ _
  case asciiString => exact hd.putString _ _
  case cc code => exact hd.putControl code
  case cub => exact hd.withCursorX _
  case cuf => exact hd.withCursorX _
  case cha => exact hd.withCursorX _
  case cuu =>
    refine hd.withCursorY ?_
    split <;> omega
  case cud =>
    refine hd.withCursorY ?_
    rw [if_pos (by omega)]
    omega
  case cup => exact hd.cursorTo _ _
  case hvp => exact hd.cursorTo _ _
  case vpa => exact hd.cursorTo _ _
  case vpr => exact hd.cursorTo _ _
  case decrc => exact ⟨hd.width_eq, hd.height_eq, hd.top, hd.bottom, hd.savedRow, hd.savedRow⟩
  case decsc => exact ⟨hd.width_eq, hd.height_eq, hd.top, hd.bottom, hd.row, hd.row⟩
  case nel => exact (hd.withCursorX 0).newLine
  case ind => exact hd.newLine
  case ri => exact hd.reverseIndex
  case sd => exact hd.scrollDowns _
  case decaln => exact hd.withCell _
  case ech => exact hd.withCell _
  case insblnk => exact hd.withCell _
  case delch => exact hd.withCell _
  case insln => exact hd.withCell _
  case delln => exact hd.withCell _
  case ed =>
    unfold Display.eraseInDisplay
    repeat' split
    all_goals exact hd.withCell _
  case el =>
    unfold Display.eraseInLine
    repeat' split
    all_goals exact hd.withCell _
  all_goals
    try unfold Display.printAnsi
    repeat' split
    all_goals
      exact ⟨hd.width_eq, hd.height_eq, hd.top, hd.bottom, hd.row, hd.savedRow⟩

theorem Open.setPrivateMode (hd : d.Open w h) (p : Int) (mode : Bool) :
    Open w h (d.setPrivateMode p mode) := by
  unfold Display.setPrivateMode Display.swap
  repeat' split
  all_goals exact ⟨hd.width_eq, hd.height_eq, hd.top, hd.bottom, hd.row, hd.savedRow⟩

theorem Open.setMode (hd : d.Open w h) (tok : VT100TCC) : Open w h (d.setMode tok) := by
  unfold Display.setMode
  split
  case h_1 => exact hd.setPrivateMode _ _
  case h_2 => exact hd.setPrivateMode _ _
  all_goals exact ⟨hd.width_eq, hd.height_eq, hd.top, hd.bottom, hd.row, hd.savedRow⟩

theorem Open.execute (hd : d.Open w h) (hplain : Plain w h tok) : Open w h (d.execute F tok) :=
  (hd.setMode tok).putToken hplain

end Display

/-! ## What is admitted

Now the screen: one that shows an open display has the whole screen as its
region and the cursor in it. -/

namespace Screen.Shows

variable {t : Terminal} {s : Screen} {w h : Int} {d : Display} {tok : VT100TCC}

theorem small (hs : Shows t s d) (hd : d.Open w h) {n : Int} (hn : Display.Small w h n) :
    s.ParamFits n := by
  have hw := hs.width.symm.trans hd.width_eq
  have hh := hs.height.symm.trans hd.height_eq
  unfold Display.Small at hn
  unfold ParamFits
  omega

theorem onScreen (hs : Shows t s d) (hd : d.Open w h) : s.OnScreen := by
  have hrow := hd.row
  rw [hs.cursorY] at hrow
  rw [OnScreen, ← hs.height, hd.height_eq]
  exact hrow

theorem fullMargins (hs : Shows t s d) (hd : d.Open w h) : s.FullMargins := hs.full_iff.mp hd.full

theorem feedFits (hs : Shows t s d) (hd : d.Open w h) : s.FeedFits := by
  have hfull := hs.fullMargins hd
  refine ⟨hs.onScreen hd, fun _ => Or.inl hfull, ?_⟩
  rintro ⟨hlast, hbelow, -⟩
  rw [hfull.2] at hbelow
  omega

theorem admitsControl (hs : Shows t s d) (hd : d.Open w h) {code : Nat}
    (hplain : (code = 9 → w < tabWindow) ∧ (code = 255 → Display.Small w h 1)) :
    s.AdmitsControl code := by
  unfold AdmitsControl
  split
  case h_1 =>
    rw [← hs.width, hd.width_eq]
    exact hplain.1 rfl
  case h_2 => exact fun _ => hs.feedFits hd
  case h_3 => exact fun _ => hs.feedFits hd
  case h_4 => exact fun _ => hs.feedFits hd
  case h_5 => exact ⟨hs.onScreen hd, hs.small hd (hplain.2 rfl)⟩
  case h_6 => trivial

/-- Rows can be taken out and put in at the cursor. -/
theorem linesFit (hs : Shows t s d) (hwf : s.Wf) (hd : d.Open w h) {n : Int}
    (hn : Display.Small w h n) : s.LinesFit n ∧ s.cursorY ≤ s.scrollBottom := by
  have hy := hs.onScreen hd
  have hfits := hs.small hd hn
  have hfull := hs.fullMargins hd
  have hw := hwf.width_pos
  unfold OnScreen at hy
  unfold ParamFits at hfits
  refine ⟨⟨hy, by omega, hfits.1, by omega⟩, ?_⟩
  rw [hfull.2]
  omega

theorem regionInFront (hs : Shows t s d) (hwf : s.Wf) (hd : d.Open w h) (hh : 1 < h) :
    s.scrollTop < s.scrollBottom ∧ s.RegionInFront := by
  have hfull := hs.fullMargins hd
  have htop := hwf.top_range
  have hheight := hs.height.symm.trans hd.height_eq
  unfold RegionInFront
  rw [hfull.1, hfull.2]
  omega

theorem admits (hs : Shows t s d) (hwf : s.Wf) (hd : d.Open w h)
    (hplain : Display.Plain w h tok) : s.Admits tok := by
  have hy := hs.onScreen hd
  have hfull := hs.fullMargins hd
  have hcol := hwf.column
  have hwidth := hs.width.symm.trans hd.width_eq
  have hheight := hs.height.symm.trans hd.height_eq
  unfold OnScreen at hy
  unfold Display.Plain at hplain
  unfold Admits
  cases htype : tok.type <;> simp only [htype] at hplain ⊢
  case string => exact fun _ => ⟨hy, Or.inl hfull⟩
  case asciiString => exact fun _ => ⟨hy, Or.inl hfull⟩
  case cc code => exact hs.admitsControl hd hplain
  case cub => exact hs.small hd hplain
  case cuf => exact hs.small hd hplain
  case cha => exact hs.small hd hplain
  case vpa => exact hs.small hd hplain
  case cuu => exact ⟨hy, hs.small hd hplain, Or.inl (by rw [hfull.1]; exact hy.1)⟩
  case cud => exact ⟨hy, hs.small hd hplain, Or.inl (by rw [hfull.2]; omega)⟩
  case cup => exact ⟨hs.small hd hplain.1, hs.small hd hplain.2⟩
  case hvp => exact ⟨hs.small hd hplain.1, hs.small hd hplain.2⟩
  case vpr =>
    have hfits := hs.small hd hplain.2
    unfold ParamFits at hfits ⊢
    exact ⟨hy, by omega, by omega⟩
  case decrc =>
    have hsaved := hd.savedRow
    rw [show d.saveCursorY = s.saveCursorY from congrArg Controls.saveCursorY hs.controls.symm]
      at hsaved
    rw [hheight]
    exact hsaved
  case decsc => exact hy
  case el => exact hy
  case ed => exact ⟨hy, fun h1 h2 => absurd hplain (by omega)⟩
  case hts => omega
  case tbc => exact fun _ => by omega
  case nel => exact ⟨hy, fun _ => Or.inl hfull⟩
  case ind => exact ⟨hy, fun _ => Or.inl hfull⟩
  case ri => exact fun _ => hs.regionInFront hwf hd hplain
  case sd => exact hs.regionInFront hwf hd hplain
  case ech => exact ⟨hy, hs.small hd hplain⟩
  case insblnk => exact ⟨hy, hs.small hd hplain⟩
  case delch => exact ⟨hy, hs.small hd hplain⟩
  case insln => exact hs.linesFit hwf hd hplain
  case delln => exact hs.linesFit hwf hd hplain

end Screen.Shows

namespace VT100

variable {v v' : VT100} {w h : Int} {d : Display} {toks : List VT100TCC}

/-- A run of plain tokens finds at every step what it needs. -/
theorem guarded_plain (hv : v.Displays d) (hd : d.Open w h)
    (hproper : ∀ tok ∈ toks, tok.Proper) (hplain : ∀ tok ∈ toks, Display.Plain w h tok) :
    Guarded (execute F) Admits v toks := by
  induction toks generalizing v d with
  | nil => exact .nil
  | cons tok toks ih =>
      have htok := hproper tok (List.mem_cons_self ..)
      have hadmits : v.Admits tok :=
        ⟨htok.size, htok.count, hv.2.admits hv.1.screen hd (hplain tok (List.mem_cons_self ..))⟩
      refine .cons hadmits fun v₁ h₁ => ?_
      obtain ⟨v₂, h₂, hshows⟩ := execute_shows (F := F) hv hadmits
      obtain rfl := Except.ok.inj (h₁.symm.trans h₂)
      exact ih hshows (hd.execute (hplain tok (List.mem_cons_self ..)))
        (fun tok' h' => hproper tok' (List.mem_cons_of_mem tok h'))
        fun tok' h' => hplain tok' (List.mem_cons_of_mem tok h')

theorem run_plain (hv : v.Displays d) (hd : d.Open w h) (hproper : ∀ tok ∈ toks, tok.Proper)
    (hplain : ∀ tok ∈ toks, Display.Plain w h tok) :
    Refines (fun v d => v.Displays d ∧ d.Open w h) (toks.foldlM (execute F) v)
      (toks.foldl (Display.execute F) d) := by
  have hopen : Display.Open w h (toks.foldl (Display.execute F) d) := by
    clear hv hproper
    induction toks generalizing d with
    | nil => exact hd
    | cons tok toks ih =>
        exact ih (hd.execute (hplain tok (List.mem_cons_self ..)))
          fun tok' h' => hplain tok' (List.mem_cons_of_mem tok h')
  exact (run_shows hv (guarded_plain hv hd hproper hplain)).mono fun _ _ hv' => ⟨hv', hopen⟩

/-- What the tokens of a stream need, and that the display stays open. -/
theorem stream_plain (hwf : v.Wf) (hopen : v.display.Open w h) {bytes : List UInt8}
    (hlegible : Legible bytes) (hplain : ∀ tok ∈ tokensOf h bytes, Display.Plain w h tok) :
    Guarded (execute F) (fun v tok => v.screen.Admits tok) v (tokensOf h bytes) ∧
      Display.Open w h ((tokensOf h bytes).foldl (Display.execute F) v.display) := by
  have hproper := tokens_proper hlegible h
  have hguard := guarded_plain (F := F) (displays_display hwf) hopen hproper hplain
  obtain ⟨-, -, -, hstays⟩ := run_plain (F := F) (displays_display hwf) hopen hproper hplain
  exact ⟨hguard.imp fun _ _ hadmits => hadmits.screen, hstays⟩

theorem readInputStream_plain (hF : F.AsciiExact) (hwf : v.Wf) (hempty : v.terminal.pending = [])
    (hopen : v.display.Open w h) {bytes : List UInt8} (hlegible : Legible bytes)
    (hplain : ∀ tok ∈ tokensOf h bytes, Display.Plain w h tok) :
    Refines (fun v d => v.Displays d ∧ d.Open w h ∧ v.terminal.pending = unfinished h bytes)
      (v.readInputStream F bytes) ((tokensOf h bytes).foldl (Display.execute F) v.display) := by
  have hheight : v.screen.height = h := hopen.height_eq
  obtain ⟨hguard, hstays⟩ := stream_plain (F := F) hwf hopen hlegible hplain
  rw [← hheight] at hguard
  have hread := readInputStream_display hF hwf hempty hlegible hguard
  rw [hheight] at hread
  exact hread.mono fun _ _ hv' => ⟨hv'.1, hstays, hv'.2⟩

/-- Any plain tokens in any order, their bytes cut anywhere: the calls complete, and what is
shown in the end is what the tokens make of what was shown. -/
theorem feed_plain (hF : F.AsciiExact) (hwf : v.Wf) (hempty : v.terminal.pending = [])
    (hopen : v.display.Open w h) {bytes : List UInt8} (hlegible : Legible bytes)
    (hplain : ∀ tok ∈ tokensOf h bytes, Display.Plain w h tok) {chunk : List UInt8}
    {chunks : List (List UInt8)} (hchunks : (chunk :: chunks).flatten = bytes) :
    Refines (fun v d => v.Displays d ∧ d.Open w h ∧ v.terminal.pending = unfinished h bytes)
      (feed F (chunk :: chunks) v) ((tokensOf h bytes).foldl (Display.execute F) v.display) := by
  have hheight : v.screen.height = h := hopen.height_eq
  obtain ⟨hguard, hstays⟩ := stream_plain (F := F) hwf hopen hlegible hplain
  rw [← hheight] at hguard
  have hfeed := feed_display hF hwf hempty hlegible hguard hchunks
  rw [hheight] at hfeed
  exact hfeed.mono fun _ _ hv' => ⟨hv'.1, hstays, hv'.2⟩

/-- A new object whose size has been set shows an open display. -/
theorem sized_open (fresh : ScreenChar) {w h : Nat} (hw : 0 < w) (hh : 0 < h) (hint : h < 2 ^ 31) :
    ∃ v v', VT100.init fresh = .ok v ∧ v.setScreenSize w h = .ok v' ∧ v'.Wf ∧
      v'.terminal.pending = [] ∧ v'.display.Open w h ∧ v'.screen.Fresh w h := by
  obtain ⟨v, v', hv, hsize, ht, hs⟩ := sized_fresh fresh hw hh
  have hrow : v.screen.RowOk :=
    (reach_rowInv (F := Foundation.latin1) (.init ⟨fresh, v, hv, rfl⟩)).rows
  obtain ⟨s, hresize, hok⟩ := bind_eq_ok.mp hsize
  cases hok
  have hrow' := Screen.resizeWidth_rowOk (init_wf hv).screen hrow (by omega) (by omega) (by omega)
    hresize
  refine ⟨v, _, hv, hsize, ⟨?_, hs.wf⟩, ?_, ?_, hs⟩
  · exact (init_wf hv).terminal
  · rw [ht]
    rfl
  · refine ⟨hs.width_eq, hs.height_eq, hs.margins.1, hs.margins.2.trans ?_, ?_, ?_⟩
    · rw [hs.height_eq]
    · have := hrow'.row
      rw [Screen.OnScreen, hs.height_eq] at this
      exact this
    · have := hrow'.saved
      rw [hs.height_eq] at this
      exact this

theorem legible_cursorRight : Legible [0x61, 0x1b, 0x5b, 0x43, 0x62] :=
  legible_written (show ∀ p ∈ [Piece.text [0x61], .sequence [] [[]] 0x43, .text [0x62]],
    p.WellFormed by decide +kernel)

/-- `a ESC [ C b` on a new object of three columns and two rows, cut after the escape: the
`b` is in the last column, and the cursor in the next row. -/
theorem sized_feed_plain : ∃ v v' u, VT100.init ⟨0, 0, 0⟩ = .ok v ∧ v.setScreenSize 3 2 = .ok v' ∧
    feed Foundation.latin1 [[0x61, 0x1b], [0x5b, 0x43, 0x62]] v' = .ok u ∧
    (u.screen.visibleCell 0 0).ch = 0x61 ∧ (u.screen.visibleCell 0 2).ch = 0x62 ∧
    u.screen.cursorX = 0 ∧ u.screen.cursorY = 1 := by
  obtain ⟨v, v', hv, hsize, hwf, hempty, hopen, hs⟩ :=
    sized_open ⟨0, 0, 0⟩ (w := 3) (h := 2) (by decide) (by decide) (by decide)
  obtain ⟨u, hu, ⟨-, hshows⟩, hopen', -⟩ := feed_plain Foundation.latin1_asciiExact hwf hempty hopen
    legible_cursorRight (by decide +kernel) (show [[0x61, 0x1b], [0x5b, 0x43, 0x62]].flatten = _
      from rfl)
  have hwidth : v'.display.width = 3 := hopen.width_eq
  have hheight : v'.display.height = 2 := hopen.height_eq
  have hbottom : v'.display.scrollBottom = 1 := hopen.bottom
  have hx : v'.display.cursorX = 0 := hs.cursor.1
  have hy : v'.display.cursorY = 0 := hs.cursor.2
  have hset : v'.display.charset = Block.alloc 4 false := hs.charset_eq
  have hprint : v'.display.printToAnsi = false := hs.print_eq
  have hrows : u.screen.height = 2 := hshows.height.symm.trans hopen'.height_eq
  have hcols : u.screen.width = 3 := hshows.width.symm.trans hopen'.width_eq
  have htokens : tokensOf (2 : Nat) [0x61, 0x1b, 0x5b, 0x43, 0x62] =
      [textToken [0x61], firstToken 2 [0x1b, 0x5b, 0x43, 0x62], textToken [0x62]] := rfl
  have hcuf : (firstToken 2 [0x1b, 0x5b, 0x43, 0x62]).type = .cuf ∧
    (firstToken 2 [0x1b, 0x5b, 0x43, 0x62]).csi.p.cell 0 = 1 := ⟨rfl, rfl⟩
  rw [htokens] at hshows
  have hcolumn := hshows.cursorX
  have hrow := hshows.cursorY
  have hfirst := hshows.cells 0 0 (by decide) (by omega) (by decide) (by omega)
  have hlast := hshows.cells 0 2 (by decide) (by omega) (by decide) (by omega)
  simp [Display.execute, Display.setMode, Display.putToken, hcuf, textToken, Display.putString,
    hprint, Display.shownChars, hset, Block.alloc, Display.putChar, Display.place, hx, hwidth, hy,
    Display.newLine, hbottom, hheight, Cells.put] at hcolumn hrow hfirst hlast
  exact ⟨v, v', u, hv, hsize, hu, hfirst, hlast, hcolumn.symm, hrow.symm⟩

end VT100

end MobileTerminal
