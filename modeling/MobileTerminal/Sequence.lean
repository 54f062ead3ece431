import MobileTerminal.ReadBack
import MobileTerminal.CsiParams
import MobileTerminal.Keeps

/-!
# One control sequence

A call of `readInputStream:` whose bytes are one complete control sequence runs
the token loop twice: the sequence is taken and executed, and the empty stream
ends the loop (`readInputStream_sequence`).

The steps of such a call are also given one by one. `token_steps` fetches and
executes the sequence at the front of the stream, with whatever stands behind
it; `sequence_steps` puts the bytes first; `sequence_path` makes the call a path
of the run under any guard that lets its steps pass. Results about runs under a
guard are applied to real sequences by these. They are for tokens that change
the screen alone (`ScreenOnly`), which is a matter of the token's type
(`screenOnly_of_type`).

The rest of the file puts runs together that later files start from: margins,
the cursor in the last row, line feeds with and without a scroll, and a text of
two rows, each on an object of which it is known what it shows. `init_lineFeeds`
rotates the ring as far as one likes: after 1024 line feeds the scrollback is
full, and each further one drops a row and moves the screen across the end of
the buffer.
-/

namespace MobileTerminal

namespace Screen

variable {max : Int} {w h x : Nat} {done : List (List ScreenChar)} {row : List ScreenChar}
  {s : Screen}

/-- As long as nothing has scrolled away, the rows a reader finds are those printed and
blank ones. -/
theorem Shown.rows_eq (hs : s.Shown max w h done row x) (hroom : done.length + 1 ≤ h) :
    ∃ blank, s.rows = done ++ row :: blank ∧ blank.length = h - (done.length + 1) ∧
      ∀ r ∈ blank, ∀ c ∈ r, c.isNul = true := by
  have hm := hs.max_pos
  obtain ⟨blank, hrows, hlen, hnul⟩ := (showsLast_concat (by omega)).mp hs.shows
  rw [keptAbove, List.rtake, Nat.sub_eq_zero_of_le (by omega), List.drop_zero] at hrows
  exact ⟨blank, hrows, hlen, hnul⟩

/-- The cells on the screen are those of the rows. -/
theorem Shown.cell_eq (hs : s.Shown max w h done row x) (hroom : done.length + 1 ≤ h) {y k : Nat}
    (hy : y < h) (hk : k ≤ w) : ∃ r, s.rows[y]? = some r ∧ r[k]? = some (s.visibleCell y k) := by
  have hm := hs.max_pos
  have hcount : s.currentScrollbackLines = 0 := by
    rw [hs.count_eq]
    omega
  have hlen : y < s.rows.length := by
    rw [rows_length, hs.wf.numberOfLines_eq, hcount, hs.height_eq]
    omega
  have hwidth : s.realWidth = w + 1 := congrArg (· + 1) hs.width_eq
  have hcol : k < (s.row y).length := by
    rw [Screen.row_length, hwidth]
    omega
  refine ⟨s.row y, ?_, ?_⟩
  · rw [List.getElem?_eq_getElem hlen, rows_getElem]
  · rw [List.getElem?_eq_getElem hcol, row_getElem,
      hs.wf.visibleCell_eq (Int.natCast_nonneg y) (by rw [hs.height_eq]; omega), hcount,
      Int.zero_add]

theorem Shown.blank_below (hs : s.Shown max w h done row x) {y k : Nat} (hy : done.length < y)
    (hy' : y < h) (hk : k ≤ w) : (s.visibleCell y k).ch = 0 := by
  obtain ⟨blank, hrows, hlen, hnul⟩ := hs.rows_eq (by omega)
  obtain ⟨r, hr, hcell⟩ := hs.cell_eq (by omega) hy' hk
  obtain ⟨n, rfl⟩ := Nat.exists_eq_add_of_lt hy
  have hmem : r ∈ blank := by
    rw [hrows, List.getElem?_append_right (by omega),
      show done.length + n + 1 - done.length = n + 1 by omega, List.getElem?_cons_succ] at hr
    exact List.mem_of_getElem? hr
  simpa [ScreenChar.isNul] using hnul r hmem _ (List.mem_of_getElem? hcell)

/-- With a blank row below the cursor the last logical line ends on the screen. -/
theorem Shown.closed (hs : s.Shown max w h done row x) (hroom : done.length + 1 < h) :
    Wrap.Closed ScreenChar.isNul s.rows := by
  obtain ⟨blank, hrows, hlen, hnul⟩ := hs.rows_eq (by omega)
  have hne : blank ≠ [] := by
    rintro rfl
    simp only [List.length_nil] at hlen
    omega
  intro r hr
  have hlast : s.rows.getLast? = blank.getLast? := by
    rw [hrows, List.getLast?_append_of_ne_nil _ (List.cons_ne_nil row blank),
      ← List.singleton_append, List.getLast?_append_of_ne_nil _ hne]
  rw [hlast] at hr
  exact Wrap.marked_of_nul (hnul r (List.mem_of_getLast? hr))

end Screen

namespace VT100

variable {F : Foundation} {v v₁ v₂ : VT100}

theorem tokenLoop_token {tok : VT100TCC} (h₁ : v.getNextToken F = .ok (tok, v₁))
    (hstops : tok.stops = false) (h₂ : v₁.processToken F tok = .ok v₂) (fuel : Nat) :
    tokenLoop F (fuel + 1) v = tokenLoop F fuel v₂ := by
  simp only [tokenLoop, h₁, ok_bind, hstops, Bool.false_eq_true, if_false, h₂]

/-- A sequence is fetched: its modes and attributes are set and its bytes are passed over. -/
theorem getNextToken_of_decode (h : v.Wf) {b : UInt8} {bs : List UInt8} {tok : VT100TCC} {n : Nat}
    (hb : b ≤ 0x1f) (hp : v.terminal.pending = b :: bs)
    (hdecode : decodeControl v.terminal (b :: bs) v.screen = .ok (tok, n, v.screen))
    (hn : n ≤ (b :: bs).length) (hmode : v.setMode tok = .ok v₁)
    (hattr : v₁.setCharAttr tok = .ok v₂) :
    ∃ v', v.getNextToken F = .ok (tok, v') ∧ v'.Wf ∧ v'.terminal.pending = (b :: bs).drop n ∧
      v'.screen = v₂.screen ∧ v₂.terminal.SameModes v'.terminal := by
  have hwf := setCharAttr_wf (setMode_wf h hmode) hattr
  have hpending : v₂.terminal.pending = b :: bs := by
    rw [(setCharAttr_sameStream hattr).pending_eq, (setMode_sameStream hmode).pending_eq, hp]
  have hle : n ≤ v₂.terminal.pending.length := by
    rw [hpending]
    exact hn
  refine ⟨{ v₂ with terminal := v₂.terminal.skip n }, ?_,
    ⟨Terminal.skip_wf hwf.terminal hle, hwf.screen⟩, ?_, rfl, ⟨_, _, _, _, rfl⟩⟩
  · rw [getNextToken_control bs hb hp, hdecode]
    simp only [ok_bind, hmode, hattr, advance_eq hwf.terminal hle]
  · rw [Terminal.skip_pending hwf.terminal hle, hpending]

/-- The tokens that change neither modes nor attributes and that are executed: all they do is
done by `putToken:` on the screen. -/
def ScreenOnly (tok : VT100TCC) : Prop :=
  (∀ v : VT100, v.setMode tok = .ok v) ∧ (∀ v : VT100, v.setCharAttr tok = .ok v) ∧
    tok.stops = false ∧ ¬(tok.type = .skip ∨ tok.type = .notSupport) ∧
    tok.type ≠ .strictAnsiMode

/-- The types of these tokens: no mode, no attribute, nothing saved, and none at which the
loop stops or which it only logs. -/
def drawsOnly : TokenType → Bool
  | .decset | .decrst | .sm | .rm | .deckpam | .deckpnm | .decsc | .decrc | .sgr => false
  | .cc 0 | .cc 14 | .cc 15 | .cc 17 | .cc 19 => false
  | .wait | .skip | .notSupport | .strictAnsiMode => false
  | _ => true

theorem screenOnly_of_type {tok : VT100TCC} (h : drawsOnly tok.type = true) : ScreenOnly tok := by
  have hne : ∀ type, drawsOnly type = false → tok.type ≠ type := by
    intro type hfalse htype
    rw [htype, hfalse] at h
    cases h
  refine ⟨fun v => ?_, fun v => ?_, ?_, ?_, hne _ rfl⟩
  · unfold setMode
    split
    all_goals first
      | rfl
      | exact absurd ‹_› (hne _ rfl)
  · rw [VT100.setCharAttr, Terminal.setCharAttr, if_neg (hne _ rfl)]
    rfl
  · rw [VT100TCC.stops, decide_eq_false (hne _ rfl), decide_eq_false (hne _ rfl)]
    rfl
  · rintro (htype | htype)
    · exact hne _ rfl htype
    · exact hne _ rfl htype

section

variable {b : UInt8} {bs : List UInt8} {tok : VT100TCC} {s₁ : Screen}

/-- The sequence at the front of the stream is fetched and executed. -/
theorem token_steps (h : v.Wf) (hb : b ≤ 0x1f) (hp : v.terminal.pending = b :: bs) {n : Nat}
    (hdecode : decodeControl v.terminal (b :: bs) v.screen = .ok (tok, n, v.screen))
    (hn : n ≤ (b :: bs).length) (htok : ScreenOnly tok)
    (hrun : ∀ t, v.terminal.SameModes t → v.screen.dispatch F t tok = .ok s₁) :
    ∃ v₁ v₂, v.getNextToken F = .ok (tok, v₁) ∧ v₁.screen = v.screen ∧
      v₁.processToken F tok = .ok v₂ ∧ v₂.Wf ∧ v₂.terminal.pending = (b :: bs).drop n ∧
      v.terminal.SameModes v₂.terminal ∧ s₁.Draws v₂.screen ∧
      v₂.screen.bufferLines = s₁.bufferLines := by
  obtain ⟨hmode, hattr, -, hexec, hstrict⟩ := htok
  obtain ⟨v₁, hfetch, hwf₁, hpending₁, hscreen₁, hmodes₁⟩ :=
    getNextToken_of_decode (F := F) h hb hp hdecode hn (hmode v) (hattr v)
  obtain ⟨s₂, hput, hd₂, hb₂⟩ : ∃ s₂, v₁.screen.putToken F v₁.terminal tok = .ok s₂ ∧
      s₁.Draws s₂ ∧ s₂.bufferLines = s₁.bufferLines := by
    refine ⟨_, by rw [hscreen₁, Screen.putToken, hrun _ hmodes₁, ok_bind], ?_⟩
    split
    · exact ⟨Screen.touch_draws _ _, rfl⟩
    · exact ⟨.refl _, rfl⟩
  have hprocess : v₁.processToken F tok = .ok { v₁ with screen := s₂ } := by
    rw [processToken, if_neg hexec, VT100.putToken, hput]
    simp only [ok_bind, if_neg hstrict]
  exact ⟨v₁, _, hfetch, hscreen₁, hprocess, processToken_wf hwf₁ hprocess, hpending₁, hmodes₁,
    hd₂, hb₂⟩

/-- The bytes are put, the sequence is fetched and executed, and nothing is left. -/
theorem sequence_steps (h : v.Wf) (hempty : v.terminal.pending = []) (hb : b ≤ 0x1f)
    (hdecode : ∀ t, decodeControl t (b :: bs) v.screen = .ok (tok, (b :: bs).length, v.screen))
    (htok : ScreenOnly tok)
    (hrun : ∀ t, v.terminal.SameModes t → v.screen.dispatch F t tok = .ok s₁) :
    ∃ v₁ v₂ v₃, v.putStreamData (b :: bs) = .ok v₁ ∧ v₁.terminal.pending = b :: bs ∧
      v₁.getNextToken F = .ok (tok, v₂) ∧ v₂.screen = v.screen ∧
      v₂.processToken F tok = .ok v₃ ∧ v₃.Wf ∧ v₃.terminal.pending = [] ∧
      v.terminal.SameModes v₃.terminal ∧ s₁.Draws v₃.screen ∧
      v₃.screen.bufferLines = s₁.bufferLines := by
  obtain ⟨t₁, h₁, hwf₁, hmodes₁, hpending₁⟩ := Terminal.putStreamData_spec h.terminal (b :: bs)
  rw [hempty, List.nil_append] at hpending₁
  obtain ⟨v₂, v₃, hfetch, hscreen, hexec, hwf, hpending, hmodes, hd, hbuffer⟩ :=
    token_steps (F := F) (v := { v with terminal := t₁ }) ⟨hwf₁, h.screen⟩ hb hpending₁
      (hdecode t₁) (Nat.le_refl _) htok fun t ht => hrun t (hmodes₁.trans ht)
  rw [List.drop_length] at hpending
  exact ⟨_, v₂, v₃, by rw [VT100.putStreamData, h₁, ok_bind], hpending₁, hfetch, hscreen, hexec,
    hwf, hpending, hmodes₁.trans hmodes, hd, hbuffer⟩

/-- The call completes, and it is a path of the run under any guard that lets its
steps pass. -/
theorem sequence_path (ok : Config → Event → Prop) (h : v.Wf) (hempty : v.terminal.pending = [])
    (hb : b ≤ 0x1f)
    (hdecode : ∀ t, decodeControl t (b :: bs) v.screen = .ok (tok, (b :: bs).length, v.screen))
    (htok : ScreenOnly tok)
    (hrun : ∀ t, v.terminal.SameModes t → v.screen.dispatch F t tok = .ok s₁)
    (hput : ok (.idle, v) (.put (b :: bs))) (hnext : ∀ u, ok (.reading, u) .next)
    (hexec : ∀ u : VT100, u.screen = v.screen → ok (.deliver tok, u) .exec) :
    ∃ v', Path (Step F) ok (.idle, v) (.idle, v') ∧ v.readInputStream F (b :: bs) = .ok v' ∧
      s₁.Draws v'.screen ∧ v'.screen.bufferLines = s₁.bufferLines ∧ v'.Wf ∧
      v'.terminal.pending = [] ∧ v.terminal.SameModes v'.terminal := by
  obtain ⟨v₁, v₂, v₃, h₁, hp₁, h₂, hs₂, h₃, hwf₃, hp₃, hmodes₃, hd₃, hb₃⟩ :=
    sequence_steps (F := F) h hempty hb hdecode htok hrun
  obtain ⟨s₄, hrefresh, hd₄, hb₄⟩ := Screen.refresh_spec hwf₃.screen
  have htoken : v₃.getNextToken F =
      .ok ({ type := .cc 0 }, { v₃ with terminal := v₃.terminal.emptyStream }) := by
    simp only [getNextToken, hp₃]
  have hstop : VT100.refresh { v₃ with terminal := v₃.terminal.emptyStream } =
      .ok { terminal := v₃.terminal.emptyStream, screen := s₄ } := by
    rw [VT100.refresh, hrefresh, ok_bind]
  refine ⟨{ terminal := v₃.terminal.emptyStream, screen := s₄ }, ?_, ?_, hd₃.trans hd₄,
    hb₄.trans hb₃, ⟨Terminal.emptyStream_wf hwf₃.terminal, hd₄.wf hwf₃.screen⟩,
    Terminal.emptyStream_pending _, hmodes₃.trans (Terminal.emptyStream_sameModes _)⟩
  · exact .step (.put h₁) hput (.step (.token h₂ htok.2.2.1) (hnext _)
      (.step (.exec h₃) (hexec _ hs₂) (.step (.stop htoken rfl hstop) (hnext _) (.refl _))))
  · rw [readInputStream, h₁, ok_bind, hp₁, List.length_cons, tokenLoop_token h₂ htok.2.2.1 h₃]
    simp only [tokenLoop, htoken, ok_bind, VT100TCC.stops]
    exact hstop

theorem readInputStream_sequence (h : v.Wf) (hempty : v.terminal.pending = []) (b : UInt8)
    (bs : List UInt8) (tok : VT100TCC) (hb : b ≤ 0x1f) {s₁ : Screen}
    (hdecode : ∀ t, decodeControl t (b :: bs) v.screen = .ok (tok, (b :: bs).length, v.screen))
    (htok : ScreenOnly tok)
    (hrun : ∀ t, v.terminal.SameModes t → v.screen.dispatch F t tok = .ok s₁) :
    ∃ v', v.readInputStream F (b :: bs) = .ok v' ∧ s₁.Draws v'.screen ∧
      v'.screen.bufferLines = s₁.bufferLines ∧ v'.Wf ∧ v'.terminal.pending = [] ∧
      v.terminal.SameModes v'.terminal := by
  obtain ⟨v', -, hrest⟩ := sequence_path (fun _ _ => True) h hempty hb hdecode htok hrun
    trivial (fun _ => trivial) fun _ _ => trivial
  exact ⟨v', hrest⟩

end

theorem AtRest.originMode_eq {t : Terminal} (h : AtRest t v) :
    v.terminal.originMode = t.originMode := by
  obtain ⟨stream, len, total, off, heq⟩ := h.modes
  rw [heq]

/-- `ESC [ 2 ; 3 r` -/
def setMarginsBytes : List UInt8 := [0x1b, 0x5b, 0x32, 0x3b, 0x33, 0x72]

/-- The margins become the second and the third row. -/
theorem readInputStream_setMargins (h : v.Wf) (hempty : v.terminal.pending = [])
    (hheight : 3 ≤ v.screen.height) (horigin : v.terminal.originMode = false) :
    ∃ v', v.readInputStream F setMarginsBytes = .ok v' ∧
      Screen.Draws { v.screen with scrollTop := 1, scrollBottom := 2, cursorX := 0, cursorY := 0 }
        v'.screen ∧
      v'.screen.bufferLines = v.screen.bufferLines ∧ v'.Wf ∧ v'.terminal.pending = [] ∧
      v.terminal.SameModes v'.terminal := by
  obtain ⟨tok, hdecode, htype, hp0, hp1⟩ : ∃ tok : VT100TCC,
      (∀ t, decodeControl t setMarginsBytes v.screen = .ok (tok, 6, v.screen)) ∧
      tok.type = .decstbm ∧ tok.csi.p.cell 0 = 2 ∧ tok.csi.p.cell 1 = 3 :=
    ⟨_, fun _ => rfl, rfl, rfl, rfl⟩
  have htok : ScreenOnly tok := screenOnly_of_type (by rw [htype]; rfl)
  have hset : ∀ t, v.terminal.SameModes t → v.screen.dispatch F t tok = .ok { v.screen with
      scrollTop := 1, scrollBottom := 2, cursorX := 0, cursorY := 0 } := by
    rintro t ⟨stream, len, total, off, rfl⟩
    simp only [Screen.dispatch, htype, hp0, hp1, Screen.setTopBottom, horigin]
    rw [if_pos (by omega)]
    rfl
  exact readInputStream_sequence h hempty _ _ tok (by decide) hdecode htok hset

/-- `ESC [ 2 5 H` -/
def lastRowBytes : List UInt8 := [0x1b, 0x5b, 0x32, 0x35, 0x48]

/-- The cursor goes to the last of 25 rows. -/
theorem readInputStream_lastRow (h : v.Wf) (hempty : v.terminal.pending = [])
    (hheight : v.screen.height = 25) (horigin : v.terminal.originMode = false) :
    ∃ v', v.readInputStream F lastRowBytes = .ok v' ∧
      Screen.Draws { v.screen with cursorX := 0, cursorY := 24 } v'.screen ∧
      v'.screen.bufferLines = v.screen.bufferLines ∧ v'.Wf ∧ v'.terminal.pending = [] ∧
      v.terminal.SameModes v'.terminal := by
  obtain ⟨tok, hdecode, htype, hp0, hp1⟩ : ∃ tok : VT100TCC,
      (∀ t, decodeControl t lastRowBytes v.screen = .ok (tok, 5, v.screen)) ∧
      tok.type = .cup ∧ tok.csi.p.cell 0 = 25 ∧ tok.csi.p.cell 1 = 1 := by
    refine ⟨_, fun _ => rfl, rfl, ?_, ?_⟩
    · simp [CSIParam.addNumber, cint, Block.set, Block.alloc, csiParamMax, CSIParam.zero]
    · simp [CSIParam.addNumber, cint, Block.set, Block.alloc, csiParamMax, CSIParam.zero]
  have htok : ScreenOnly tok := screenOnly_of_type (by rw [htype]; rfl)
  have hw := h.screen.width_pos
  have hmove : ∀ t, v.terminal.SameModes t → v.screen.dispatch F t tok = .ok
      (Screen.touch (24 * v.screen.width) { v.screen with cursorX := 0, cursorY := 24 }) := by
    rintro t ⟨stream, len, total, off, rfl⟩
    have hrow : Screen.clampPos (cint (25 - 1)) v.screen.height = 24 := by
      rw [hheight]
      rfl
    have hcolumn : Screen.clampPos (cint (1 - 1)) v.screen.width = 0 := by
      rw [show cint (1 - 1) = 0 from rfl, Screen.clampPos, if_neg (by decide), if_neg (by omega)]
    simp only [Screen.dispatch, htype, hp0, hp1, Screen.cursorToXY, horigin, hrow, hcolumn,
      Bool.false_eq_true, if_false, Int.add_zero]
  obtain ⟨v', hok, hd, hb, hrest⟩ :=
    readInputStream_sequence h hempty _ _ tok (by decide) hdecode htok hmove
  exact ⟨v', hok, (Screen.touch_draws _ _).trans hd, hb, hrest⟩

theorem AtRest.carriageReturn {t : Terminal} {max : Int} {w h x : Nat}
    {done : List (List ScreenChar)} {row : List ScreenChar} (hv : AtRest t v)
    (hs : v.screen.Shown max w h done row x) (hw : 0 < w) :
    ∃ v', v.readInputStream F [0x0d] = .ok v' ∧ AtRest t v' ∧
      v'.screen.Shown max w h done row 0 := by
  have htok : ScreenOnly { type := .cc 13 } := screenOnly_of_type rfl
  obtain ⟨v', hok, hd, hb, hwf, hpending, hmodes⟩ := readInputStream_sequence (F := F)
    ⟨hv.wf, hs.wf⟩ hv.pending_eq 0x0d [] { type := .cc 13 } (by decide) (fun _ => rfl) htok
    (fun _ _ => rfl)
  exact ⟨v', hok, ⟨hwf.terminal, hv.modes.trans hmodes, hpending⟩,
    (hs.withCursorX 0 hw).draws_of_eq hd hb⟩

/-! ## Line feeds -/

/-- Above the bottom margin it goes to the next row. -/
theorem lineFeed_down {s : Screen} (hprint : s.printToAnsi = false) (hdown : s.CanMoveDown) :
    ∃ s', (∀ t, s.lineFeed t = .ok s') ∧
      Screen.Draws { s with cursorX := 0, cursorY := s.cursorY + 1 } s' := by
  refine ⟨_, fun t => bind_eq_ok.mpr ⟨_, by
    rw [hprint]
    exact Screen.setNewLine_down t hdown, rfl⟩, ?_⟩
  have hflag := Screen.touch_draws ((s.cursorY + 1) * s.width + s.cursorX)
    { s with cursorY := s.cursorY + 1 }
  split
  · exact hflag.withCursorX 0
  · exact .refl _

/-- In the last row it scrolls: it is fetched and executed, and the row is a new one. -/
theorem lineFeed_scrolls {max : Int} {w h x : Nat} {done : List (List ScreenChar)}
    {row : List ScreenChar} (hv : v.Wf) (hs : v.screen.Shown max w h done row x)
    (hroom : h ≤ done.length + 1) {bs : List UInt8} (hp : v.terminal.pending = 0x0a :: bs) :
    ∃ v₁ v₂ new, v.getNextToken F = .ok ({ type := .cc 10 }, v₁) ∧ v₁.screen = v.screen ∧
      v₁.processToken F { type := .cc 10 } = .ok v₂ ∧ v₂.Wf ∧ v₂.terminal.pending = bs ∧
      v₂.screen.Shown max w h (done ++ [row]) new 0 := by
  have hdecode : decodeControl v.terminal (0x0a :: bs) v.screen =
      .ok ({ type := .cc 10 }, 1, v.screen) := by
    cases bs <;> rfl
  have htok : ScreenOnly { type := .cc 10 } := screenOnly_of_type rfl
  obtain ⟨s, new, hfeed, hs', -⟩ := Screen.setNewLine_scrolls hs v.terminal hroom
  have hline : v.screen.lineFeed v.terminal = .ok { s with cursorX := 0 } := by
    rw [Screen.lineFeed, hs.print_eq, if_neg (by decide), hfeed, ok_bind]
  obtain ⟨v₁, v₂, hfetch, hscreen, hexec, hwf, hpending, -, hd, hbuffer⟩ := token_steps (F := F)
    hv (by decide) hp hdecode (by simp) htok (by
      rintro t ⟨stream, len, total, off, rfl⟩
      exact hline)
  have hw := hs'.wf.width_pos
  rw [hs'.width_eq] at hw
  exact ⟨v₁, v₂, new, hfetch, hscreen, hexec, hwf, hpending,
    (hs'.withCursorX 0 (by omega)).draws_of_eq hd hbuffer⟩

theorem intercalate_replicate (n : Nat) (line : List UInt8) :
    [0x0a].intercalate (List.replicate n [] ++ [line]) = List.replicate n 0x0a ++ line := by
  induction n with
  | zero => simp
  | succ n ih =>
      have hcons : [0x0a].intercalate ([] :: (List.replicate n [] ++ [line])) =
          0x0a :: [0x0a].intercalate (List.replicate n [] ++ [line]) := by
        cases n <;> simp [List.replicate_succ, List.intercalate_cons_cons]
      rw [List.replicate_succ, List.cons_append, hcons, ih, List.replicate_succ, List.cons_append]

/-- Margins on a screen of 25 rows, and the cursor in the last row, far below them. -/
theorem readInputStream_margins_lastRow (h : v.Wf) (hempty : v.terminal.pending = [])
    (hheight : v.screen.height = 25) (horigin : v.terminal.originMode = false) :
    ∃ v₁ v₂, v.readInputStream F setMarginsBytes = .ok v₁ ∧
      v₁.readInputStream F lastRowBytes = .ok v₂ ∧
      Screen.Draws { v.screen with scrollTop := 1, scrollBottom := 2, cursorX := 0, cursorY := 24 }
        v₂.screen ∧
      v₂.screen.bufferLines = v.screen.bufferLines := by
  obtain ⟨v₁, h₁, hd₁, hb₁, hwf₁, hempty₁, hmodes₁⟩ := readInputStream_setMargins (F := F) h hempty
    (by omega) horigin
  have horigin₁ : v₁.terminal.originMode = false := by
    obtain ⟨stream, len, total, off, heq⟩ := hmodes₁
    rw [heq]
    exact horigin
  obtain ⟨v₂, h₂, hd₂, hb₂, -⟩ := readInputStream_lastRow (F := F) hwf₁ hempty₁
    (hd₁.height_eq.trans hheight) horigin₁
  refine ⟨v₁, v₂, h₁, h₂, ?_, hb₂.trans hb₁⟩
  have hcursor := hd₁.withCursor 0 24
  exact hcursor.trans hd₂

theorem init_margins_lastRow (fresh : ScreenChar) : ∃ v v₁ v₂, VT100.init fresh = .ok v ∧
    v.readInputStream F setMarginsBytes = .ok v₁ ∧ v₁.readInputStream F lastRowBytes = .ok v₂ ∧
    v₂.screen.topLine = 0 ∧ v₂.screen.height = 25 ∧ v₂.screen.maxScrollbackLines = 1000 ∧
    v₂.screen.scrollTop = 1 ∧ v₂.screen.scrollBottom = 2 ∧ v₂.screen.cursorY = 24 := by
  obtain ⟨v, hv, ht, hs⟩ := init_fresh fresh
  obtain ⟨v₁, v₂, h₁, h₂, hd, -⟩ := readInputStream_margins_lastRow (F := F) (init_wf hv)
    (by rw [ht]; rfl) hs.height_eq (by rw [ht]; rfl)
  exact ⟨v, v₁, v₂, hv, h₁, h₂, hd.topLine_eq.trans hs.top_eq, hd.height_eq.trans hs.height_eq,
    hd.max_eq.trans hs.max_eq, hd.margins_eq.1, hd.margins_eq.2, hd.cursor_eq.2⟩

/-- Lines on a blank screen: the rows of all but the last one, and the rows of that one. -/
theorem fresh_lines (hF : F.AsciiExact) {w h : Nat} (hs : v.screen.Fresh w h) (hw : 0 < w)
    (hh : 0 < h) (ht : v.terminal = { Terminal.init with encoding := nsUtf8StringEncoding })
    {lines : List (List UInt8)} (hlines : ∀ l ∈ lines, ∀ b ∈ l, IsPrintable b) {line : List UInt8}
    (hline : ∀ b ∈ line, IsPrintable b) :
    ∃ v' rss full row, v.readInputStream F ([0x0a].intercalate (lines ++ [line])) = .ok v' ∧
      AtRest v.terminal v' ∧
      List.Forall₂ (Wrap.Prints ScreenChar.isNul w) (lines.map (List.map v.terminal.printed)) rss ∧
      v'.screen.Shown defaultScrollback w h (rss.flatten ++ full) row (line.length % w) ∧
      full.length = line.length / w ∧ (∀ r ∈ full, Wrap.marked ScreenChar.isNul r = true) ∧
      line.map v.terminal.printed = full.flatMap List.dropLast ++ row.take (line.length % w) := by
  obtain ⟨v₁, tail, h₁, htail, hv₁⟩ := typing_start hs hw hh ht
    ([0x0a].intercalate (lines ++ [line]))
  have hlen := congrArg List.length hv₁.pending_eq
  obtain ⟨v₂, rss, tail', h₂, hrss, hv₂, -⟩ := hv₁.loopLines hF hw htail hlines hline
    (Nat.le_refl _)
  obtain ⟨full, row, htext, hfull, hmarked, -, -, hs₂⟩ := hv₂.printing.position
  rw [List.length_map] at htext hfull hs₂
  rw [List.nil_append] at hs₂
  refine ⟨v₂, rss, full, row, ?_, ⟨hv₂.wf, hv₂.modes, hv₂.pending_eq⟩, hrss, hs₂, hfull,
    fun r hr => (hmarked r hr).2, htext⟩
  rw [readInputStream, h₁, ok_bind, hlen]
  exact h₂

/-- `n` line feeds and a line on a new object: `n` rows, and the rows of the line. -/
theorem init_line (hF : F.AsciiExact) (fresh : ScreenChar) (n : Nat) (line : List UInt8)
    (hline : ∀ b ∈ line, IsPrintable b) :
    ∃ v v' done full row, VT100.init fresh = .ok v ∧
      v.readInputStream F (List.replicate n 0x0a ++ line) = .ok v' ∧ AtRest v.terminal v' ∧
      v.terminal = { Terminal.init with encoding := nsUtf8StringEncoding } ∧
      v'.screen.Shown defaultScrollback kDefaultWidth.toNat kDefaultHeight.toNat (done ++ full) row
        (line.length % kDefaultWidth.toNat) ∧
      done.length = n ∧ full.length = line.length / kDefaultWidth.toNat ∧
      (∀ r ∈ full, Wrap.marked ScreenChar.isNul r = true) ∧
      line.map v.terminal.printed =
        full.flatMap List.dropLast ++ row.take (line.length % kDefaultWidth.toNat) := by
  have hblank : ∀ l ∈ List.replicate n ([] : List UInt8), ∀ b ∈ l, IsPrintable b :=
    fun l hl => by simp [List.eq_of_mem_replicate hl]
  obtain ⟨v, hv, ht, hfresh⟩ := init_fresh fresh
  obtain ⟨v', rss, full, row, hok, hrest, hrss, hs, htext⟩ :=
    fresh_lines hF hfresh (by decide) (by decide) ht hblank hline
  refine ⟨v, v', rss.flatten, full, row, hv, ?_, hrest, ht, hs, ?_, htext⟩
  · rwa [intercalate_replicate] at hok
  · rw [Wrap.length_of_prints (by decide) hrss]
    simp

/-- With a short line behind `n` line feeds: `n` blank rows, and the line in the row below
them. For large `n` the ring has been rotated. -/
theorem init_lineFeeds (hF : F.AsciiExact) (fresh : ScreenChar) (n : Nat) (line : List UInt8)
    (hline : ∀ b ∈ line, IsPrintable b) (hshort : line.length < kDefaultWidth.toNat) :
    ∃ v v' done row, VT100.init fresh = .ok v ∧
      v.readInputStream F (List.replicate n 0x0a ++ line) = .ok v' ∧ AtRest v.terminal v' ∧
      v.terminal = { Terminal.init with encoding := nsUtf8StringEncoding } ∧
      v'.screen.Shown defaultScrollback kDefaultWidth.toNat kDefaultHeight.toNat done row
        line.length ∧
      done.length = n ∧ row.take line.length = line.map v.terminal.printed := by
  obtain ⟨v, v', done, full, row, hv, hok, hrest, ht, hs, hdone, hfull, -, htext⟩ :=
    init_line hF fresh n line hline
  rw [Nat.div_eq_of_lt hshort, List.length_eq_zero_iff] at hfull
  rw [Nat.mod_eq_of_lt hshort] at htext hs
  rw [hfull, List.append_nil] at hs
  rw [hfull, List.flatMap_nil, List.nil_append] at htext
  exact ⟨v, v', done, row, hv, hok, hrest, ht, hs, hdone, htext.symm⟩

/-- `ab`, a line feed and `cd` -/
def textBytes : List UInt8 := [0x61, 0x62, 0x0a, 0x63, 0x64]

theorem fresh_text (hF : F.AsciiExact) {w h : Nat} (hs : v.screen.Fresh w h) (hw : 2 < w)
    (hh : 0 < h) (ht : v.terminal = { Terminal.init with encoding := nsUtf8StringEncoding }) :
    ∃ v' first row, v.readInputStream F textBytes = .ok v' ∧ AtRest v.terminal v' ∧
      v'.screen.Shown defaultScrollback w h [first] row 2 ∧
      first.take 2 = [0x61, 0x62].map v.terminal.printed ∧
      row.take 2 = [0x63, 0x64].map v.terminal.printed := by
  have hab : ∀ l ∈ ([[0x61, 0x62]] : List (List UInt8)), ∀ b ∈ l, IsPrintable b := by
    simp [IsPrintable]
  have hcd : ∀ b ∈ ([0x63, 0x64] : List UInt8), IsPrintable b := by simp [IsPrintable]
  obtain ⟨v', rss, full, row, hok, hrest, hrss, hs', hfull, -, htext⟩ :=
    fresh_lines hF hs (by omega) hh ht hab hcd
  have hlen : ([0x63, 0x64] : List UInt8).length = 2 := rfl
  rw [hlen, Nat.div_eq_of_lt hw, List.length_eq_zero_iff] at hfull
  rw [hlen, Nat.mod_eq_of_lt hw] at hs' htext
  subst hfull
  obtain ⟨first, rfl, hfirst⟩ : ∃ first, rss = [[first]] ∧
      first.take 2 = [0x61, 0x62].map v.terminal.printed := by
    cases hrss with
    | cons hprints hnil =>
        cases hnil
        cases hprints with
        | last hlen hfit hrow hrest => exact ⟨_, rfl, hrow⟩
        | full hlen hlong hrow hmark hrows =>
            rw [List.length_map] at hlong
            exact absurd hlong (by simpa using hw)
  exact ⟨v', first, row, hok, hrest, hs', hfirst, htext.symm⟩

theorem init_text (hF : F.AsciiExact) (fresh : ScreenChar) :
    ∃ v v' first row, VT100.init fresh = .ok v ∧ v.readInputStream F textBytes = .ok v' ∧
      AtRest v.terminal v' ∧
      v.terminal = { Terminal.init with encoding := nsUtf8StringEncoding } ∧
      v'.screen.Shown defaultScrollback kDefaultWidth.toNat kDefaultHeight.toNat [first] row 2 ∧
      first.take 2 = [0x61, 0x62].map v.terminal.printed ∧
      row.take 2 = [0x63, 0x64].map v.terminal.printed := by
  obtain ⟨v, hv, ht, hs⟩ := init_fresh fresh
  obtain ⟨v', first, row, hok, hrest, hs', hfirst, hrow⟩ :=
    fresh_text hF hs (by decide) (by decide) ht
  exact ⟨v, v', first, row, hv, hok, hrest, ht, hs', hfirst, hrow⟩

theorem sized_text (hF : F.AsciiExact) (fresh : ScreenChar) {w h : Nat} (hw : 2 < w) (hh : 0 < h) :
    ∃ v v₁ v₂ first row, VT100.init fresh = .ok v ∧ v.setScreenSize w h = .ok v₁ ∧
      v₁.readInputStream F textBytes = .ok v₂ ∧ AtRest v₁.terminal v₂ ∧
      v₂.screen.Shown defaultScrollback w h [first] row 2 ∧
      row.take 2 = [0x63, 0x64].map v₁.terminal.printed := by
  obtain ⟨v, v₁, hv, h₁, ht, hs⟩ := sized_fresh fresh (w := w) (h := h) (by omega) hh
  obtain ⟨v₂, first, row, h₂, hrest, hs', -, hrow⟩ := fresh_text hF hs hw hh ht
  exact ⟨v, v₁, v₂, first, row, hv, h₁, h₂, hrest, hs', hrow⟩

/-- Margins around the second row of the text and the blank row below it. The cursor goes
home, and the region lies in front of the wrap point. -/
theorem init_text_setMargins (hF : F.AsciiExact) (fresh : ScreenChar) :
    ∃ v v₁ v₂, VT100.init fresh = .ok v ∧ v.readInputStream F textBytes = .ok v₁ ∧
      v₁.readInputStream F setMarginsBytes = .ok v₂ ∧ v₂.Wf ∧
      (v₂.screen.scrollTop = 1 ∧ v₂.screen.scrollBottom = 2) ∧ v₂.screen.topLine = 0 ∧
      v₂.screen.totalHeight = 1025 := by
  obtain ⟨v, v₁, first, row, hv, h₁, hrest, ht, hs, -⟩ := init_text hF fresh
  obtain ⟨v₂, h₂, hd, -, hwf, -⟩ := readInputStream_setMargins (F := F) ⟨hrest.wf, hs.wf⟩
    hrest.pending_eq (by rw [hs.height_eq]; decide) (hrest.originMode_eq.trans (by rw [ht]; rfl))
  exact ⟨v, v₁, v₂, hv, h₁, h₂, hwf, hd.margins_eq, hd.topLine_eq.trans hs.top_eq,
    hd.totalHeight_eq.trans hs.total_eq⟩

/-- Line feeds and margins on a new object: the ring has been rotated. -/
theorem init_lineFeeds_setMargins (hF : F.AsciiExact) (fresh : ScreenChar) (n : Nat) :
    ∃ v v₁ v₂, VT100.init fresh = .ok v ∧
      v.readInputStream F (List.replicate n 0x0a) = .ok v₁ ∧
      v₁.readInputStream F setMarginsBytes = .ok v₂ ∧ v₂.Wf ∧
      v₂.screen.topLine = ((n + 1 - 25 : Nat) : Int) % 1025 ∧ v₂.screen.height = 25 ∧
      v₂.screen.totalHeight = 1025 ∧ v₂.screen.scrollTop = 1 ∧ v₂.screen.scrollBottom = 2 := by
  obtain ⟨v, v₁, done, row, hv, h₁, hrest, ht, hs, rfl, -⟩ :=
    init_lineFeeds hF fresh n [] (by simp) (by decide)
  rw [List.append_nil] at h₁
  have horigin : v₁.terminal.originMode = false := hrest.originMode_eq.trans (by rw [ht]; rfl)
  obtain ⟨v₂, h₂, hd, -, hwf, -⟩ := readInputStream_setMargins (F := F) ⟨hrest.wf, hs.wf⟩
    hrest.pending_eq (by rw [hs.height_eq]; decide) horigin
  exact ⟨v, v₁, v₂, hv, h₁, h₂, hwf, hd.topLine_eq.trans hs.top_eq,
    hd.height_eq.trans hs.height_eq, hd.totalHeight_eq.trans hs.total_eq, hd.margins_eq⟩

end VT100

end MobileTerminal
