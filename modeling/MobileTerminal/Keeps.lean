import MobileTerminal.Reachable
import MobileTerminal.Rows

/-!
# What tokens leave alone

The size of the screen, the saved cursor and the saved buffer survive every
token but the one that is meant to change them: `DECSC` saves the cursor, and
`DECSET 47` and `DECRST 47` save and restore the buffer. `Keeps` is that frame;
every handler is in it.

The frame is a record of the fields in question, and `Keeps s s'` is the
equality of two such records, so it composes by transitivity of equality and a
handler is shown to be in it by following its text. Handlers that draw are in it
by `Draws.keeps`, all at once.

What is kept by the control characters inside a sequence is kept by fetching it
(`decodeControl_inv`), since the screen is not touched by anything else of a
fetch but the modes it sets. A mode saves or restores the buffer, or it only
draws (`setMode_draws`).

Results about what happens between two tokens, a `DECSC` and the next `DECRC`
for instance, carry their frame along a run by these lemmas.
-/

namespace MobileTerminal

namespace Screen

variable {F : Foundation} {t : Terminal} {s s' s'' : Screen}

/-- What no token but those changes. -/
structure Frame where
  width : Int
  height : Int
  saveCursorX : Int
  saveCursorY : Int
  saveCharset : Block Bool
  tempBuffer : Option (Block ScreenChar)

def frame (s : Screen) : Frame where
  width := s.width
  height := s.height
  saveCursorX := s.saveCursorX
  saveCursorY := s.saveCursorY
  saveCharset := s.saveCharset
  tempBuffer := s.tempBuffer

def Keeps (s s' : Screen) : Prop := s'.frame = s.frame

theorem Keeps.refl (s : Screen) : Keeps s s := rfl

theorem Keeps.trans (h : Keeps s s') (h' : Keeps s' s'') : Keeps s s'' := Eq.trans h' h

theorem Keeps.width_eq (h : Keeps s s') : s'.width = s.width := congrArg Frame.width h

theorem Keeps.height_eq (h : Keeps s s') : s'.height = s.height := congrArg Frame.height h

theorem Keeps.saved_eq (h : Keeps s s') : s'.saveCursorX = s.saveCursorX ∧
    s'.saveCursorY = s.saveCursorY ∧ s'.saveCharset = s.saveCharset :=
  ⟨congrArg Frame.saveCursorX h, congrArg Frame.saveCursorY h, congrArg Frame.saveCharset h⟩

theorem Keeps.temp_eq (h : Keeps s s') : s'.tempBuffer = s.tempBuffer :=
  congrArg Frame.tempBuffer h

theorem Keeps.of_ok (h : Keeps s s') (hok : (.ok s' : Res Screen) = .ok s'') : Keeps s s'' :=
  Except.ok.inj hok ▸ h

theorem Draws.keeps (hd : Draws s s') : Keeps s s' := by
  obtain ⟨⟨b, d, line, fg, bg, w, -, -, rfl⟩, -⟩ := hd
  exact rfl

theorem Keeps.forUp {f : Int → Screen → Res Screen}
    (hf : ∀ i s s', f i s = .ok s' → Keeps s s') {lo : Int} {n : Nat}
    (hok : forUp f lo n s = .ok s') : Keeps s s' :=
  forUp_inv (P := fun _ s' => Keeps s s') (fun i s₁ s₂ _ _ hI hs => hI.trans (hf i s₁ s₂ hs))
    (.refl s) hok

theorem Keeps.ite {p : Prop} [Decidable p] (h : Keeps s s') (h' : Keeps s s'') :
    Keeps s (if p then s' else s'') := by
  split
  · exact h
  · exact h'

theorem cursorX_keeps (s : Screen) (x : Int) : Keeps s { s with cursorX := x } := rfl

/-! ## Text and scrolling -/

theorem addLineToScrollback_keeps (s : Screen) : Keeps s s.addLineToScrollback.2 := by
  unfold addLineToScrollback
  split
  · simp only
    split
    · split <;> exact rfl
    · exact rfl
  · exact .refl s

theorem keepTopLine_keeps (hok : s.keepTopLine = .ok s') : Keeps s s' := by
  unfold keepTopLine at hok
  split at hok
  · simp only at hok
    split at hok
    · exact (addLineToScrollback_keeps s).trans (setDirty_draws hok).keeps
    · obtain ⟨d, hmove, hok⟩ := bind_eq_ok.mp hok
      have hd := (Draws.dirty (move_size hmove)).trans (dirtyFill_draws hok)
      exact (addLineToScrollback_keeps s).trans hd.keeps
  · exact (setDirty_draws hok).keeps

theorem setNewLine_keeps (hok : s.setNewLine t = .ok s') : Keeps s s' := by
  unfold setNewLine at hok
  split at hok
  · refine Keeps.of_ok ?_ hok
    exact .ite rfl rfl
  · split at hok
    · obtain ⟨s₁, h₁, hok⟩ := bind_eq_ok.mp hok
      obtain ⟨line, -, hok⟩ := bind_eq_ok.mp hok
      have hd := setDefaultLine_draws hok
      exact (keepTopLine_keeps h₁).trans hd.keeps
    · obtain ⟨-, -, hok⟩ := bind_eq_ok.mp hok
      exact (scrollUpRegion_draws hok).keeps

theorem scrollUp_keeps (hok : s.scrollUp t = .ok s') : Keeps s s' := by
  obtain ⟨-, -, hok⟩ := bind_eq_ok.mp hok
  split at hok
  · exact setNewLine_keeps hok
  · exact (scrollUpRegion_draws hok).keeps

theorem putCell_keeps {c : ScreenChar} (hok : s.putCell t c = .ok s') :
    Keeps s s' := by
  obtain ⟨-, hd⟩ | ⟨-, s₁, hd, hnl⟩ := putCell_cases hok
  · exact (cursorX_keeps s _).trans hd.keeps
  · exact (cursorX_keeps s 0).trans (hd.keeps.trans (setNewLine_keeps hnl))

theorem setString_keeps {string : List UniChar} {ascii : Bool} 
    (hok : s.setString F t string ascii = .ok s') : Keeps s s' := by
  unfold setString at hok
  split at hok
  · cases hok
    exact .refl s
  · obtain ⟨cells, -, hok⟩ := bind_eq_ok.mp hok
    exact foldlM_inv (P := Keeps s) (fun _ _ _ hI hs => hI.trans (putCell_keeps hs))
      (.refl s) hok

theorem putString_keeps {string : List UniChar} {ascii : Bool} 
    (hok : s.putString F t string ascii = .ok s') : Keeps s s' := by
  unfold putString at hok
  split at hok
  · refine Keeps.of_ok ?_ hok
    unfold printStringToAnsi
    split <;> exact rfl
  · exact setString_keeps hok

theorem lineFeed_keeps (hok : s.lineFeed t = .ok s') : Keeps s s' := by
  obtain ⟨s₁, h₁, hok⟩ := bind_eq_ok.mp hok
  cases hok
  refine Keeps.trans ?_ (cursorX_keeps s₁ 0)
  split at h₁
  · cases h₁
    exact rfl
  · exact setNewLine_keeps h₁

/-! ## Moving the cursor -/

theorem backSpace_keeps (s : Screen) : Keeps s s.backSpace := by
  unfold backSpace
  split
  · exact rfl
  · exact .refl s

theorem setTab_keeps (hok : s.setTab = .ok s') : Keeps s s' := by
  obtain ⟨x, -, hok⟩ := bind_eq_ok.mp hok
  cases hok
  exact rfl

theorem cursorLeft_keeps (n : Int) (s : Screen) : Keeps s (s.cursorLeft n) := by
  refine Keeps.trans ?_ (touch_draws _ _).keeps
  exact .ite rfl (.refl s)

theorem cursorRight_keeps (n : Int) (s : Screen) : Keeps s (s.cursorRight n) := by
  refine Keeps.trans ?_ (touch_draws _ _).keeps
  exact .ite rfl (.refl s)

theorem cursorUp_keeps (n : Int) (s : Screen) : Keeps s (s.cursorUp n) := by
  unfold cursorUp
  simp only
  split <;> exact rfl

theorem cursorDown_keeps (n : Int) (s : Screen) : Keeps s (s.cursorDown n) := by
  unfold cursorDown
  simp only
  split <;> exact rfl

theorem restoreCursorPosition_keeps (hok : s.restoreCursorPosition = .ok s') : Keeps s s' := by
  obtain ⟨-, -, hok⟩ := bind_eq_ok.mp hok
  obtain ⟨-, -, hok⟩ := bind_eq_ok.mp hok
  cases hok
  exact rfl

theorem setTopBottom_keeps (p0 p1 : Int) (s : Screen) : Keeps s (s.setTopBottom t p0 p1) := by
  unfold setTopBottom
  exact .ite rfl (.refl s)

theorem cursorToX_keeps (x : Int) (s : Screen) : Keeps s (s.cursorToX x) := rfl

theorem cursorToXY_keeps (x y : Int) (s : Screen) : Keeps s (s.cursorToXY t x y) := rfl

theorem index_keeps (hok : s.index t = .ok s') : Keeps s s' := by
  unfold index at hok
  split at hok
  · exact scrollUp_keeps hok
  · cases hok
    exact rfl

theorem reverseIndex_keeps (hok : s.reverseIndex t = .ok s') : Keeps s s' := by
  unfold reverseIndex at hok
  split at hok
  · exact (scrollDown_draws hok).keeps
  · cases hok
    exact rfl

theorem markTab_keeps {v : Bool} (hok : s.markTab v = .ok s') : Keeps s s' := by
  unfold markTab at hok
  split at hok
  · obtain ⟨tabs, -, hok⟩ := bind_eq_ok.mp hok
    cases hok
    exact rfl
  · cases hok
    exact .refl s

/-! ## Tokens -/

theorem putControl_keeps {code : Nat} (hok : s.putControl t code = .ok s') :
    Keeps s s' := by
  unfold putControl at hok
  split at hok
  · cases hok
    exact rfl
  · exact (backSpace_keeps s).of_ok hok
  · exact setTab_keeps hok
  · exact lineFeed_keeps hok
  · exact lineFeed_keeps hok
  · exact lineFeed_keeps hok
  · cases hok
    exact rfl
  · exact (deleteCharacters_draws hok).keeps
  · cases hok
    exact .refl s

theorem dispatch_keeps {tok : VT100TCC} (htok : tok.type ≠ .decsc)
    (hok : s.dispatch F t tok = .ok s') : Keeps s s' := by
  obtain ⟨type, string, code, csi⟩ := tok
  cases type with
  | string => exact putString_keeps hok
  | asciiString => exact putString_keeps hok
  | cc code => exact putControl_keeps hok
  | cub => exact (cursorLeft_keeps _ s).of_ok hok
  | cud => exact (cursorDown_keeps _ s).of_ok hok
  | cuf => exact (cursorRight_keeps _ s).of_ok hok
  | cup => exact (cursorToXY_keeps _ _ s).of_ok hok
  | cuu => exact (cursorUp_keeps _ s).of_ok hok
  | decaln => exact (alignmentDisplay_draws hok).keeps
  | decrc => exact restoreCursorPosition_keeps hok
  | decsc => exact absurd rfl htok
  | decstbm => exact (setTopBottom_keeps _ _ s).of_ok hok
  | ed => exact (eraseInDisplay_draws hok).keeps
  | el => exact (eraseInLine_draws hok).keeps
  | hts => exact markTab_keeps hok
  | hvp => exact (cursorToXY_keeps _ _ s).of_ok hok
  | nel =>
      exact (cursorX_keeps s 0).trans (index_keeps hok)
  | ind => exact index_keeps hok
  | ri => exact reverseIndex_keeps hok
  | tbc =>
      simp only [dispatch] at hok
      split at hok
      · exact (show Keeps s s.clearTabStop from rfl).of_ok hok
      · split at hok
        · exact markTab_keeps hok
        · exact (Keeps.refl s).of_ok hok
  | decset =>
      refine Keeps.of_ok ?_ hok
      exact .ite rfl (.refl s)
  | decrst =>
      refine Keeps.of_ok ?_ hok
      exact .ite rfl (.refl s)
  | cha => exact (cursorToX_keeps _ s).of_ok hok
  | vpa => exact (cursorToXY_keeps _ _ s).of_ok hok
  | vpr => exact (cursorToXY_keeps _ _ s).of_ok hok
  | ech => exact (eraseCharacters_draws hok).keeps
  | print =>
      refine Keeps.of_ok ?_ hok
      unfold printAnsi
      split
      · exact rfl
      · split <;> exact rfl
  | insblnk => exact (insertBlank_draws hok).keeps
  | insln => exact (insertLines_draws hok).keeps
  | delch => exact (deleteCharacters_draws hok).keeps
  | delln => exact (deleteLines_draws hok).keeps
  | su => exact Keeps.forUp (fun _ _ _ hs => scrollUp_keeps hs) hok
  | sd => exact Keeps.forUp (fun _ _ _ hs => (scrollDown_draws hs).keeps) hok
  | _ =>
      cases hok
      rfl

theorem putToken_keeps {tok : VT100TCC} (htok : tok.type ≠ .decsc)
    (hok : s.putToken F t tok = .ok s') : Keeps s s' := by
  obtain ⟨s₁, h₁, hok⟩ := bind_eq_ok.mp hok
  refine (dispatch_keeps htok h₁).trans (Keeps.of_ok ?_ hok)
  split
  · exact (touch_draws _ _).keeps
  · exact .refl s₁

/-- `DECSC` keeps the size and the saved buffer like every other token. -/
theorem putToken_kept {tok : VT100TCC} (hok : s.putToken F t tok = .ok s') :
    s'.width = s.width ∧ s'.height = s.height ∧ s'.tempBuffer = s.tempBuffer := by
  by_cases htok : tok.type = .decsc
  · obtain ⟨s₁, h₁, hok⟩ := bind_eq_ok.mp hok
    simp only [dispatch, htok] at h₁
    cases h₁
    cases hok
    split <;> exact ⟨rfl, rfl, rfl⟩
  · have hk := putToken_keeps htok hok
    exact ⟨hk.width_eq, hk.height_eq, hk.temp_eq⟩

/-! ## The saved buffer -/

theorem saveBuffer_eq (hok : s.saveBuffer = .ok s') :
    ∃ temp, s' = { s with tempBuffer := some temp } := by
  obtain ⟨temp, -, hok⟩ := bind_eq_ok.mp hok
  cases hok
  exact ⟨temp, rfl⟩

theorem clearBuffer_keeps (hok : s.clearBuffer t = .ok s') : Keeps s s' := by
  obtain ⟨s₁, h₁, hok⟩ := bind_eq_ok.mp hok
  obtain ⟨s₂, h₂, hok⟩ := bind_eq_ok.mp hok
  obtain ⟨s₃, h₃, hok⟩ := bind_eq_ok.mp hok
  have hscreen : Keeps s s₁ := by
    obtain ⟨s₀, h₀, h₁⟩ := bind_eq_ok.mp h₁
    have hd := (getDefaultLine_draws _ _ _ _).trans (.forUp (fun _ _ _ => clearLineAt_draws) h₀)
    exact hd.keeps.trans (setDirty_draws h₁).keeps
  have hdrop : Keeps s₁ s₂ := by
    unfold dropScrollback at h₂
    split at h₂
    · obtain ⟨s₀, h₀, h₂⟩ := bind_eq_ok.mp h₂
      have hd := (getDefaultLine_draws _ _ _ _).trans (.forUp (fun _ _ _ => clearLineAt_draws) h₀)
      cases h₂
      exact hd.keeps
    · exact (Keeps.refl s₁).of_ok h₂
  exact hscreen.trans (hdrop.trans ((setDirty_draws h₃).trans (refresh_draws hok)).keeps)

/-! ## Controls inside a sequence -/

theorem control_keeps {b : UInt8} (hok : control t s b = .ok s') : Keeps s s' := by
  obtain hc | hc | hc | hc | hc | hc | hc := control_cases t s b <;> rw [hc] at hok
  · exact (Keeps.refl s).of_ok hok
  · cases hok
    exact rfl
  · exact (backSpace_keeps s).of_ok hok
  · exact setTab_keeps hok
  · exact setNewLine_keeps hok
  · cases hok
    exact rfl
  · exact (deleteCharacters_draws hok).keeps

end Screen

/-- A control sequence has executed its embedded controls on the screen. -/
theorem decodeCsi_screen {t : Terminal} {datap : List UInt8} {s s' : Screen} {tok : VT100TCC}
    {n : Nat} (hok : decodeCsi t datap s = .ok (tok, n, s')) :
    (embeddedControls datap).foldlM (control t) s = .ok s' := by
  rw [decodeCsi, getCSIParam_eq, bind_assoc] at hok
  obtain ⟨s₁, h₁, hok⟩ := bind_eq_ok.mp hok
  simp only [ok_bind] at hok
  split at hok
  · cases hok
    exact h₁
  · split at hok
    · obtain ⟨r, -, hok⟩ := bind_eq_ok.mp hok
      cases hok
      exact h₁
    · cases hok
      exact h₁

/-- What the embedded controls keep, fetching a control character keeps. -/
theorem decodeControl_inv {t : Terminal} {datap : List UInt8} {s s' : Screen} {tok : VT100TCC}
    {n : Nat} {P : Screen → Prop} (hstep : ∀ s b s', P s → control t s b = .ok s' → P s')
    (h : P s) (hok : decodeControl t datap s = .ok (tok, n, s')) : P s' := by
  by_cases hcsi : isCSI datap = true
  · rw [decodeControl_csi hcsi] at hok
    exact foldlM_inv hstep h (decodeCsi_screen hok)
  · rw [decodeControl_plain hcsi] at hok
    cases hok
    exact h

/-! ## Modes and attributes -/

theorem Terminal.setCharAttrFrom_sameStream {csi : CSIParam} {k : Nat} {i : Int}
    {t t' : Terminal} (hok : setCharAttrFrom csi k i t = .ok t') : SameStream t t' :=
  setCharAttrFrom_inv (P := SameStream t) (fun t₁ n h => h.trans (charAttr_sameStream n t₁))
    (fun _ h => h.trans ⟨rfl, rfl, rfl, rfl⟩) (fun _ h => h.trans ⟨rfl, rfl, rfl, rfl⟩) (.refl t) hok

namespace VT100

variable {v v' : VT100} {tok : VT100TCC}

theorem setCharAttr_sameStream (hok : v.setCharAttr tok = .ok v') :
    v.terminal.SameStream v'.terminal := by
  obtain ⟨t, ht, hok⟩ := bind_eq_ok.mp hok
  cases hok
  unfold Terminal.setCharAttr at ht
  split at ht
  · split at ht
    · cases ht
      exact ⟨rfl, rfl, rfl, rfl⟩
    · exact Terminal.setCharAttrFrom_sameStream ht
  · cases ht
    exact .refl _

theorem setCharAttr_screen (hok : v.setCharAttr tok = .ok v') : v'.screen = v.screen := by
  obtain ⟨t, ht, hok⟩ := bind_eq_ok.mp hok
  cases hok
  rfl

theorem advance_screen {n : Nat} (hok : v.advance n = .ok v') : v'.screen = v.screen := by
  unfold advance at hok
  split at hok
  · obtain ⟨u, -, hok⟩ := bind_eq_ok.mp hok
    cases hok
    rfl
  · cases hok
    rfl

theorem setPrivateMode_sameStream {p : Int} {mode : Bool}
    (hok : v.setPrivateMode p mode = .ok v') : v.terminal.SameStream v'.terminal := by
  unfold setPrivateMode at hok
  simp only at hok
  split at hok
  case h_6 =>
    obtain ⟨s, -, hok⟩ := bind_eq_ok.mp hok
    cases hok
    exact ⟨rfl, rfl, rfl, rfl⟩
  case h_12 =>
    obtain ⟨s, -, hok⟩ := bind_eq_ok.mp hok
    cases hok
    exact .refl _
  all_goals
    cases hok
    exact ⟨rfl, rfl, rfl, rfl⟩

theorem setMode_sameStream (hok : v.setMode tok = .ok v') :
    v.terminal.SameStream v'.terminal := by
  unfold setMode at hok
  simp only at hok
  split at hok
  · exact setPrivateMode_sameStream hok
  · exact setPrivateMode_sameStream hok
  all_goals
    cases hok
    first
      | exact ⟨rfl, rfl, rfl, rfl⟩
      | (split <;> exact ⟨rfl, rfl, rfl, rfl⟩)

/-- The two tokens that save and restore the buffer. -/
def swapsBuffer (tok : VT100TCC) : Prop :=
  (tok.type = .decset ∨ tok.type = .decrst) ∧ tok.csi.p.cell 0 = 47

theorem setPrivateMode_draws {p : Int} {mode : Bool} (hp : p ≠ 47)
    (hok : v.setPrivateMode p mode = .ok v') : v.screen.Draws v'.screen := by
  unfold setPrivateMode at hok
  simp only at hok
  split at hok
  case h_6 =>
    obtain ⟨s, hs, hok⟩ := bind_eq_ok.mp hok
    cases hok
    exact Screen.setDirty_draws hs
  case h_12 => exact absurd rfl hp
  all_goals
    cases hok
    exact .refl _

theorem setMode_screen (hok : v.setMode tok = .ok v') :
    ∃ temp, Screen.Draws { v.screen with tempBuffer := temp } v'.screen := by
  have hprivate : ∀ p mode, v.setPrivateMode p mode = .ok v' →
      ∃ temp, Screen.Draws { v.screen with tempBuffer := temp } v'.screen := by
    intro p mode hok
    by_cases hp : p = 47
    · subst hp
      obtain ⟨s, hs, hok⟩ := bind_eq_ok.mp hok
      cases hok
      split at hs
      · obtain ⟨temp, rfl⟩ := Screen.saveBuffer_eq hs
        exact ⟨some temp, .refl _⟩
      · exact ⟨none, Screen.restoreBuffer_draws hs⟩
    · exact ⟨_, setPrivateMode_draws hp hok⟩
  unfold setMode at hok
  simp only at hok
  split at hok
  · exact hprivate _ _ hok
  · exact hprivate _ _ hok
  all_goals
    cases hok
    refine ⟨v.screen.tempBuffer, ?_⟩
    first
      | exact .refl _
      | (split <;> exact .refl _)

theorem setMode_draws (htok : ¬swapsBuffer tok) (hok : v.setMode tok = .ok v') :
    v.screen.Draws v'.screen := by
  unfold setMode at hok
  simp only at hok
  split at hok
  · rename_i htype
    exact setPrivateMode_draws (fun hp => htok ⟨Or.inl htype, hp⟩) hok
  · rename_i htype
    exact setPrivateMode_draws (fun hp => htok ⟨Or.inr htype, hp⟩) hok
  all_goals
    cases hok
    first
      | exact .refl _
      | (split <;> exact .refl _)

end VT100

end MobileTerminal
