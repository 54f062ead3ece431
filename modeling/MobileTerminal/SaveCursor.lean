import MobileTerminal.LastSize
import MobileTerminal.TokenParams
import MobileTerminal.Sequence

/-!
# Saving and restoring the cursor

`DECSC` saves the drawing state in two places: the attributes and the active
charset in the terminal, the cursor and the four designations in the screen. No
other token touches what is saved (`step_saved`), so `DECRC` brings it back
after any run without another `DECSC` and without a resize (`path_saved`).

The colours themselves, `FG_COLORCODE` and `BG_COLORCODE`, are not among what is
saved. So the codes of the next printed character are as they were exactly when
the colours have not changed in the meantime (`restores_iff`). "Not changed" is
weaker than equal: the code of a bold or highlighted character makes one of the
first eight colours bright, so a bright colour draws the same as a plain one
that the attributes brighten. `shade` is the colour as it is drawn, and
`SameColours` compares shades.

A code is a sum of type `int`, a shade and the masks of the attributes, and the
sum may wrap around. Equal codes still come from equal shades as long as these
are of type `int` themselves (`cint_add_inj`), which is what `reachable_colours`
is for.
-/

namespace MobileTerminal

variable {F : Foundation}

namespace Terminal

variable {t t' : Terminal}

/-! ## What is saved -/

/-- The part of the drawing state that the terminal saves. -/
structure Drawing where
  bold : Int
  under : Int
  blink : Int
  reversed : Int
  highlight : Int
  charset : Int

def drawing (t : Terminal) : Drawing where
  bold := t.bold
  under := t.under
  blink := t.blink
  reversed := t.reversed
  highlight := t.highlight
  charset := t.charset

def saved (t : Terminal) : Drawing where
  bold := t.saveBold
  under := t.saveUnder
  blink := t.saveBlink
  reversed := t.saveReversed
  highlight := t.saveHighlight
  charset := t.saveCharset

theorem saved_ite {p : Prop} [Decidable p] {d : Drawing} (h : t.saved = d) (h' : t'.saved = d) :
    (if p then t else t').saved = d := by
  split
  · exact h
  · exact h'

theorem charAttr_saved (n : Int) (t : Terminal) : (t.charAttr n).saved = t.saved := by
  unfold charAttr
  repeat' apply saved_ite
  all_goals rfl

theorem setCharAttrFrom_saved {csi : CSIParam} {k : Nat} {i : Int}
    (hok : setCharAttrFrom csi k i t = .ok t') : t'.saved = t.saved :=
  setCharAttrFrom_inv (P := fun t' => t'.saved = t.saved)
    (fun t₁ n h => (charAttr_saved n t₁).trans h) (fun _ h => h) (fun _ h => h) rfl hok

theorem setCharAttr_saved {tok : VT100TCC} (hok : t.setCharAttr tok = .ok t') :
    t'.saved = t.saved := by
  unfold setCharAttr at hok
  split at hok
  · split at hok
    · cases hok
      rfl
    · exact setCharAttrFrom_saved hok
  · cases hok
    rfl

theorem emptyStream_saved (t : Terminal) : t.emptyStream.saved = t.saved := by
  obtain ⟨stream, len, total, off, h⟩ := emptyStream_sameModes t
  rw [h]
  rfl

/-! ## Colour codes

`shade` and `attrCode` are the two summands of a code: how the colour is drawn,
and the masks of the attributes. -/

/-- What is known of the colours in every reachable state: both are of type `int`, and the
attribute that brightens them is a flag, in the saved copy as well. -/
structure ColoursOk (t : Terminal) : Prop where
  fg : IsInt t.fgColorcode
  bg : IsInt t.bgColorcode
  bold : t.bold = 0 ∨ t.bold = 1
  saveBold : t.saveBold = 0 ∨ t.saveBold = 1

/-- A colour as it is drawn: one of the first eight is bright when it is highlighted or
bold. -/
def shade (t : Terminal) (colour : Int) : Int :=
  if colour.tmod 256 > 7 then colour
  else colour + (if t.highlight ≠ 0 then 1 else t.bold) * 8

/-- The attributes in a colour code. -/
def attrCode (t : Terminal) : Int := t.bold * boldMask + t.under * underMask + t.blink * blinkMask

theorem foregroundColorCode_eq (t : Terminal) : t.foregroundColorCode =
    cint ((if t.reversed ≠ 0 then t.bgColorcode else t.shade t.fgColorcode) + t.attrCode) := by
  unfold foregroundColorCode shade attrCode
  simp only
  split
  · rfl
  · rfl

theorem ColoursOk.ite {p : Prop} [Decidable p] (h : p → t.ColoursOk) (h' : t'.ColoursOk) :
    (if p then t else t').ColoursOk := by
  split
  · exact h ‹_›
  · exact h'

theorem isInt_sub {n a b : Int} (ha : 0 ≤ a ∧ b ≤ 107) (h : a ≤ n ∧ n ≤ b) : IsInt (n - a) := by
  unfold IsInt
  omega

theorem fgColorCodeDefault_isInt : IsInt fgColorCodeDefault := ⟨by decide, by decide⟩

theorem bgColorCodeDefault_isInt : IsInt bgColorCodeDefault := ⟨by decide, by decide⟩

theorem allOff_colours (h : t.ColoursOk) : t.allOff.ColoursOk :=
  { h with fg := fgColorCodeDefault_isInt, bg := bgColorCodeDefault_isInt, bold := Or.inl rfl }

theorem charAttr_colours (h : t.ColoursOk) (n : Int) : (t.charAttr n).ColoursOk := by
  unfold charAttr
  repeat' refine ColoursOk.ite (fun hn => ?_) ?_
  all_goals first
    | exact allOff_colours h
    | exact { h with }
    | exact { h with bold := Or.inl rfl }
    | exact { h with bold := Or.inr rfl }
    | exact { h with fg := fgColorCodeDefault_isInt }
    | exact { h with bg := bgColorCodeDefault_isInt }
    | exact { h with fg := isInt_sub (by decide) hn }
    | exact { h with bg := isInt_sub (by decide) hn }

theorem setCharAttrFrom_colours {csi : CSIParam} (hints : ∀ i, IsInt (csi.p.cell i)) {k : Nat}
    {i : Int} (h : t.ColoursOk) (hok : setCharAttrFrom csi k i t = .ok t') : t'.ColoursOk :=
  setCharAttrFrom_inv (fun _ n h => charAttr_colours h n) (fun _ h => { h with fg := hints 2 })
    (fun _ h => { h with bg := hints 2 }) h hok

theorem setCharAttr_colours {tok : VT100TCC}
    (hints : tok.type = .sgr → ∀ i, IsInt (tok.csi.p.cell i)) (h : t.ColoursOk)
    (hok : t.setCharAttr tok = .ok t') : t'.ColoursOk := by
  unfold setCharAttr at hok
  split at hok
  · rename_i hsgr
    split at hok
    · cases hok
      exact allOff_colours h
    · exact setCharAttrFrom_colours (hints hsgr) h hok
  · cases hok
    exact h

end Terminal

namespace Screen

variable {s s' : Screen}

/-- The part of the drawing state that the screen saves. -/
def savedCursor (s : Screen) : Int × Int × Block Bool :=
  (s.saveCursorX, s.saveCursorY, s.saveCharset)

theorem Keeps.savedCursor_eq (h : Keeps s s') : s'.savedCursor = s.savedCursor := by
  obtain ⟨hx, hy, hc⟩ := h.saved_eq
  rw [savedCursor, hx, hy, hc]
  rfl

theorem decodeControl_savedCursor {t : Terminal} {datap : List UInt8} {tok : VT100TCC} {n : Nat}
    (hok : decodeControl t datap s = .ok (tok, n, s')) : s'.savedCursor = s.savedCursor :=
  decodeControl_inv (P := fun s' => s'.savedCursor = s.savedCursor)
    (fun _ _ _ hs hstep => (control_keeps hstep).savedCursor_eq.trans hs) rfl hok

end Screen

namespace VT100

variable {v v' : VT100} {tok : VT100TCC}

/-! ## Modes -/

/-- Modes leave the attributes alone. -/
def SameAttrs (t t' : Terminal) : Prop :=
  t'.saved = t.saved ∧ t'.fgColorcode = t.fgColorcode ∧ t'.bgColorcode = t.bgColorcode ∧
    t'.bold = t.bold

theorem setPrivateMode_attrs {p : Int} {mode : Bool} (hok : v.setPrivateMode p mode = .ok v') :
    SameAttrs v.terminal v'.terminal := by
  unfold setPrivateMode at hok
  simp only at hok
  split at hok
  case h_6 =>
    obtain ⟨s, -, hok⟩ := bind_eq_ok.mp hok
    cases hok
    exact ⟨rfl, rfl, rfl, rfl⟩
  case h_12 =>
    obtain ⟨s, -, hok⟩ := bind_eq_ok.mp hok
    cases hok
    exact ⟨rfl, rfl, rfl, rfl⟩
  all_goals
    cases hok
    exact ⟨rfl, rfl, rfl, rfl⟩

theorem setMode_attrs (hok : v.setMode tok = .ok v') :
    tok.type = .decsc ∧ v' = { v with terminal := { v.terminal with
      saveBold := v.terminal.bold, saveUnder := v.terminal.under, saveBlink := v.terminal.blink
      saveReversed := v.terminal.reversed, saveHighlight := v.terminal.highlight
      saveCharset := v.terminal.charset } } ∨
    tok.type = .decrc ∧ v' = { v with terminal := { v.terminal with
      bold := v.terminal.saveBold, under := v.terminal.saveUnder, blink := v.terminal.saveBlink
      reversed := v.terminal.saveReversed, highlight := v.terminal.saveHighlight
      charset := v.terminal.saveCharset } } ∨
    tok.type ≠ .decsc ∧ tok.type ≠ .decrc ∧ SameAttrs v.terminal v'.terminal := by
  unfold setMode at hok
  simp only at hok
  split at hok
  case h_11 htype =>
    cases hok
    exact Or.inr (Or.inl ⟨htype, rfl⟩)
  case h_12 htype =>
    cases hok
    exact Or.inl ⟨htype, rfl⟩
  case h_13 hsave hrestore =>
    cases hok
    exact Or.inr (Or.inr ⟨hrestore, hsave, rfl, rfl, rfl, rfl⟩)
  all_goals
    rename_i htype
    refine Or.inr (Or.inr ⟨by rw [htype]; simp, by rw [htype]; simp, ?_⟩)
    first
      | exact setPrivateMode_attrs hok
      | (cases hok; exact ⟨rfl, rfl, rfl, rfl⟩)
      | (cases hok; split <;> exact ⟨rfl, rfl, rfl, rfl⟩)

/-! ## A run between saving and restoring

What `DECSC` saves is kept by every other step, whatever it does to the drawing
state itself. The steps are those of the object: a call that brings bytes, a
fetch, a token that is executed. -/

/-- Everything `DECSC` saves. -/
def savedState (v : VT100) : Terminal.Drawing × Int × Int × Block Bool :=
  (v.terminal.saved, v.screen.savedCursor)

theorem savedState_eq (ht : v'.terminal.saved = v.terminal.saved)
    (hs : v'.screen.savedCursor = v.screen.savedCursor) : v'.savedState = v.savedState :=
  Prod.ext ht hs

theorem advance_attrs {n : Nat} (hok : v.advance n = .ok v') :
    SameAttrs v.terminal v'.terminal := by
  unfold advance at hok
  split at hok
  · obtain ⟨u, -, hok⟩ := bind_eq_ok.mp hok
    cases hok
    exact ⟨rfl, rfl, rfl, rfl⟩
  · cases hok
    exact ⟨rfl, rfl, rfl, rfl⟩

theorem setMode_saved (htok : tok.type ≠ .decsc) (hok : v.setMode tok = .ok v') :
    v'.terminal.saved = v.terminal.saved := by
  obtain ⟨h, -⟩ | ⟨-, rfl⟩ | ⟨-, -, h⟩ := setMode_attrs hok
  · exact absurd h htok
  · rfl
  · exact h.1

theorem setMode_savedCursor (hok : v.setMode tok = .ok v') :
    v'.screen.savedCursor = v.screen.savedCursor := by
  obtain ⟨temp, hd⟩ := setMode_screen hok
  exact hd.keeps.savedCursor_eq

theorem setCharAttr_saved (hok : v.setCharAttr tok = .ok v') :
    v'.terminal.saved = v.terminal.saved := by
  obtain ⟨t, ht, hok⟩ := bind_eq_ok.mp hok
  cases hok
  exact Terminal.setCharAttr_saved ht

theorem getNextToken_saved (htok : tok.type ≠ .decsc) (hok : v.getNextToken F = .ok (tok, v')) :
    v'.savedState = v.savedState := by
  cases getNextToken_fetches hok with
  | empty hp => exact savedState_eq (Terminal.emptyStream_saved _) rfl
  | text hp htext h₁ => exact savedState_eq (advance_attrs h₁).1 (by rw [advance_screen h₁])
  | control hp hb hdecode hmode hattr h₁ =>
      refine savedState_eq ?_ ?_
      · rw [(advance_attrs h₁).1, setCharAttr_saved hattr, setMode_saved htok hmode]
      · rw [advance_screen h₁, setCharAttr_screen hattr, setMode_savedCursor hmode]
        exact Screen.decodeControl_savedCursor hdecode
  | undecoded hp hb hdecode hwait h₁ =>
      exact savedState_eq (advance_attrs h₁).1 (by rw [advance_screen h₁]; rfl)
  | string hp hb hdecode hwait h₁ =>
      exact savedState_eq (advance_attrs h₁).1 (by rw [advance_screen h₁]; rfl)
  | unknown hp hb h₁ => exact savedState_eq (advance_attrs h₁).1 (by rw [advance_screen h₁])

theorem processToken_saved (htok : tok.type ≠ .decsc) (hok : v.processToken F tok = .ok v') :
    v'.savedState = v.savedState := by
  unfold processToken at hok
  split at hok
  · cases hok
    rfl
  · obtain ⟨s, hs, hok⟩ := bind_eq_ok.mp hok
    cases hok
    refine savedState_eq ?_ (Screen.putToken_keeps htok hs).savedCursor_eq
    exact Terminal.saved_ite rfl rfl

theorem putStreamData_attrs {data : List UInt8} (hok : v.putStreamData data = .ok v') :
    SameAttrs v.terminal v'.terminal ∧ v'.screen = v.screen := by
  obtain ⟨t, ht, hok⟩ := bind_eq_ok.mp hok
  cases hok
  obtain ⟨stream, -, ht⟩ := bind_eq_ok.mp ht
  cases ht
  refine ⟨?_, rfl⟩
  unfold Terminal.reserve
  split <;> exact ⟨rfl, rfl, rfl, rfl⟩

/-- Neither `DECSC` nor a resize. -/
def NoSave (F : Foundation) (c : Config) : Event → Prop
  | .next => ∀ tok v', c.2.getNextToken F = .ok (tok, v') → tok.type ≠ .decsc
  | .setScreenSize _ _ => False
  | _ => True

/-- What is saved is `saved`, and no `DECSC` is about to be executed. -/
structure Keeping (saved : Terminal.Drawing × Int × Int × Block Bool) (c : Config) : Prop where
  saved_eq : c.2.savedState = saved
  deliver : ∀ tok, c.1 = .deliver tok → tok.type ≠ .decsc

theorem Keeping.reading {saved : Terminal.Drawing × Int × Int × Block Bool}
    (h : v.savedState = saved) : Keeping saved (.reading, v) :=
  ⟨h, fun _ heq => Phase.noConfusion heq⟩

theorem Keeping.idle {saved : Terminal.Drawing × Int × Int × Block Bool}
    (h : v.savedState = saved) : Keeping saved (.idle, v) :=
  ⟨h, fun _ heq => Phase.noConfusion heq⟩

theorem step_saved {saved : Terminal.Drawing × Int × Int × Block Bool} {c c' : Config} {e : Event}
    (h : Keeping saved c) (hguard : NoSave F c e) (hstep : Step F c e c') : Keeping saved c' := by
  cases hstep with
  | put hok =>
      obtain ⟨hattrs, hscreen⟩ := putStreamData_attrs hok
      exact .reading ((savedState_eq hattrs.1 (by rw [hscreen])).trans h.saved_eq)
  | token hok hs =>
      have htok := hguard _ _ hok
      refine ⟨(getNextToken_saved htok hok).trans h.saved_eq, fun tok heq => ?_⟩
      cases heq
      exact htok
  | stop hok hs hr =>
      have htok := hguard _ _ hok
      obtain ⟨s, hs, hr⟩ := bind_eq_ok.mp hr
      cases hr
      have hdraw := (Screen.refresh_draws hs).keeps.savedCursor_eq
      refine .idle (Eq.trans ?_ ((getNextToken_saved htok hok).trans h.saved_eq))
      exact savedState_eq rfl hdraw
  | exec hok => exact .reading ((processToken_saved (h.deliver _ rfl) hok).trans h.saved_eq)
  | setScreenSize hok => exact hguard.elim
  | clearScreen hok =>
      obtain ⟨s, hs, hok⟩ := bind_eq_ok.mp hok
      cases hok
      have hkeeps := (Screen.clearBuffer_keeps hs).savedCursor_eq
      refine .idle (Eq.trans ?_ h.saved_eq)
      exact savedState_eq rfl hkeeps

theorem path_saved {saved : Terminal.Drawing × Int × Int × Block Bool} {c c' : Config}
    (hp : Path (Step F) (NoSave F) c c') (h : Keeping saved c) : Keeping saved c' := by
  induction hp with
  | refl => exact h
  | step hstep hguard _ ih => exact ih (step_saved h hguard hstep)

theorem reachable_noSave {c c' : Config} (hr : Reachable F c)
    (hp : Path (Step F) (NoSave F) c c') : Reachable F c' := by
  induction hp with
  | refl => exact hr
  | @step _ _ _ e hstep hguard _ ih =>
      refine ih (.step hr hstep ?_)
      cases e with
      | setScreenSize w h => exact hguard.elim
      | _ => exact trivial

/-! ## The colours of reachable states -/

theorem SameAttrs.colours {t t' : Terminal} (h : SameAttrs t t') (ht : t.ColoursOk) :
    t'.ColoursOk := by
  obtain ⟨hsaved, hfg, hbg, hbold⟩ := h
  have hsave : t'.saveBold = t.saveBold := congrArg Terminal.Drawing.bold hsaved
  refine ⟨?_, ?_, ?_, ?_⟩
  · rw [hfg]
    exact ht.fg
  · rw [hbg]
    exact ht.bg
  · rw [hbold]
    exact ht.bold
  · rw [hsave]
    exact ht.saveBold

theorem setMode_colours (h : v.terminal.ColoursOk) (hok : v.setMode tok = .ok v') :
    v'.terminal.ColoursOk := by
  obtain ⟨-, rfl⟩ | ⟨-, rfl⟩ | ⟨-, -, hsame⟩ := setMode_attrs hok
  · exact { h with saveBold := h.bold }
  · exact { h with bold := h.saveBold }
  · exact hsame.colours h

theorem decodeControl_ints {t : Terminal} {datap : List UInt8} {s s' : Screen} {n : Nat}
    (hok : decodeControl t datap s = .ok (tok, n, s')) (hsgr : tok.type = .sgr) (i : Int) :
    IsInt (tok.csi.p.cell i) := by
  by_cases hcsi : isCSI datap = true
  · rw [decodeControl_csi hcsi] at hok
    obtain rfl | hseq | ⟨rfl, -⟩ := decodeCsi_cases hok
    · cases hsgr
    · exact hseq.attrs hsgr i
    · cases hsgr
  · rw [decodeControl_plain hcsi] at hok
    cases hok
    rw [decodePlain_csi]
    exact zero_isInt

theorem emptyStream_attrs (t : Terminal) : SameAttrs t t.emptyStream := by
  obtain ⟨stream, len, total, off, h⟩ := Terminal.emptyStream_sameModes t
  rw [h]
  exact ⟨rfl, rfl, rfl, rfl⟩

theorem getNextToken_colours (h : v.terminal.ColoursOk)
    (hok : v.getNextToken F = .ok (tok, v')) : v'.terminal.ColoursOk := by
  cases getNextToken_fetches hok with
  | empty hp => exact (emptyStream_attrs _).colours h
  | text hp htext h₁ => exact (advance_attrs h₁).colours h
  | @control v₁ v₂ _ _ n s _ _ hp hb hdecode hmode hattr h₁ =>
      obtain ⟨t, ht, hattr⟩ := bind_eq_ok.mp hattr
      cases hattr
      have hs := setMode_colours (v := { v with screen := s }) h hmode
      exact (advance_attrs h₁).colours
        (Terminal.setCharAttr_colours (decodeControl_ints hdecode) hs ht)
  | undecoded hp hb hdecode hwait h₁ =>
      exact (advance_attrs h₁).colours { h with }
  | string hp hb hdecode hwait h₁ => exact (advance_attrs h₁).colours { h with }
  | unknown hp hb h₁ => exact (advance_attrs h₁).colours h

theorem step_colours {c c' : Config} {e : Event} (h : c.2.terminal.ColoursOk)
    (hstep : Step F c e c') : c'.2.terminal.ColoursOk := by
  cases hstep with
  | put hok => exact (putStreamData_attrs hok).1.colours h
  | token hok hs => exact getNextToken_colours h hok
  | stop hok hs hr =>
      obtain ⟨s, hs, hr⟩ := bind_eq_ok.mp hr
      cases hr
      have h₁ := getNextToken_colours h hok
      exact h₁
  | exec hok =>
      unfold processToken at hok
      split at hok
      · cases hok
        exact h
      · obtain ⟨s, hs, hok⟩ := bind_eq_ok.mp hok
        cases hok
        exact Terminal.ColoursOk.ite (fun _ => { h with }) h
  | setScreenSize hok =>
      obtain ⟨s, hs, hok⟩ := bind_eq_ok.mp hok
      cases hok
      exact h
  | clearScreen hok =>
      obtain ⟨s, hs, hok⟩ := bind_eq_ok.mp hok
      cases hok
      exact h

theorem reachable_colours {c : Config} (hr : Reachable F c) : c.2.terminal.ColoursOk := by
  refine Reach.invariant (I := fun c => c.2.terminal.ColoursOk) ?_ ?_ hr
  · rintro _ ⟨fresh, v, hinit, rfl⟩
    obtain ⟨v', hv', hterm, -⟩ := init_fresh fresh
    obtain rfl : v' = v := Except.ok.inj (hv'.symm.trans hinit)
    rw [hterm]
    exact ⟨Terminal.fgColorCodeDefault_isInt, Terminal.bgColorCodeDefault_isInt, Or.inl rfl,
      Or.inl rfl⟩
  · intro c e c' h _ hstep
    exact step_colours h hstep

/-! ## Saving and restoring -/

theorem advance_sameModes {n : Nat} (hok : v.advance n = .ok v') :
    v.terminal.SameModes v'.terminal := by
  unfold advance at hok
  split at hok
  · obtain ⟨u, -, hok⟩ := bind_eq_ok.mp hok
    cases hok
    exact ⟨_, _, _, _, rfl⟩
  · cases hok
    exact .refl _

/-- `ESC 7` and `ESC 8` execute nothing on the screen while they are fetched. -/
theorem getNextToken_escape (htok : tok.type = .decsc ∨ tok.type = .decrc)
    (hok : v.getNextToken F = .ok (tok, v')) :
    ∃ v₁, v.setMode tok = .ok v₁ ∧ v'.screen = v₁.screen ∧
      v₁.terminal.SameModes v'.terminal := by
  have hplain : tok.type.isPlain = false := by
    rcases htok with htok | htok <;> rw [htok] <;> rfl
  have hnot : ¬tok.type = .sgr := by
    rcases htok with htok | htok <;> rw [htok] <;> simp
  obtain ⟨n, s, v₁, v₂, hdecode, hmode, hattr, hadvance⟩ := getNextToken_of_control hplain hok
  have hscreen : s = v.screen := by
    by_cases hcsi : isCSI v.terminal.pending = true
    · rw [decodeControl_csi hcsi] at hdecode
      obtain rfl | hseq | ⟨rfl, -⟩ := decodeCsi_cases hdecode
      · simp at htok
      · exact absurd htok (fun h => h.elim hseq.not_save hseq.not_restore)
      · simp at htok
    · rw [decodeControl_plain hcsi] at hdecode
      cases hdecode
      rfl
  subst hscreen
  have hv₂ : v₂ = v₁ := by
    simp only [VT100.setCharAttr, Terminal.setCharAttr, if_neg hnot, ok_bind] at hattr
    exact (Except.ok.inj hattr).symm
  subst hv₂
  exact ⟨v₂, hmode, advance_screen hadvance, advance_sameModes hadvance⟩

/-- What `DECRC` is to bring back. -/
structure DrawsAlike (v v' : VT100) : Prop where
  cursorX : v'.screen.cursorX = v.screen.cursorX
  cursorY : v'.screen.cursorY = v.screen.cursorY
  charsets : v'.screen.charset = v.screen.charset
  charset : v'.terminal.charset = v.terminal.charset
  foreground : v'.terminal.foregroundColorCode = v.terminal.foregroundColorCode
  background : v'.terminal.backgroundColorCode = v.terminal.backgroundColorCode

/-- The colours of `t'` are those of `t`. A bright colour may stand for the one of the
first eight that the attributes of `t` make bright. -/
def SameColours (t t' : Terminal) : Prop :=
  t'.bgColorcode = t.bgColorcode ∧
    (t'.fgColorcode = t.fgColorcode ∨
      t.reversed = 0 ∧ t.shade t'.fgColorcode = t.shade t.fgColorcode)

/-- The cursor is in a cell of the screen. -/
def CursorOnScreen (s : Screen) : Prop :=
  0 ≤ s.cursorX ∧ s.cursorX < s.width ∧ 0 ≤ s.cursorY ∧ s.cursorY < s.height

theorem getNextToken_decsc (htok : tok.type = .decsc) (hok : v.getNextToken F = .ok (tok, v')) :
    v'.screen = v.screen ∧ v'.terminal.saved = v.terminal.drawing := by
  obtain ⟨v₁, hmode, hscreen, hmodes⟩ := getNextToken_escape (Or.inl htok) hok
  obtain ⟨-, rfl⟩ | ⟨h, -⟩ | ⟨h, -⟩ := setMode_attrs hmode
  · obtain ⟨stream, len, total, off, hterm⟩ := hmodes
    refine ⟨hscreen, ?_⟩
    rw [hterm]
    rfl
  · rw [htok] at h
    cases h
  · exact absurd htok h

theorem getNextToken_decrc (htok : tok.type = .decrc) (hok : v.getNextToken F = .ok (tok, v')) :
    v'.screen = v.screen ∧ v'.terminal.drawing = v.terminal.saved ∧
      v'.terminal.fgColorcode = v.terminal.fgColorcode ∧
      v'.terminal.bgColorcode = v.terminal.bgColorcode := by
  obtain ⟨v₁, hmode, hscreen, hmodes⟩ := getNextToken_escape (Or.inr htok) hok
  obtain ⟨h, -⟩ | ⟨-, rfl⟩ | ⟨-, h, -⟩ := setMode_attrs hmode
  · rw [htok] at h
    cases h
  · obtain ⟨stream, len, total, off, hterm⟩ := hmodes
    refine ⟨hscreen, ?_⟩
    rw [hterm]
    exact ⟨rfl, rfl, rfl⟩
  · exact absurd htok h

theorem processToken_decsc (htok : tok.type = .decsc) (hon : CursorOnScreen v.screen)
    (hok : v.processToken F tok = .ok v') : v'.terminal = v.terminal ∧
      v'.screen.savedCursor = (v.screen.cursorX, v.screen.cursorY, v.screen.charset) := by
  obtain ⟨hx, hx', hy, hy'⟩ := hon
  rw [processToken, if_neg (by rw [htok]; simp)] at hok
  obtain ⟨s, hs, hok⟩ := bind_eq_ok.mp hok
  obtain ⟨s₁, h₁, hs⟩ := bind_eq_ok.mp hs
  simp only [Screen.dispatch, htok] at h₁
  cases h₁
  have hsaved : (Screen.saveCursorPosition v.screen).savedCursor =
      (v.screen.cursorX, v.screen.cursorY, v.screen.charset) := by
    simp only [Screen.saveCursorPosition, Screen.savedCursor, if_neg (Int.not_lt.mpr hx),
      if_neg (Int.not_lt.mpr hy), if_neg (Int.not_le.mpr hx'), if_neg (Int.not_le.mpr hy')]
  have hs' : s.savedCursor = (v.screen.cursorX, v.screen.cursorY, v.screen.charset) := by
    cases hs
    split
    · exact hsaved
    · exact hsaved
  cases hok
  exact ⟨if_neg (by rw [htok]; simp), hs'⟩

theorem processToken_decrc (htok : tok.type = .decrc) (hok : v.processToken F tok = .ok v') :
    v'.terminal = v.terminal ∧
      (v'.screen.cursorX, v'.screen.cursorY, v'.screen.charset) = v.screen.savedCursor := by
  rw [processToken, if_neg (by rw [htok]; simp)] at hok
  obtain ⟨s, hs, hok⟩ := bind_eq_ok.mp hok
  obtain ⟨s₁, h₁, hs⟩ := bind_eq_ok.mp hs
  simp only [Screen.dispatch, htok] at h₁
  obtain ⟨u, -, h₁⟩ := bind_eq_ok.mp h₁
  obtain ⟨u', -, h₁⟩ := bind_eq_ok.mp h₁
  cases h₁
  have hs' : (s.cursorX, s.cursorY, s.charset) = v.screen.savedCursor := by
    cases hs
    split
    · rfl
    · rfl
  cases hok
  exact ⟨if_neg (by rw [htok]; simp), hs'⟩

/-- Sums that wrap around to the same number had the same numbers in them. -/
theorem cint_add_inj {a b k : Int} (ha : IsInt a) (hb : IsInt b) (h : cint (a + k) = cint (b + k)) :
    a = b := by
  unfold IsInt at ha hb
  unfold cint at h
  omega

theorem shade_isInt {t : Terminal} {colour : Int} (hbold : t.bold = 0 ∨ t.bold = 1)
    (hc : IsInt colour) : IsInt (t.shade colour) := by
  have htmod : colour.tmod 256 ≤ 7 → colour + 8 < 2 ^ 31 := by
    unfold IsInt at hc
    intro h
    by_cases hneg : 0 ≤ colour
    · rw [Int.tmod_eq_emod_of_nonneg hneg] at h
      omega
    · omega
  unfold IsInt at *
  unfold Terminal.shade
  split
  · exact hc
  · split <;> omega

theorem sameColours_iff {t t' t'' : Terminal} (ht : t.ColoursOk) (ht' : t'.ColoursOk)
    (hattrs : t''.drawing = t.drawing) (hfg : t''.fgColorcode = t'.fgColorcode)
    (hbg : t''.bgColorcode = t'.bgColorcode) :
    t''.foregroundColorCode = t.foregroundColorCode ∧
      t''.backgroundColorCode = t.backgroundColorCode ↔ SameColours t t' := by
  have hrev : t''.reversed = t.reversed := congrArg Terminal.Drawing.reversed hattrs
  have hcode : t''.attrCode = t.attrCode := by
    have hb : t''.bold = t.bold := congrArg Terminal.Drawing.bold hattrs
    have hu : t''.under = t.under := congrArg Terminal.Drawing.under hattrs
    have hl : t''.blink = t.blink := congrArg Terminal.Drawing.blink hattrs
    rw [Terminal.attrCode, hb, hu, hl]
    rfl
  have hshade : t''.shade t''.fgColorcode = t.shade t'.fgColorcode := by
    have hb : t''.bold = t.bold := congrArg Terminal.Drawing.bold hattrs
    have hh : t''.highlight = t.highlight := congrArg Terminal.Drawing.highlight hattrs
    rw [hfg, Terminal.shade, hb, hh]
    rfl
  rw [Terminal.foregroundColorCode_eq, Terminal.foregroundColorCode_eq,
    Terminal.backgroundColorCode, Terminal.backgroundColorCode, hcode, hshade, hrev, hfg, hbg]
  by_cases hr : t.reversed = 0
  · simp only [hr, ne_eq, not_true_eq_false, if_false]
    constructor
    · rintro ⟨hfore, hback⟩
      refine ⟨hback, Or.inr ⟨hr, ?_⟩⟩
      exact cint_add_inj (shade_isInt ht.bold ht'.fg) (shade_isInt ht.bold ht.fg) hfore
    · rintro ⟨hback, hfore | ⟨-, hfore⟩⟩
      · exact ⟨by rw [hfore], hback⟩
      · exact ⟨by rw [hfore], hback⟩
  · simp only [ne_eq, hr, not_false_eq_true, if_true]
    constructor
    · rintro ⟨hfore, hback⟩
      exact ⟨cint_add_inj ht'.bg ht.bg hfore, Or.inl hback⟩
    · rintro ⟨hback, hfore | ⟨hzero, -⟩⟩
      · exact ⟨by rw [hback], hfore⟩
      · exact absurd hzero hr

section

variable {tok' : VT100TCC} {v₁ v₂ v₃ v₄ v₅ : VT100}

/-- Everything that is saved is brought back, and the colours are left. -/
theorem restored_state (hon : CursorOnScreen v.screen)
    (hfetch : v.getNextToken F = .ok (tok, v₁)) (htok : tok.type = .decsc)
    (hexec : v₁.processToken F tok = .ok v₂)
    (hp : Path (Step F) (NoSave F) (.reading, v₂) (.reading, v₃))
    (hfetch' : v₃.getNextToken F = .ok (tok', v₄)) (htok' : tok'.type = .decrc)
    (hexec' : v₄.processToken F tok' = .ok v₅) :
    v₅.terminal.drawing = v.terminal.drawing ∧
      (v₅.screen.cursorX, v₅.screen.cursorY, v₅.screen.charset) =
        (v.screen.cursorX, v.screen.cursorY, v.screen.charset) ∧
      v₅.terminal.fgColorcode = v₃.terminal.fgColorcode ∧
      v₅.terminal.bgColorcode = v₃.terminal.bgColorcode := by
  obtain ⟨hscreen₁, hsaved₁⟩ := getNextToken_decsc htok hfetch
  obtain ⟨hterm₂, hsaved₂⟩ := processToken_decsc htok (by rw [hscreen₁]; exact hon) hexec
  have hstate : v₃.savedState = (v.terminal.drawing, v.screen.cursorX, v.screen.cursorY,
      v.screen.charset) := by
    refine (path_saved hp (.reading ?_)).saved_eq
    rw [savedState, hterm₂, hsaved₁, hsaved₂, hscreen₁]
  obtain ⟨hscreen₄, hdrawing₄, hcolours₄⟩ := getNextToken_decrc htok' hfetch'
  obtain ⟨hterm₅, hcursor₅⟩ := processToken_decrc htok' hexec'
  refine ⟨?_, ?_, ?_⟩
  · rw [hterm₅, hdrawing₄]
    exact congrArg Prod.fst hstate
  · rw [hcursor₅, hscreen₄]
    exact congrArg Prod.snd hstate
  · rw [hterm₅]
    exact hcolours₄

theorem reachable_between (hr : Reachable F (.reading, v))
    (hfetch : v.getNextToken F = .ok (tok, v₁)) (htok : tok.type = .decsc)
    (hexec : v₁.processToken F tok = .ok v₂)
    (hp : Path (Step F) (NoSave F) (.reading, v₂) (.reading, v₃)) :
    Reachable F (.reading, v₃) := by
  have hstop : tok.stops = false := by simp [VT100TCC.stops, htok]
  have h₁ : Reachable F (.deliver tok, v₁) := .step hr (.token hfetch hstop) trivial
  have h₂ : Reachable F (.reading, v₂) := .step h₁ (e := .exec) (.exec hexec) trivial
  exact reachable_noSave h₂ hp

/-- `DECRC` brings back the drawing state of the `DECSC` before it exactly when the colours
are still the same. Anything may be read in between except another `DECSC`, as long as the
size is not set: attributes and modes may change, and the screen may scroll. -/
theorem restores_iff (hr : Reachable F (.reading, v)) (hon : CursorOnScreen v.screen)
    (hfetch : v.getNextToken F = .ok (tok, v₁)) (htok : tok.type = .decsc)
    (hexec : v₁.processToken F tok = .ok v₂)
    (hp : Path (Step F) (NoSave F) (.reading, v₂) (.reading, v₃))
    (hfetch' : v₃.getNextToken F = .ok (tok', v₄)) (htok' : tok'.type = .decrc)
    (hexec' : v₄.processToken F tok' = .ok v₅) :
    DrawsAlike v v₅ ↔ SameColours v.terminal v₃.terminal := by
  obtain ⟨hterm, hcursor, hfg, hbg⟩ := restored_state hon hfetch htok hexec hp hfetch' htok' hexec'
  have hreach₃ := reachable_between hr hfetch htok hexec hp
  rw [← sameColours_iff (reachable_colours hr) (reachable_colours hreach₃) hterm hfg hbg]
  constructor
  · intro h
    exact ⟨h.foreground, h.background⟩
  · rintro ⟨hfore, hback⟩
    have hc := Prod.ext_iff.mp (Prod.ext_iff.mp hcursor).2
    exact ⟨congrArg Prod.fst hcursor, hc.1, hc.2, congrArg Terminal.Drawing.charset hterm,
      hfore, hback⟩

end

/-! ## `ESC 7` and `ESC 8` on a new object -/

theorem processToken_decsc_total (F : Foundation) (tok : VT100TCC) (htok : tok.type = .decsc)
    (v : VT100) : ∃ v', v.processToken F tok = .ok v' := by
  rw [processToken, if_neg (by rw [htok]; simp), VT100.putToken, Screen.putToken]
  simp only [Screen.dispatch, htok, ok_bind]
  exact ⟨_, rfl⟩

theorem processToken_decrc_total (F : Foundation) (tok : VT100TCC) (htok : tok.type = .decrc)
    (hx : 0 ≤ v.screen.saveCursorX ∧ v.screen.saveCursorX < v.screen.width)
    (hy : 0 ≤ v.screen.saveCursorY ∧ v.screen.saveCursorY < v.screen.height) :
    ∃ v', v.processToken F tok = .ok v' := by
  rw [processToken, if_neg (by rw [htok]; simp), VT100.putToken, Screen.putToken]
  simp only [Screen.dispatch, htok, Screen.restoreCursorPosition, nsAssert_pos hx,
    nsAssert_pos hy, ok_bind]
  exact ⟨_, rfl⟩

/-- `ESC 7` saves the cursor; it leaves it and the colours. -/
theorem saves_next (F : Foundation) {bs : List UInt8} (h : v.Wf) (hon : CursorOnScreen v.screen)
    (hp : v.terminal.pending = 0x1b :: 0x37 :: bs) :
    ∃ v₁ v₂, v.getNextToken F = .ok ({ type := .decsc }, v₁) ∧
      v₁.processToken F { type := .decsc } = .ok v₂ ∧ v₂.Wf ∧ v₂.terminal.pending = bs ∧
      v₂.screen.savedCursor = (v.screen.cursorX, v.screen.cursorY, v.screen.charset) ∧
      v₂.screen.height = v.screen.height ∧
      v₂.terminal.fgColorcode = v.terminal.fgColorcode ∧
      v₂.terminal.bgColorcode = v.terminal.bgColorcode := by
  have hdecode : decodeControl v.terminal (0x1b :: 0x37 :: bs) v.screen =
      .ok ({ type := .decsc }, 2, v.screen) := rfl
  obtain ⟨v₁, hfetch, hwf₁, hpending₁, hscreen₁, hmodes₁⟩ := getNextToken_of_decode (F := F)
    h (by decide) hp hdecode (by simp) rfl rfl
  have hscreen₁ : v₁.screen = v.screen := hscreen₁
  obtain ⟨v₂, hexec⟩ := processToken_decsc_total F { type := .decsc } rfl v₁
  obtain ⟨hterm₂, hcursor₂⟩ := processToken_decsc rfl (by rw [hscreen₁]; exact hon) hexec
  have hsize₂ := processToken_size hexec
  rw [hscreen₁] at hcursor₂ hsize₂
  have hcolours : v₂.terminal.fgColorcode = v.terminal.fgColorcode ∧
      v₂.terminal.bgColorcode = v.terminal.bgColorcode := by
    obtain ⟨stream, len, total, off, heq⟩ := hmodes₁
    rw [hterm₂, heq]
    exact ⟨rfl, rfl⟩
  refine ⟨v₁, v₂, hfetch, hexec, processToken_wf hwf₁ hexec, ?_, hcursor₂,
    congrArg Prod.snd hsize₂, hcolours⟩
  rw [hterm₂, hpending₁]
  rfl

/-- A new object is given `ESC 7` and `rest`, and saves the cursor. -/
theorem init_saves (F : Foundation) (rest : List UInt8) : ∃ v v₁ v₂,
    Reachable F (.reading, v) ∧ CursorOnScreen v.screen ∧
    v.getNextToken F = .ok ({ type := .decsc }, v₁) ∧
    v₁.processToken F { type := .decsc } = .ok v₂ ∧ v₂.Wf ∧ v₂.terminal.pending = rest ∧
    v₂.screen.saveCursorY = 0 ∧ v₂.screen.height = kDefaultHeight ∧
    SameAttrs Terminal.init v.terminal := by
  obtain ⟨v₀, v, hinit, hput, hwf, hpending, hmodes, hs⟩ := init_put ⟨0, 0, 0⟩
    (0x1b :: 0x37 :: rest)
  obtain ⟨v₀', hinit', hterm, -⟩ := init_fresh ⟨0, 0, 0⟩
  obtain rfl : v₀' = v₀ := Except.ok.inj (hinit'.symm.trans hinit)
  have hreach : Reachable F (.reading, v) :=
    .step (.init ⟨⟨0, 0, 0⟩, v₀', hinit, rfl⟩) (e := .put _) (.put hput) trivial
  have hon : CursorOnScreen v.screen := by
    rw [CursorOnScreen, hs.cursor.1, hs.cursor.2, hs.width_eq, hs.height_eq]
    decide
  have hattrs : SameAttrs Terminal.init v.terminal := by
    obtain ⟨stream, len, total, off, h⟩ := hmodes
    rw [h, hterm]
    exact ⟨rfl, rfl, rfl, rfl⟩
  obtain ⟨v₁, v₂, hfetch, hexec, hwf₂, hpending₂, hcursor₂, hheight₂, -⟩ :=
    saves_next F hwf hon hpending
  have hrow : v₂.screen.saveCursorY = v.screen.cursorY := congrArg (fun c => c.2.1) hcursor₂
  exact ⟨v, v₁, v₂, hreach, hon, hfetch, hexec, hwf₂, hpending₂, hrow.trans hs.cursor.2,
    hheight₂.trans hs.height_eq, hattrs⟩

theorem restores_next (F : Foundation) {bs : List UInt8} (h : v.Wf)
    (hp : v.terminal.pending = 0x1b :: 0x38 :: bs)
    (hy : 0 ≤ v.screen.saveCursorY ∧ v.screen.saveCursorY < v.screen.height) :
    ∃ v₁ v₂, v.getNextToken F = .ok ({ type := .decrc }, v₁) ∧
      v₁.processToken F { type := .decrc } = .ok v₂ := by
  have hdecode : decodeControl v.terminal (0x1b :: 0x38 :: bs) v.screen =
      .ok ({ type := .decrc }, 2, v.screen) := rfl
  obtain ⟨v₁, hfetch, hwf₁, -, hscreen₁, -⟩ := getNextToken_of_decode (F := F) h (by decide) hp
    hdecode (by simp) rfl rfl
  have hscreen₁ : v₁.screen = v.screen := hscreen₁
  obtain ⟨v₂, hexec⟩ := processToken_decrc_total F { type := .decrc } rfl
    hwf₁.screen.saved_column (by rw [hscreen₁]; exact hy)
  exact ⟨v₁, v₂, hfetch, hexec⟩

/-- `ESC 7`, a carriage return and `ESC 8` behind `ab` and `cd`. -/
theorem text_restores : ∃ v v₁ v₂ v₃ v₄ v₅, Reachable Foundation.latin1 (.reading, v) ∧
    CursorOnScreen v.screen ∧
    v.getNextToken Foundation.latin1 = .ok ({ type := .decsc }, v₁) ∧
    v₁.processToken Foundation.latin1 { type := .decsc } = .ok v₂ ∧
    Path (Step Foundation.latin1) (NoSave Foundation.latin1) (.reading, v₂) (.reading, v₃) ∧
    v₃.screen.cursorX = 0 ∧
    v₃.getNextToken Foundation.latin1 = .ok ({ type := .decrc }, v₄) ∧
    v₄.processToken Foundation.latin1 { type := .decrc } = .ok v₅ ∧ v₅.screen.cursorX = 2 ∧
    DrawsAlike v v₅ := by
  obtain ⟨v₀, v', first, row, hv₀, hread, hrest, -, hs, -⟩ :=
    init_text Foundation.latin1_asciiExact ⟨0, 0, 0⟩
  obtain ⟨t, hput, hwft, -, hpending⟩ := Terminal.putStreamData_spec hrest.wf
    [0x1b, 0x37, 0x0d, 0x1b, 0x38]
  rw [hrest.pending_eq, List.nil_append] at hpending
  have hput : v'.putStreamData [0x1b, 0x37, 0x0d, 0x1b, 0x38] =
      .ok { v' with terminal := t } := by
    rw [VT100.putStreamData, hput, ok_bind]
  have hreach : Reachable Foundation.latin1 (.reading, { v' with terminal := t }) :=
    ((init_reachable hv₀).readInputStream hread).step (e := .put _) (.put hput) trivial
  have hon : CursorOnScreen v'.screen := by
    rw [CursorOnScreen, hs.cursorX_eq, hs.cursorY_eq, hs.width_eq, hs.height_eq,
      List.length_singleton]
    decide
  obtain ⟨v₁, v₂, hfetch, hexec, hwf₂, hpending₂, hsaved, hheight, hfg, hbg⟩ :=
    saves_next Foundation.latin1 (v := { v' with terminal := t }) ⟨hwft, hs.wf⟩ hon hpending
  -- the carriage return
  have htok : ScreenOnly { type := .cc 13 } := screenOnly_of_type rfl
  obtain ⟨u, v₃, hfetch₃, -, hexec₃, hwf₃, hpending₃, hmodes₃, hd₃, -⟩ := token_steps
    (F := Foundation.latin1) hwf₂ (by decide) hpending₂ rfl (by decide) htok fun _ _ => rfl
  have hguard : NoSave Foundation.latin1 (.reading, v₂) .next := by
    intro tok' u' hok
    obtain rfl : { type := .cc 13 } = tok' :=
      congrArg Prod.fst (Except.ok.inj (hfetch₃.symm.trans hok))
    simp
  have hpath : Path (Step Foundation.latin1) (NoSave Foundation.latin1) (.reading, v₂)
      (.reading, v₃) :=
    .step (.token hfetch₃ rfl) hguard (.step (e := .exec) (.exec hexec₃) trivial (.refl _))
  -- and back
  have hrow : v₃.screen.saveCursorY = v'.screen.cursorY := by
    have h₃ : v₃.screen.savedCursor = v₂.screen.savedCursor := hd₃.keeps.savedCursor_eq
    exact congrArg (fun c => c.2.1) (h₃.trans hsaved)
  have hheight₃ : v₃.screen.height = v'.screen.height := hd₃.height_eq.trans hheight
  obtain ⟨v₄, v₅, hfetch₅, hexec₅⟩ := restores_next Foundation.latin1 hwf₃ hpending₃
    (by rw [hrow, hheight₃]; exact hon.2.2)
  have hcolours : SameColours t v₃.terminal := by
    obtain ⟨stream, len, total, off, heq⟩ := hmodes₃
    rw [heq]
    exact ⟨hbg, Or.inl hfg⟩
  have halike : DrawsAlike { v' with terminal := t } v₅ :=
    (restores_iff hreach hon hfetch rfl hexec hpath hfetch₅ rfl hexec₅).mpr hcolours
  exact ⟨_, v₁, v₂, v₃, v₄, v₅, hreach, hon, hfetch, hexec, hpath, hd₃.cursor_eq.1, hfetch₅,
    hexec₅, halike.cursorX.trans hs.cursorX_eq, halike⟩

/-- `ESC 7 ESC [ 3 1 m ESC 8` on a new object: the attributes are restored, the colour is not,
and the text that follows is red. -/
theorem colour_stays_red : ∃ v v₁ v₂ v₃ v₄ v₅ tok tok',
    Reachable Foundation.latin1 (.reading, v) ∧ CursorOnScreen v.screen ∧
    v.getNextToken Foundation.latin1 = .ok (tok, v₁) ∧ tok.type = .decsc ∧
    v₁.processToken Foundation.latin1 tok = .ok v₂ ∧
    Path (Step Foundation.latin1) (NoSave Foundation.latin1) (.reading, v₂) (.reading, v₃) ∧
    v₃.getNextToken Foundation.latin1 = .ok (tok', v₄) ∧ tok'.type = .decrc ∧
    v₄.processToken Foundation.latin1 tok' = .ok v₅ ∧ ¬DrawsAlike v v₅ := by
  obtain ⟨v, v₁, v₂, hr, hon, hfetch, hexec, hwf, hp, hy, hheight, hattrs⟩ :=
    init_saves Foundation.latin1 [0x1b, 0x5b, 0x33, 0x31, 0x6d, 0x1b, 0x38]
  obtain ⟨tok, hdecode, htype, hcount, hload⟩ : ∃ tok : VT100TCC,
      decodeControl v₂.terminal [0x1b, 0x5b, 0x33, 0x31, 0x6d, 0x1b, 0x38] v₂.screen =
        .ok (tok, 5, v₂.screen) ∧ tok.type = .sgr ∧ tok.csi.count = 1 ∧
      (tok.csi.p.load 0 : Res Int) = .ok 31 := by
    refine ⟨_, rfl, rfl, rfl, ?_⟩
    refine Block.load_eq_ok.mpr ⟨⟨by decide, by decide⟩, ?_⟩
    simp [CSIParam.addNumber, cint, Block.set, csiParamMax, CSIParam.zero]
  have hmode : v₂.setMode tok = .ok v₂ := by simp only [setMode, htype]
  have hattr : v₂.setCharAttr tok = .ok { v₂ with terminal := v₂.terminal.charAttr 31 } := by
    have hone : Terminal.setCharAttrFrom tok.csi 1 0 v₂.terminal =
        .ok (v₂.terminal.charAttr 31) := by
      rw [Terminal.setCharAttrFrom, hload, ok_bind, if_neg (by omega)]
      rfl
    simp only [VT100.setCharAttr, Terminal.setCharAttr, htype, hcount, if_true]
    exact congrArg (· >>= _) hone
  obtain ⟨v₃, hfetch₃, hwf₃, hpending₃, hscreen₃, hmodes₃⟩ := getNextToken_of_decode
    (F := Foundation.latin1) hwf (by decide) hp hdecode (by decide) hmode hattr
  have hscreen₃ : v₃.screen = v₂.screen := hscreen₃
  have hred : v₃.terminal.fgColorcode = 1 := by
    obtain ⟨stream, len, total, off, h⟩ := hmodes₃
    rw [h]
    rfl
  have hexec₃ : v₃.processToken Foundation.latin1 tok = .ok v₃ := by
    simp only [processToken, VT100.putToken, Screen.putToken, Screen.dispatch, htype, ok_bind]
    simp
  obtain ⟨v₄, v₅, hfetch₄, hexec₄⟩ := restores_next Foundation.latin1 hwf₃ hpending₃
    (by rw [hscreen₃, hy, hheight]; decide)
  have hstop : tok.stops = false := by simp [VT100TCC.stops, htype]
  have hguard : NoSave Foundation.latin1 (.reading, v₂) .next := by
    intro tok' v' hok
    obtain rfl : tok = tok' := congrArg Prod.fst (Except.ok.inj (hfetch₃.symm.trans hok))
    rw [htype]
    simp
  have hpath : Path (Step Foundation.latin1) (NoSave Foundation.latin1) (.reading, v₂)
      (.reading, v₃) :=
    .step (e := .next) (.token hfetch₃ hstop) hguard
      (.step (e := .exec) (.exec hexec₃) trivial (.refl _))
  refine ⟨v, v₁, v₂, v₃, v₄, v₅, _, _, hr, hon, hfetch, rfl, hexec, hpath, hfetch₄, rfl,
    hexec₄, fun halike => ?_⟩
  obtain ⟨hterm, -, hfg, hbg⟩ := restored_state hon hfetch rfl hexec hpath hfetch₄ rfl hexec₄
  have hcolours := reachable_colours (reachable_between hr hfetch rfl hexec hpath)
  have hsame := (sameColours_iff (reachable_colours hr) hcolours hterm hfg hbg).mp
    ⟨halike.foreground, halike.background⟩
  have hold : v.terminal.fgColorcode = 0x100 := hattrs.2.1
  have hbold : v.terminal.bold = 0 := hattrs.2.2.2
  obtain ⟨-, hfore | ⟨-, hfore⟩⟩ := hsame
  · rw [hred, hold] at hfore
    cases hfore
  · rw [hred, hold] at hfore
    simp only [Terminal.shade, hbold, show (1 : Int).tmod 256 = 1 from rfl,
      show (256 : Int).tmod 256 = 0 from rfl] at hfore
    omega

end VT100

end MobileTerminal
