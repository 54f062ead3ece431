import MobileTerminal.ReflowInv
import MobileTerminal.Stream

/-!
# Reachable states

The invariants of the terminal and of the screen, carried through every
transition of a run: a new `VT100` object has them, and so has every
configuration that is reached from it (`reachable_wf`).

The terminal's part asks that the pending bytes lie in the stream; attributes
and modes do not enter. The screen's part is `Screen.Wf`. Both are kept by
`setMode:`, which is the one operation that writes to the two objects.

`getNextToken` has six ways to complete: nothing is pending, a run of text, a
control character or sequence, one whose decoder answers no token, a string in
an encoding, and a byte that is none of these. `Fetches` lists them with
everything they do, and `getNextToken_fetches` is the only place where
`getNextToken` is unfolded for a call that has completed; invariants of a fetch
are case distinctions on `Fetches`.
-/

namespace MobileTerminal

variable {F : Foundation}

/-! ## A new screen -/

namespace Screen

theorem init_wf {fresh : ScreenChar} {s : Screen} (hok : Screen.init fresh = .ok s) : s.Wf := by
  obtain ⟨tabs, htabs, hok⟩ := bind_eq_ok.mp hok
  obtain ⟨s₁, h₁, hok⟩ := bind_eq_ok.mp hok
  refine (setDirty_draws hok).wf ?_
  have htabs : tabs.size = tabWindow := by
    refine forUp_inv (P := fun _ (b : Block Bool) => b.size = tabWindow) ?_ rfl htabs
    intro i b b' _ _ hb hs
    exact (Block.size_of_store hs).trans hb
  have hd := (getDefaultLine_draws _ _ _ _).trans (.forUp (fun _ _ _ => clearLineAt_draws) h₁)
  obtain ⟨⟨b, d, line, fg, bg, w, hb, -, rfl⟩, hl⟩ := hd
  have hdefault := hl (fun line h => by cases h)
  exact {
    width_pos := (by decide : 1 ≤ defaultTerminalWidth)
    height_pos := (by decide : 1 ≤ defaultTerminalHeight)
    max_pos := (by decide : 0 < defaultScrollback)
    fixed := rfl
    buffer_size := hb
    dirty_size := rfl
    last_line := rfl
    top_aligned := rfl
    scrollback_aligned := rfl
    scrollback_range := (by decide : (0 : Int) ≤ 0 ∧ 0 < defaultScrollback + defaultTerminalHeight)
    count_range := (by decide : (0 : Int) ≤ 0 ∧ 0 ≤ defaultScrollback)
    top_eq := rfl
    margins := (by decide : (0 : Int) ≤ 0 ∧ 0 ≤ defaultTerminalHeight - 1 ∧
      defaultTerminalHeight - 1 < defaultTerminalHeight)
    column := (by decide : (0 : Int) ≤ 0 ∧ 0 < defaultTerminalWidth)
    saved_column := (by decide : (0 : Int) ≤ 0 ∧ 0 < defaultTerminalWidth)
    tabs := htabs
    charsets := rfl
    saved_charsets := rfl
    temp := fun _ h => by cases h
    default := hdefault }

end Screen

/-! ## Modes and attributes -/

namespace Terminal

variable {t t' : Terminal}

theorem Wf.ite {p : Prop} [Decidable p] (h : t.Wf) (h' : t'.Wf) : (if p then t else t').Wf := by
  split
  · exact h
  · exact h'

theorem charAttr_wf (h : t.Wf) (n : Int) : (t.charAttr n).Wf := by
  unfold charAttr
  repeat' apply Wf.ite
  all_goals first
    | exact h
    | exact { h with }

theorem SameStream.ite {p : Prop} [Decidable p] {t'' : Terminal} (h : SameStream t t')
    (h' : SameStream t t'') : SameStream t (if p then t' else t'') := by
  split
  · exact h
  · exact h'

theorem charAttr_sameStream (n : Int) (t : Terminal) : SameStream t (t.charAttr n) := by
  unfold charAttr
  repeat' apply SameStream.ite
  all_goals exact ⟨rfl, rfl, rfl, rfl⟩

/-- What one attribute and the 256 colours keep, the loop keeps. -/
theorem setCharAttrFrom_inv {csi : CSIParam} {P : Terminal → Prop}
    (hattr : ∀ t n, P t → P (t.charAttr n))
    (hfg : ∀ t, P t → P { t with fgColorcode := csi.p.cell 2 })
    (hbg : ∀ t, P t → P { t with bgColorcode := csi.p.cell 2 }) {k : Nat} {i : Int} (h : P t)
    (hok : setCharAttrFrom csi k i t = .ok t') : P t' := by
  induction k generalizing i t with
  | zero =>
      cases hok
      exact h
  | succ k ih =>
      obtain ⟨n, -, hok⟩ := bind_eq_ok.mp hok
      obtain ⟨colour256, -, hok⟩ := bind_eq_ok.mp hok
      split at hok
      · obtain ⟨c, hc, hok⟩ := bind_eq_ok.mp hok
        obtain ⟨-, rfl⟩ := Block.load_eq_ok.mp hc
        cases hok
        split
        · exact hfg t h
        · exact hbg t h
      · exact ih (hattr t n h) hok

theorem setCharAttrFrom_wf {csi : CSIParam} {k : Nat} {i : Int} (h : t.Wf)
    (hok : setCharAttrFrom csi k i t = .ok t') : t'.Wf :=
  setCharAttrFrom_inv (fun _ n h => charAttr_wf h n) (fun _ h => { h with })
    (fun _ h => { h with }) h hok

theorem setCharAttr_wf {tok : VT100TCC} (h : t.Wf) (hok : t.setCharAttr tok = .ok t') :
    t'.Wf := by
  unfold setCharAttr at hok
  split at hok
  · split at hok
    · cases hok
      exact { h with }
    · exact setCharAttrFrom_wf h hok
  · cases hok
    exact h

end Terminal

namespace VT100

variable {v v' v'' : VT100}

structure Wf (v : VT100) : Prop where
  terminal : v.terminal.Wf
  screen : v.screen.Wf

theorem Wf.of_ok (hok : (.ok v : Res VT100) = .ok v') (h : v.Wf) : v'.Wf :=
  Except.ok.inj hok ▸ h

theorem setPrivateMode_terminalWf {p : Int} {mode : Bool} (h : v.terminal.Wf)
    (hok : v.setPrivateMode p mode = .ok v') : v'.terminal.Wf := by
  unfold setPrivateMode at hok
  simp only at hok
  split at hok
  case h_6 =>
    obtain ⟨s, -, hok⟩ := bind_eq_ok.mp hok
    cases hok
    exact { h with }
  case h_12 =>
    obtain ⟨s, -, hok⟩ := bind_eq_ok.mp hok
    cases hok
    exact h
  all_goals
    cases hok
    first
      | exact h
      | exact { h with }

theorem setPrivateMode_screenWf {p : Int} {mode : Bool} (h : v.screen.Wf)
    (hok : v.setPrivateMode p mode = .ok v') : v'.screen.Wf := by
  unfold setPrivateMode at hok
  simp only at hok
  split at hok
  case h_6 =>
    obtain ⟨s, hs, hok⟩ := bind_eq_ok.mp hok
    cases hok
    exact (Screen.setDirty_draws hs).wf h
  case h_12 =>
    obtain ⟨s, hs, hok⟩ := bind_eq_ok.mp hok
    cases hok
    split at hs
    · exact Screen.saveBuffer_wf h hs
    · exact Screen.restoreBuffer_wf h hs
  all_goals
    cases hok
    exact h

/-- What a mode does to the terminal does not depend on the screen. -/
theorem setMode_terminalWf {tok : VT100TCC} (h : v.terminal.Wf) (hok : v.setMode tok = .ok v') :
    v'.terminal.Wf := by
  unfold setMode at hok
  simp only at hok
  split at hok
  · exact setPrivateMode_terminalWf h hok
  · exact setPrivateMode_terminalWf h hok
  · cases hok
    split
    · exact { h with }
    · exact h
  · cases hok
    split
    · exact { h with }
    · exact h
  · cases hok
    exact { h with }
  · cases hok
    exact { h with }
  · cases hok
    exact { h with charset_range := (by decide : (0 : Int) ≤ 0 ∧ (0 : Int) ≤ 1) }
  · cases hok
    exact { h with charset_range := (by decide : (0 : Int) ≤ 1 ∧ (1 : Int) ≤ 1) }
  · cases hok
    exact { h with }
  · cases hok
    exact { h with }
  · cases hok
    exact { h with charset_range := h.saved_range }
  · cases hok
    exact { h with saved_range := h.charset_range }
  · cases hok
    exact h

theorem setMode_screenWf {tok : VT100TCC} (h : v.screen.Wf) (hok : v.setMode tok = .ok v') :
    v'.screen.Wf := by
  unfold setMode at hok
  simp only at hok
  split at hok
  · exact setPrivateMode_screenWf h hok
  · exact setPrivateMode_screenWf h hok
  all_goals
    cases hok
    first
      | exact h
      | (split <;> exact h)

theorem setMode_wf {tok : VT100TCC} (h : v.Wf) (hok : v.setMode tok = .ok v') : v'.Wf :=
  ⟨setMode_terminalWf h.terminal hok, setMode_screenWf h.screen hok⟩

theorem setCharAttr_terminalWf {tok : VT100TCC} (h : v.terminal.Wf)
    (hok : v.setCharAttr tok = .ok v') : v'.terminal.Wf := by
  obtain ⟨t, ht, hok⟩ := bind_eq_ok.mp hok
  cases hok
  exact Terminal.setCharAttr_wf h ht

theorem setCharAttr_wf {tok : VT100TCC} (h : v.Wf) (hok : v.setCharAttr tok = .ok v') :
    v'.Wf := by
  refine ⟨setCharAttr_terminalWf h.terminal hok, ?_⟩
  obtain ⟨t, -, hok⟩ := bind_eq_ok.mp hok
  cases hok
  exact h.screen

/-! ## Steps -/

theorem advance_eq (h : v.terminal.Wf) {n : Nat} (hn : n ≤ v.terminal.pending.length) :
    v.advance n = .ok { v with terminal := v.terminal.skip n } := by
  have hlen := Terminal.pending_length h
  unfold advance
  split
  · rw [nsAssert_pos (by omega)]
    rfl
  · obtain rfl : n = 0 := by omega
    simp [Terminal.skip]

theorem advance_terminalWf {n : Nat} (h : v.terminal.Wf) (hok : v.advance n = .ok v') :
    v'.terminal.Wf := by
  have hoff := h.offset_nonneg
  unfold advance at hok
  split at hok
  · obtain ⟨u, hle, hok⟩ := bind_eq_ok.mp hok
    have hle := nsAssert_eq_ok.mp hle
    cases hok
    exact { h with
      offset_nonneg := by simp only [Terminal.skip]; omega
      offset_le := by simp only [Terminal.skip]; omega }
  · cases hok
    exact h

theorem advance_wf {n : Nat} (h : v.Wf) (hok : v.advance n = .ok v') : v'.Wf := by
  refine ⟨advance_terminalWf h.terminal hok, ?_⟩
  unfold advance at hok
  split at hok
  · obtain ⟨u, -, hok⟩ := bind_eq_ok.mp hok
    cases hok
    exact h.screen
  · cases hok
    exact h.screen

theorem overwritePending_terminalWf (h : v.terminal.Wf) (bytes : List UInt8) :
    (v.overwritePending bytes).terminal.Wf :=
  { h with size_eq := h.size_eq }

theorem overwritePending_wf (h : v.Wf) (bytes : List UInt8) : (v.overwritePending bytes).Wf :=
  ⟨overwritePending_terminalWf h.terminal bytes, h.screen⟩

/-- Everything `getNextToken` can do when it completes, one constructor for each way through
it, with the decoder's answer, the modes and attributes set and the bytes passed over. -/
inductive Fetches (F : Foundation) (v : VT100) : VT100TCC → VT100 → Prop where
  | empty (hp : v.terminal.pending = []) :
      Fetches F v { type := .cc 0 } { v with terminal := v.terminal.emptyStream }
  | text {v' : VT100} {b : UInt8} {rest : List UInt8} (hp : v.terminal.pending = b :: rest)
      (htext : isAsciiText b = true)
      (h : v.advance (decodeAsciiString F v.terminal.pending).2 = .ok v') :
      Fetches F v (decodeAsciiString F v.terminal.pending).1 v'
  | control {v₁ v₂ v' : VT100} {tok : VT100TCC} {n : Nat} {s : Screen} {b : UInt8}
      {rest : List UInt8} (hp : v.terminal.pending = b :: rest) (hb : b ≤ 0x1f)
      (hdecode : decodeControl v.terminal v.terminal.pending v.screen = .ok (tok, n, s))
      (hmode : setMode tok { v with screen := s } = .ok v₁) (hattr : v₁.setCharAttr tok = .ok v₂)
      (h : v₂.advance n = .ok v') : Fetches F v tok v'
  | undecoded {v' : VT100} {tok : VT100TCC} {b : UInt8} {rest bytes : List UInt8}
      (hp : v.terminal.pending = b :: rest) (hb : ¬b ≤ 0x1f)
      (hdecode : decodeString F v.terminal.pending v.terminal.encoding = (tok, 0, bytes))
      (hwait : tok.type ≠ .wait) (h : (v.overwritePending bytes).advance 1 = .ok v') :
      Fetches F v { type := .unknownChar, code := b } v'
  | string {v' : VT100} {tok : VT100TCC} {n : Nat} {b : UInt8} {rest bytes : List UInt8}
      (hp : v.terminal.pending = b :: rest) (hb : ¬b ≤ 0x1f)
      (hdecode : decodeString F v.terminal.pending v.terminal.encoding = (tok, n, bytes))
      (hwait : ¬(tok.type ≠ .wait ∧ n = 0)) (h : (v.overwritePending bytes).advance n = .ok v') :
      Fetches F v tok v'
  | unknown {v' : VT100} {b : UInt8} {rest : List UInt8} (hp : v.terminal.pending = b :: rest)
      (hb : ¬b ≤ 0x1f) (h : v.advance 1 = .ok v') :
      Fetches F v { type := .unknownChar, code := b } v'

theorem getNextToken_fetches {tok : VT100TCC} (hok : v.getNextToken F = .ok (tok, v')) :
    Fetches F v tok v' := by
  unfold getNextToken at hok
  split at hok
  · rename_i hp
    cases hok
    exact .empty hp
  · rename_i b rest hp
    simp only [← hp] at hok
    split at hok
    · rename_i htext
      obtain ⟨v₁, h₁, hok⟩ := bind_eq_ok.mp hok
      cases hok
      exact .text hp htext h₁
    · split at hok
      · rename_i hb
        obtain ⟨⟨tok', n, s⟩, h₁, hok⟩ := bind_eq_ok.mp hok
        obtain ⟨v₂, h₂, hok⟩ := bind_eq_ok.mp hok
        obtain ⟨v₃, h₃, hok⟩ := bind_eq_ok.mp hok
        obtain ⟨v₄, h₄, hok⟩ := bind_eq_ok.mp hok
        cases hok
        exact .control hp hb h₁ h₂ h₃ h₄
      · rename_i hb
        split at hok
        · generalize hdecode : decodeString F v.terminal.pending v.terminal.encoding = r at hok
          obtain ⟨tok', n, bytes⟩ := r
          simp only at hok
          split at hok
          · rename_i hzero
            obtain ⟨v₁, h₁, hok⟩ := bind_eq_ok.mp hok
            cases hok
            obtain rfl := hzero.2
            exact .undecoded hp hb hdecode hzero.1 h₁
          · rename_i hzero
            obtain ⟨v₁, h₁, hok⟩ := bind_eq_ok.mp hok
            cases hok
            exact .string hp hb hdecode hzero h₁
        · obtain ⟨v₁, h₁, hok⟩ := bind_eq_ok.mp hok
          cases hok
          exact .unknown hp hb h₁

/-- The terminal is sound after a fetch whatever screen it is attached to. -/
theorem getNextToken_terminalWf {tok : VT100TCC} (h : v.terminal.Wf)
    (hok : v.getNextToken F = .ok (tok, v')) : v'.terminal.Wf := by
  cases getNextToken_fetches hok with
  | empty hp => exact Terminal.emptyStream_wf h
  | text hp htext h₁ => exact advance_terminalWf h h₁
  | @control v₁ v₂ _ _ n s _ _ hp hb hdecode hmode hattr h₁ =>
      have hs : (VT100.mk v.terminal s).terminal.Wf := h
      exact advance_terminalWf (setCharAttr_terminalWf (setMode_terminalWf hs hmode) hattr) h₁
  | undecoded hp hb hdecode hwait h₁ =>
      exact advance_terminalWf (overwritePending_terminalWf h _) h₁
  | string hp hb hdecode hwait h₁ => exact advance_terminalWf (overwritePending_terminalWf h _) h₁
  | unknown hp hb h₁ => exact advance_terminalWf h h₁

theorem getNextToken_wf {tok : VT100TCC} (h : v.Wf)
    (hok : v.getNextToken F = .ok (tok, v')) : v'.Wf := by
  cases getNextToken_fetches hok with
  | empty hp => exact ⟨Terminal.emptyStream_wf h.terminal, h.screen⟩
  | text hp htext h₁ => exact advance_wf h h₁
  | @control v₁ v₂ _ _ n s _ _ hp hb hdecode hmode hattr h₁ =>
      have hs : Wf { v with screen := s } := ⟨h.terminal, Screen.decodeControl_wf h.screen hdecode⟩
      exact advance_wf (setCharAttr_wf (setMode_wf hs hmode) hattr) h₁
  | undecoded hp hb hdecode hwait h₁ => exact advance_wf (overwritePending_wf h _) h₁
  | string hp hb hdecode hwait h₁ => exact advance_wf (overwritePending_wf h _) h₁
  | unknown hp hb h₁ => exact advance_wf h h₁

theorem processToken_wf {tok : VT100TCC} (h : v.Wf) (hok : v.processToken F tok = .ok v') :
    v'.Wf := by
  unfold processToken at hok
  split at hok
  · cases hok
    exact h
  · obtain ⟨s, hs, hok⟩ := bind_eq_ok.mp hok
    cases hok
    refine ⟨?_, Screen.putToken_wf h.screen hs⟩
    split
    · exact { h.terminal with }
    · exact h.terminal

theorem putStreamData_wf {data : List UInt8} (h : v.Wf)
    (hok : v.putStreamData data = .ok v') : v'.Wf := by
  obtain ⟨t, ht, hok⟩ := bind_eq_ok.mp hok
  cases hok
  obtain ⟨t', ht', hwf, -⟩ := Terminal.putStreamData_spec h.terminal data
  rw [ht] at ht'
  cases ht'
  exact ⟨hwf, h.screen⟩

theorem step_wf {p p' : Phase} {e : Event} (h : v.Wf) (hsize : SizesPositive (p, v) e)
    (hstep : Step F (p, v) e (p', v')) : v'.Wf := by
  cases hstep with
  | put hok => exact putStreamData_wf h hok
  | token hok _ => exact getNextToken_wf h hok
  | stop hok _ hr =>
      obtain ⟨s, hs, hr⟩ := bind_eq_ok.mp hr
      cases hr
      have h₁ := getNextToken_wf h hok
      exact ⟨h₁.terminal, (Screen.refresh_draws hs).wf h₁.screen⟩
  | exec hok => exact processToken_wf h hok
  | setScreenSize hok =>
      obtain ⟨s, hs, hok⟩ := bind_eq_ok.mp hok
      cases hok
      exact ⟨h.terminal, Screen.resizeWidth_wf h.screen hsize.1 hsize.2.2.1 hs⟩
  | clearScreen hok =>
      obtain ⟨s, hs, hok⟩ := bind_eq_ok.mp hok
      cases hok
      exact ⟨h.terminal, Screen.clearBuffer_wf h.screen hs⟩

theorem init_wf {fresh : ScreenChar} (hok : init fresh = .ok v) : v.Wf := by
  obtain ⟨s, hs, hok⟩ := bind_eq_ok.mp hok
  obtain ⟨s₁, h₁, hok⟩ := bind_eq_ok.mp hok
  cases hok
  refine ⟨{ Terminal.init_wf with }, ?_⟩
  have h₁ := Screen.resizeWidth_wf (Screen.init_wf hs) (by decide) (by decide) h₁
  exact { h₁ with }

/-- Every reachable state is well formed. Claims about reachable states start from this and
use nothing else of how the state was reached, unless they say so. -/
theorem reachable_wf {c : Config} (h : Reachable F c) : c.2.Wf := by
  refine Reach.invariant (I := fun c => c.2.Wf) ?_ ?_ h
  · rintro c ⟨fresh, v, hv, rfl⟩
    exact init_wf hv
  · rintro ⟨p, v⟩ e ⟨p', v'⟩ hI hok hstep
    exact step_wf hI hok hstep

end VT100

end MobileTerminal
