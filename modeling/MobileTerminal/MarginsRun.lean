import MobileTerminal.MarginsConfine
import MobileTerminal.ShowsStream

/-!
# Runs between the margins

`run_confined` speaks of runs that complete. This module says which do: from a state
with the cursor between the margins, at least two rows between them, and the first
of these rows in front of the wrap point of the ring (`Scrolling`), every token that
stays in the margins completes and leaves such a state, but for one.

That one is HT. It looks for the next stop in a table of `TABWINDOW` entries and
compares the column with the width only after it has read the entry, so on a screen
that is not narrower than the table and has no stop ahead it reads past the table's
end, and what the program does from there on is not defined. `Confines` is the claim
a user would make about the margins, after every token of a run; it holds exactly
when no HT of the run is one of those (`margins_confine_iff`).

For most of the tokens completion has already been shown on the way to `run_display`,
under the conditions of `Admits`, and these follow from `Scrolling` and the bound on
the parameters. SU is the exception: with full margins it is a sequence of line
feeds, which `Display` models only from the last row.
-/

namespace MobileTerminal

variable {F : Foundation} {t : Terminal}

namespace Screen

variable {s s' : Screen}

/-- The cursor is between the margins, and the rows between them can scroll. -/
structure Scrolling (s : Screen) : Prop where
  row : s.InMargins
  rows : s.scrollTop < s.scrollBottom
  front : s.RegionInFront

/-- With full margins the first row of the region is the first row of the screen, which lies
in the ring. -/
theorem FullMargins.regionInFront (hfull : s.FullMargins) (h : s.Wf) : s.RegionInFront := by
  have htop := h.top_range
  have hzero := hfull.1
  unfold RegionInFront
  omega

theorem Scrolling.confined (hs : s.Scrolling) (hwf' : s'.Wf) (h : Confined s s') :
    s'.Scrolling := by
  refine ⟨h.row, ?_, ?_⟩
  · rw [h.margins_eq.1, h.margins_eq.2]
    exact hs.rows
  · by_cases hfull : s.FullMargins
    · exact (h.full_iff.mpr hfull).regionInFront hwf'
    · have hring := (h.cells hfull).ring
      have hfront := hs.front
      unfold RegionInFront topLine realWidth at *
      rw [hring.top_eq, hring.width_eq, hring.totalHeight_eq, hring.margins_eq.1]
      exact hfront

/-! ## Tokens -/

theorem Scrolling.roomForText (hs : s.Scrolling) : s.RoomForText :=
  Or.inr ⟨hs.rows, hs.front, hs.row.2⟩

theorem Scrolling.feedFits (hs : s.Scrolling) (h : s.Wf) : s.FeedFits :=
  ⟨hs.row.onScreen h, fun _ => hs.roomForText.scrollsUp, hs.roomForText.not_below⟩

/-- A line feed completes, in the last row of the screen or before it. -/
theorem Scrolling.setNewLine (hs : s.Scrolling) (h : s.Wf) (t : Terminal) :
    ∃ s', s.setNewLine t = .ok s' := by
  obtain ⟨s', hok, -⟩ := (shows_display t s).newLine h (hs.row.onScreen h)
    (fun _ => hs.roomForText.scrollsUp) hs.roomForText.not_below
  exact ⟨s', hok⟩

/-- With full margins every scroll is a line feed. -/
theorem Scrolling.scrollUps (hs : s.Scrolling) (h : s.Wf) (hfull : s.FullMargins) (t : Terminal)
    (n : Nat) : ∃ s', forUp (fun _ s => s.scrollUp t) 0 n s = .ok s' := by
  obtain ⟨s', hok, -⟩ := forUp_total (ε := Fault Site) (f := fun _ (s : Screen) => s.scrollUp t)
    (P := fun _ s => s.Wf ∧ s.Scrolling ∧ s.FullMargins) 0 n
    (fun _ s₁ _ _ hI => by
      obtain ⟨h₁, hs₁, hfull₁⟩ := hI
      obtain ⟨s₂, h₂⟩ := hs₁.setNewLine h₁ t
      have hscroll : s₁.scrollUp t = .ok s₂ := by
        rw [scrollUp, h₁.scrollAsserts_ok, ok_bind, if_pos hfull₁, h₂]
      have hc := setNewLine_confined h₁ hs₁.row h₂
      have hwf₂ := setNewLine_wf h₁ h₂
      exact ⟨s₂, hscroll, hwf₂, hs₁.confined hwf₂ hc, hc.full_iff.mpr hfull₁⟩)
    ⟨h, hs, hfull⟩
  exact ⟨s', hok⟩

theorem Scrolling.admits (hs : s.Scrolling) (h : s.Wf) {tok : VT100TCC}
    (htype : tok.type.staysInMargins = true)
    (hparam : tok.type.counts = true → s.ParamFits (tok.csi.p.cell 0)) (htab : tok.type ≠ .cc 9)
    (hsu : tok.type = .su → ¬s.FullMargins) : s.Admits tok := by
  have hy := hs.row.onScreen h
  have hroom := hs.roomForText
  have hregion : s.scrollTop < s.scrollBottom ∧ s.RegionInFront := ⟨hs.rows, hs.front⟩
  obtain ⟨type, string, code, csi⟩ := tok
  cases type with
  | string => exact fun _ => ⟨hy, hroom⟩
  | asciiString => exact fun _ => ⟨hy, hroom⟩
  | cc code =>
      simp only [TokenType.staysInMargins, Bool.and_eq_true, decide_eq_true_eq] at htype
      have hcode : code = 8 ∨ code = 10 ∨ code = 11 ∨ code = 12 ∨ code = 13 := by
        have hne : code ≠ 9 := fun h9 => htab (congrArg TokenType.cc h9)
        omega
      rcases hcode with rfl | rfl | rfl | rfl | rfl
      · trivial
      · exact fun _ => hs.feedFits h
      · exact fun _ => hs.feedFits h
      · exact fun _ => hs.feedFits h
      · trivial
  | cub => exact hparam rfl
  | cuf => exact hparam rfl
  | cha => exact hparam rfl
  | cuu => exact ⟨hy, hparam rfl, Or.inl hs.row.1⟩
  | cud => exact ⟨hy, hparam rfl, Or.inl hs.row.2⟩
  | el => exact hy
  | ech => exact ⟨hy, hparam rfl⟩
  | insblnk => exact ⟨hy, hparam rfl⟩
  | delch => exact ⟨hy, hparam rfl⟩
  | insln => exact ⟨(hparam rfl).linesFit h hs.row, hs.row.2⟩
  | delln => exact ⟨(hparam rfl).linesFit h hs.row, hs.row.2⟩
  | su => exact ⟨hroom.scrollsUp, fun hfull => absurd hfull (hsu rfl)⟩
  | sd => exact hregion
  | nel => exact ⟨hy, fun _ => hroom.scrollsUp⟩
  | ind => exact ⟨hy, fun _ => hroom.scrollsUp⟩
  | ri => exact fun _ => hregion
  | sgr => trivial
  | _ => cases htype

/-- Every token of the language completes, and HT where the scan for the next stop stays in the
table. -/
theorem Scrolling.dispatch_iff (hs : s.Scrolling) (h : s.Wf) (ht : t.Wf) {tok : VT100TCC}
    (htype : tok.type.staysInMargins = true)
    (hparam : tok.type.counts = true → s.ParamFits (tok.csi.p.cell 0)) :
    (∃ s', s.dispatch F t tok = .ok s') ↔ (tok.type = .cc 9 → s.TabAhead) := by
  by_cases htab : tok.type = .cc 9
  · have hdispatch : s.dispatch F t tok = s.setTab := by
      rw [dispatch, htab]
      rfl
    rw [hdispatch, setTab_total_iff h]
    exact ⟨fun hahead _ => hahead, fun hahead => hahead htab⟩
  · refine ⟨fun _ h9 => absurd h9 htab, fun _ => ?_⟩
    by_cases hsu : tok.type = .su ∧ s.FullMargins
    · obtain ⟨s', hok⟩ := hs.scrollUps h hsu.2 t (tok.csi.p.cell 0).toNat
      exact ⟨s', by rw [dispatch, hsu.1]; exact hok⟩
    · obtain ⟨s', hok, -⟩ := (shows_display t s).dispatch (F := F) h ht
        (hs.admits h htype hparam htab fun h' hfull => hsu ⟨h', hfull⟩)
      exact ⟨s', hok⟩

end Screen

namespace VT100

variable {v v' : VT100} {tok : VT100TCC} {toks : List VT100TCC}

/-- The attributes of a token that was delivered can be set on any terminal: what may fail is
only reading its parameters. -/
theorem setCharAttrFrom_completes {csi : CSIParam} {k : Nat} {i : Int} {t t' u : Terminal}
    (hok : Terminal.setCharAttrFrom csi k i t = .ok t') :
    ∃ u', Terminal.setCharAttrFrom csi k i u = .ok u' := by
  induction k generalizing i t u with
  | zero => exact ⟨u, rfl⟩
  | succ k ih =>
      obtain ⟨n, hn, hok⟩ := bind_eq_ok.mp hok
      obtain ⟨colour, hcolour, hok⟩ := bind_eq_ok.mp hok
      rw [Terminal.setCharAttrFrom, hn, ok_bind, hcolour, ok_bind]
      cases colour with
      | true =>
          obtain ⟨c, hc, -⟩ := bind_eq_ok.mp hok
          exact ⟨_, by rw [if_pos rfl, hc, ok_bind]⟩
      | false => exact ih hok

theorem Delivered.setCharAttr (h : Delivered F tok) (v : VT100) :
    ∃ v', v.setCharAttr tok = .ok v' := by
  by_cases hsgr : tok.type = .sgr
  · obtain ⟨u, u', hnext⟩ := h
    obtain ⟨-, -, u₁, u₂, -, -, hattr, -⟩ := getNextToken_of_control (by rw [hsgr]; rfl) hnext
    obtain ⟨t', ht, -⟩ := bind_eq_ok.mp hattr
    rw [Terminal.setCharAttr, if_pos hsgr] at ht
    rw [VT100.setCharAttr, Terminal.setCharAttr, if_pos hsgr]
    split at ht
    · rename_i hzero
      exact ⟨_, by rw [if_pos hzero, ok_bind]⟩
    · rename_i hzero
      obtain ⟨u', hu'⟩ := setCharAttrFrom_completes (u := v.terminal) ht
      exact ⟨_, by rw [if_neg hzero, hu', ok_bind]⟩
  · exact ⟨v, by rw [VT100.setCharAttr, Terminal.setCharAttr, if_neg hsgr, ok_bind]⟩

/-- What a run between the margins keeps. -/
structure Kept (s : Screen) (v : VT100) : Prop where
  wf : v.Wf
  scrolling : v.screen.Scrolling
  size_eq : v.screen.width = s.width ∧ v.screen.height = s.height

theorem Kept.step {s : Screen} (h : Kept s v) (htok : StaysInMargins F s tok)
    (hok : execute F v tok = .ok v') : Kept s v' := by
  have hwf := execute_wf h.wf hok
  have hc := execute_confined h.wf h.scrolling.row h.size_eq htok hok
  exact ⟨hwf, h.scrolling.confined hwf.screen hc, hc.size_eq.1.trans h.size_eq.1,
    hc.size_eq.2.trans h.size_eq.2⟩

theorem Kept.completes_iff {s : Screen} (h : Kept s v) (htok : StaysInMargins F s tok) :
    (∃ v', execute F v tok = .ok v') ↔ (tok.type = .cc 9 → v.screen.TabAhead) := by
  obtain ⟨u, u', hnext⟩ := htok.delivered
  have hparams := getNextToken_params hnext
  obtain ⟨v₁, hattr⟩ := htok.delivered.setCharAttr v
  have hwf₁ := setCharAttr_wf h.wf hattr
  have hscreen := setCharAttr_screen hattr
  have hplain : ¬(tok.type = .skip ∨ tok.type = .notSupport) := by
    have := htok.type
    rintro (htype | htype) <;> rw [htype] at this <;> cases this
  have hexecute : execute F v tok = v₁.putToken F tok := by
    rw [VT100.execute, StaysInMargins.setMode htok.type, ok_bind, hattr, ok_bind, processToken,
      if_neg hplain]
  have hdispatch := h.scrolling.dispatch_iff (F := F) h.wf.screen hwf₁.terminal htok.type
    (fun hcounts => ⟨hparams.nonneg hcounts, by
      have := htok.small hcounts
      have := h.size_eq
      omega⟩)
  rw [hexecute, ← hdispatch, VT100.putToken, hscreen]
  constructor
  · rintro ⟨v', hok⟩
    obtain ⟨s', hput, -⟩ := bind_eq_ok.mp hok
    obtain ⟨s₁, hok, -⟩ := bind_eq_ok.mp hput
    exact ⟨s₁, hok⟩
  · rintro ⟨s₁, hok⟩
    rw [Screen.putToken, hok]
    exact ⟨_, rfl⟩

/-- Margins confine a run: it completes, and after every token the cursor is between the
margins and, if they are not the full screen, every visible row outside of them and every row
of the scrollback is as it was. -/
def Confines (F : Foundation) (v : VT100) (toks : List VT100TCC) : Prop :=
  ∀ done, done <+: toks → ∃ v', done.foldlM (execute F) v = .ok v' ∧ v'.screen.InMargins ∧
    (¬v.screen.FullMargins → v'.screen.scrollbackRows = v.screen.scrollbackRows ∧
      ∀ y : Nat, (y : Int) < v.screen.scrollTop ∨ v.screen.scrollBottom < y →
        v'.screen.visibleRows[y]? = v.screen.visibleRows[y]?)

/-- From a reachable state with the cursor between the margins, two rows or more between them
and the first of these in front of the wrap point, margins confine a run of these tokens exactly
when every HT of it finds the screen narrower than the table of tab stops or a stop ahead. -/
theorem margins_confine_iff {c : Config} (h : Reachable F c) (hm : c.2.screen.InMargins)
    (hrows : c.2.screen.scrollTop < c.2.screen.scrollBottom) (hfront : c.2.screen.RegionInFront)
    (htoks : ∀ tok ∈ toks, StaysInMargins F c.2.screen tok) :
    Confines F c.2 toks ↔
      Guarded (execute F) (fun v tok => tok.type = .cc 9 → v.screen.TabAhead) c.2 toks := by
  have hwf := reachable_wf h
  have hkept : Kept c.2.screen c.2 := ⟨hwf, ⟨hm, hrows, hfront⟩, rfl, rfl⟩
  rw [← Guarded.completes_iff (fun tok htok _ _ hk hok => hk.step (htoks tok htok) hok)
    (fun tok htok _ hk => hk.completes_iff (htoks tok htok)) hkept]
  constructor
  · intro hconfines
    obtain ⟨v', hok, -⟩ := hconfines toks (List.prefix_refl _)
    exact ⟨v', hok⟩
  · rintro ⟨v', hrun⟩ done hdone
    obtain ⟨v₁, h₁⟩ := foldlM_prefix hdone hrun
    obtain ⟨hwf₁, hc⟩ := run_confined hwf hm ⟨rfl, rfl⟩
      (fun tok htok => htoks tok (hdone.subset htok)) h₁
    exact ⟨v₁, h₁, hc.row, hc.rows hwf.screen hwf₁.screen⟩

/-- On a screen narrower than the table no HT leaves it. -/
theorem Kept.guarded {s : Screen} (h : Kept s v) (hw : s.width < tabWindow)
    (htoks : ∀ tok ∈ toks, StaysInMargins F s tok) :
    Guarded (execute F) (fun v tok => tok.type = .cc 9 → v.screen.TabAhead) v toks := by
  induction toks generalizing v with
  | nil => exact .nil
  | cons tok toks ih =>
      refine .cons (fun _ => Or.inl (by rw [h.size_eq.1]; exact hw)) fun v₁ h₁ => ?_
      exact ih (h.step (htoks tok List.mem_cons_self) h₁)
        fun tok' htok' => htoks tok' (List.mem_cons_of_mem _ htok')

/-! ## Two runs -/

/-- A control character or a sequence is fetched from a new object that has been sent it. -/
theorem Delivered.of_decode (b : UInt8) (bs : List UInt8) (hb : b ≤ 0x1f)
    (hdecode : ∀ t s, decodeControl t (b :: bs) s = .ok (tok, (b :: bs).length, s))
    (hmode : ∀ v, VT100.setMode tok v = .ok v) (hattr : ∀ v, VT100.setCharAttr tok v = .ok v) :
    Delivered F tok := by
  obtain ⟨v₀, v, -, -, hwf, hpending, -, -⟩ := init_put ⟨0, 0, 0⟩ (b :: bs)
  obtain ⟨v', hfetch, -⟩ := getNextToken_of_decode (F := F) hwf hb hpending (hdecode _ _)
    (Nat.le_refl _) (hmode v) (hattr v)
  exact ⟨v, v', hfetch⟩

theorem Delivered.text {text : List UInt8} (hF : F.AsciiExact) (hne : text ≠ [])
    (htext : ∀ b ∈ text, isAsciiText b = true) : Delivered F (textToken text) := by
  obtain ⟨v₀, v, -, -, hwf, hpending, -, -⟩ := init_put ⟨0, 0, 0⟩ text
  have hfetch := getNextToken_text hF hwf.terminal hne htext rfl
    (hpending.trans (List.append_nil text).symm)
  exact ⟨v, _, hfetch⟩

/-- `ESC [ 2 ; 3 r` and a line feed lead into the margins, to the second row. -/
theorem margins_entered (h : v.Wf) (hempty : v.terminal.pending = [])
    (hheight : v.screen.height = 25) (horigin : v.terminal.originMode = false)
    (hprint : v.screen.printToAnsi = false) :
    ∃ v₁ v₂, v.readInputStream F setMarginsBytes = .ok v₁ ∧ v₁.readInputStream F [0x0a] = .ok v₂ ∧
      Screen.Draws { v.screen with scrollTop := 1, scrollBottom := 2, cursorX := 0, cursorY := 1 }
        v₂.screen ∧ v₂.Wf ∧ v₂.terminal.pending = [] := by
  obtain ⟨v₁, h₁, hd₁, -, hwf₁, hempty₁, -⟩ := readInputStream_setMargins (F := F) h hempty
    (by omega) horigin
  have hm₁ : v₁.screen.scrollTop = 1 ∧ v₁.screen.scrollBottom = 2 := hd₁.margins_eq
  have hy₁ : v₁.screen.cursorY = 0 := hd₁.cursor_eq.2
  obtain ⟨s₂, hs₂, hdown⟩ := lineFeed_down (s := v₁.screen) (hd₁.print_eq.trans hprint)
    (Or.inl (by omega))
  have htok : ScreenOnly { type := .cc 10 } := screenOnly_of_type rfl
  obtain ⟨v₂, h₂, hd₂, -, hwf₂, hempty₂, -⟩ := readInputStream_sequence (F := F) hwf₁ hempty₁
    0x0a [] { type := .cc 10 } (by decide) (fun _ => rfl) htok fun t _ => hs₂ t
  refine ⟨v₁, v₂, h₁, h₂, ?_, hwf₂, hempty₂⟩
  have hcursor := (hd₁.withCursor 0 1).trans ((by rw [hy₁] at hdown; exact hdown : Screen.Draws
    { v₁.screen with cursorX := 0, cursorY := 1 } s₂).trans hd₂)
  exact hcursor

/-- `ESC [ A`, `ESC [ L` and `ESC [ S`. -/
theorem sequences_delivered : ∃ up insert scroll : VT100TCC,
    (Delivered F up ∧ up.type = .cuu ∧ up.csi.p.cell 0 = 1) ∧
    (Delivered F insert ∧ insert.type = .insln ∧ insert.csi.p.cell 0 = 1) ∧
    Delivered F scroll ∧ scroll.type = .su ∧ scroll.csi.p.cell 0 = 1 :=
  ⟨_, _, _,
    ⟨.of_decode 0x1b [0x5b, 0x41] (by decide) (fun _ _ => rfl) (fun _ => rfl)
      fun _ => rfl, rfl, rfl⟩,
    ⟨.of_decode 0x1b [0x5b, 0x4c] (by decide) (fun _ _ => rfl) (fun _ => rfl)
      fun _ => rfl, rfl, rfl⟩,
    .of_decode 0x1b [0x5b, 0x53] (by decide) (fun _ _ => rfl) (fun _ => rfl)
      fun _ => rfl, rfl, rfl⟩

/-- Inside the margins `ab` and two line feeds, of which the second scrolls the rows, the
sequences above, and HT. -/
theorem margins_confine_run : ∃ (v : VT100) (up insert scroll : VT100TCC),
    Reachable Foundation.latin1 (.idle, v) ∧ ¬v.screen.FullMargins ∧
    up.type = .cuu ∧ insert.type = .insln ∧ scroll.type = .su ∧
    Confines Foundation.latin1 v [textToken [0x61, 0x62], { type := .cc 10 }, { type := .cc 10 },
      up, insert, scroll, { type := .cc 9 }] := by
  obtain ⟨v₀, hv₀, ht, hs⟩ := init_fresh ⟨0, 0, 0⟩
  obtain ⟨v₁, v, h₁, hv, hd, hwf, -⟩ := margins_entered (F := Foundation.latin1) (init_wf hv₀)
    (by rw [ht]; rfl) hs.height_eq (by rw [ht]; rfl) hs.print_eq
  have hreach := ((init_reachable hv₀).readInputStream h₁).readInputStream hv
  have hm : v.screen.scrollTop = 1 ∧ v.screen.scrollBottom = 2 := hd.margins_eq
  have hy : v.screen.cursorY = 1 := hd.cursor_eq.2
  have hwidth : v.screen.width = 80 := hd.width_eq.trans hs.width_eq
  have hheight : v.screen.height = 25 := hd.height_eq.trans hs.height_eq
  have hrow : v.screen.InMargins := by
    unfold Screen.InMargins
    omega
  have hfront : v.screen.RegionInFront := by
    have htop : v.screen.topLine = 0 := hd.topLine_eq.trans hs.top_eq
    have hpos := hwf.screen.max_pos
    unfold Screen.RegionInFront Screen.totalHeight
    omega
  have hfull : ¬v.screen.FullMargins := fun hfull => by
    have := hfull.1
    omega
  obtain ⟨up, insert, scroll, ⟨hup, hup', hup0⟩, ⟨hinsert, hinsert', hinsert0⟩, hscroll, hscroll',
    hscroll0⟩ := sequences_delivered (F := Foundation.latin1)
  have hcontrol : ∀ code : Nat, code = 9 ∨ code = 10 →
      StaysInMargins Foundation.latin1 v.screen { type := .cc code } := by
    rintro code (rfl | rfl)
    · exact ⟨.of_decode 0x09 [] (by decide) (fun _ _ => rfl) (fun _ => rfl)
        fun _ => rfl, rfl, fun hcounts => by cases hcounts⟩
    · exact ⟨.of_decode 0x0a [] (by decide) (fun _ _ => rfl) (fun _ => rfl)
        fun _ => rfl, rfl, fun hcounts => by cases hcounts⟩
  have htoks : ∀ tok ∈ [textToken [0x61, 0x62], { type := .cc 10 }, { type := .cc 10 }, up, insert,
      scroll, { type := .cc 9 }], StaysInMargins Foundation.latin1 v.screen tok := by
    intro tok htok
    simp only [List.mem_cons, List.not_mem_nil, or_false] at htok
    rcases htok with rfl | rfl | rfl | rfl | rfl | rfl | rfl
    · exact ⟨.text Foundation.latin1_asciiExact (by simp) (by simp [isAsciiText]), rfl,
        fun hcounts => by cases hcounts⟩
    · exact hcontrol 10 (Or.inr rfl)
    · exact hcontrol 10 (Or.inr rfl)
    · exact ⟨hup, by rw [hup']; rfl, fun _ => by rw [hup0, hwidth, hheight]; decide⟩
    · exact ⟨hinsert, by rw [hinsert']; rfl, fun _ => by rw [hinsert0, hwidth, hheight]; decide⟩
    · exact ⟨hscroll, by rw [hscroll']; rfl, fun _ => by rw [hscroll0, hwidth, hheight]; decide⟩
    · exact hcontrol 9 (Or.inl rfl)
  have hkept : Kept v.screen v := ⟨hwf, ⟨hrow, by omega, hfront⟩, rfl, rfl⟩
  refine ⟨v, up, insert, scroll, hreach, hfull, hup', hinsert', hscroll', ?_⟩
  exact (margins_confine_iff hreach hrow (show v.screen.scrollTop < v.screen.scrollBottom by omega)
    hfront htoks).mpr (hkept.guarded (by rw [hwidth]; decide) htoks)

/-- A new object is made 400 columns wide, has its tab stops cleared, gets margins and goes to
their first row: HT leaves the table, and there is no state after it. -/
theorem wide_tab_escapes : ∃ v₀ v₁ v₂ v₃ v : VT100, VT100.init ⟨0, 0, 0⟩ = .ok v₀ ∧
    v₀.setScreenSize 400 25 = .ok v₁ ∧
    v₁.readInputStream Foundation.latin1 clearTabsBytes = .ok v₂ ∧
    v₂.readInputStream Foundation.latin1 setMarginsBytes = .ok v₃ ∧
    v₃.readInputStream Foundation.latin1 [0x0a] = .ok v ∧
    Reachable Foundation.latin1 (.idle, v) ∧ v.screen.Scrolling ∧
    StaysInMargins Foundation.latin1 v.screen { type := .cc 9 } ∧
    execute Foundation.latin1 v { type := .cc 9 } = .error .outOfBounds ∧
    ¬Confines Foundation.latin1 v [{ type := .cc 9 }] := by
  obtain ⟨v₀, v₁, v₂, hv₀, hsize, h₂, hreach₂, hwf₂, hempty₂, horigin₂, hs, hd₂⟩ :=
    wide_untabbed Foundation.latin1
  obtain ⟨v₃, v, h₃, hv, hd, hwf, -⟩ := margins_entered (F := Foundation.latin1) hwf₂ hempty₂
    (hd₂.height_eq.trans hs.height_eq) horigin₂ (hd₂.print_eq.trans hs.print_eq)
  have hreach := (hreach₂.readInputStream h₃).readInputStream hv
  have hm : v.screen.scrollTop = 1 ∧ v.screen.scrollBottom = 2 := hd.margins_eq
  have hy : v.screen.cursorY = 1 := hd.cursor_eq.2
  have hwidth : v.screen.width = 400 := (hd.width_eq.trans hd₂.width_eq).trans hs.width_eq
  have htabs : v.screen.tabStop = Block.alloc tabWindow false :=
    (congrArg Controls.tabStop (hd.controls_eq (t := v.terminal))).trans
      (congrArg Controls.tabStop (hd₂.controls_eq (t := v.terminal)))
  have hscrolling : v.screen.Scrolling := by
    refine ⟨⟨by omega, by omega⟩, by omega, ?_⟩
    have htop : v.screen.topLine = 0 := (hd.topLine_eq.trans hd₂.topLine_eq).trans hs.top_eq
    have hpos := hwf.screen.max_pos
    have hheight := hwf.screen.height_pos
    unfold Screen.RegionInFront Screen.totalHeight
    omega
  have hfault : execute Foundation.latin1 v { type := .cc 9 } = .error .outOfBounds := by
    have htab : v.screen.setTab = .error .outOfBounds := by
      have hx : v.screen.cursorX = 0 := hd.cursor_eq.1
      rcases Screen.setTab_cases hwf.screen (by rw [hx]; decide) with ⟨x, -, -, hahead⟩ | ⟨herr, -⟩
      · rcases hahead with hw | ⟨y, -, -, -, -, hstop⟩
        · rw [hwidth] at hw
          exact absurd hw (by decide)
        · rw [htabs] at hstop
          cases hstop
      · exact herr
    have hput : v.screen.putToken Foundation.latin1 v.terminal { type := .cc 9 } =
        .error .outOfBounds := Screen.putToken_error htab
    have hexecute : execute Foundation.latin1 v { type := .cc 9 } =
        v.putToken Foundation.latin1 { type := .cc 9 } := rfl
    rw [hexecute, VT100.putToken, hput]
    rfl
  refine ⟨v₀, v₁, v₂, v₃, v, hv₀, hsize, h₂, h₃, hv, hreach, hscrolling,
    ⟨.of_decode 0x09 [] (by decide) (fun _ _ => rfl) (fun _ => rfl) fun _ => rfl, rfl,
      fun hcounts => by cases hcounts⟩, hfault, fun hconfines => ?_⟩
  obtain ⟨v', hok, -⟩ := hconfines _ (List.prefix_refl _)
  rw [List.foldlM_cons, hfault] at hok
  cases hok

end VT100

end MobileTerminal
