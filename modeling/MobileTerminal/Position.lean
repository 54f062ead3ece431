import MobileTerminal.Sequence
import MobileTerminal.CursorRow

/-!
# Moving the cursor

`tabStop` has `TABWINDOW` entries, whatever the width of the screen is. HT reads
the table column by column and looks at the width only afterwards. As long as
the screen is narrower than the table, or a stop comes before its end, HT finds
the next stop; otherwise it reads past the table (`tabs_iff`). Setting and
clearing a stop compare the column with the size of the table and never leave
it.

`cursorToX:Y:` takes a row that counts from 1 and, in origin mode, from the top
margin. VPR hands it a row that counts from the top of the screen, so the margin
is added to the way the cursor moves, and the row 0, which elsewhere counts as
the first row, is one above the margin (`vertical_iff`). Without a top margin to
count from none of this shows, and the four sequences agree on what a row number
means.

Both results are about a single token. What `putToken:` does besides, the flag
of the position the cursor has left, is taken off once by
`putToken_of_dispatch`.
-/

namespace MobileTerminal

variable {F : Foundation} {t : Terminal}

namespace Screen

variable {s : Screen}

/-- What is executed is what `putToken:` does, but for the old cursor position. -/
theorem putToken_of_dispatch {tok : VT100TCC} {s' : Screen} (h : s.dispatch F t tok = .ok s') :
    ∃ s'', s.putToken F t tok = .ok s'' ∧ s''.cursorX = s'.cursorX ∧ s''.cursorY = s'.cursorY := by
  refine ⟨_, by rw [putToken, h, ok_bind], ?_⟩
  split
  · exact ⟨rfl, rfl⟩
  · exact ⟨rfl, rfl⟩

theorem putToken_error {tok : VT100TCC} {e : Fault Site} (h : s.dispatch F t tok = .error e) :
    s.putToken F t tok = .error e := by
  rw [putToken, h]
  rfl

/-! ## Tab stops -/

/-- The scan from column `x` on ends at the first stop or at the width, unless it leaves the
table first. -/
theorem skipToTab_cases {tabs : Block Bool} (hsize : tabs.size = tabWindow) {w : Int} {k : Nat}
    {x : Int} (hx : 0 ≤ x) (hxw : x ≤ w) (hxt : x ≤ tabWindow) (hk : (w - x).toNat + 1 = k) :
    (∃ x', skipToTab tabs w k x = .ok x' ∧ x ≤ x' ∧ x' ≤ w ∧ x' < tabWindow ∧
        (tabs.cell x' = true ∨ x' = w) ∧ ∀ y, x ≤ y → y < x' → tabs.cell y = false) ∨
      skipToTab tabs w k x = .error .outOfBounds ∧ tabWindow ≤ w ∧
        ∀ y, x ≤ y → y < tabWindow → tabs.cell y = false := by
  induction k generalizing x with
  | zero => omega
  | succ k ih =>
      by_cases hin : x < tabWindow
      · have hload : (tabs.load x : Res Bool) = .ok (tabs.cell x) := Block.load_of_lt hx (by omega)
        by_cases hgo : tabs.cell x = false ∧ x < w
        · -- no stop here: the scan goes on
          have hstep : skipToTab tabs w (k + 1) x = skipToTab tabs w k (x + 1) := by
            simp [skipToTab, hload, ok_bind, hgo]
          rw [hstep]
          rcases ih (x := x + 1) (by omega) (by omega) (by omega) (by omega) with
            ⟨x', hok, hle, hw, ht, hend, hnone⟩ | ⟨herr, hw, hnone⟩
          · refine Or.inl ⟨x', hok, by omega, hw, ht, hend, fun y hy hy' => ?_⟩
            by_cases hyx : y = x
            · exact hyx ▸ hgo.1
            · exact hnone y (by omega) hy'
          · refine Or.inr ⟨herr, hw, fun y hy hy' => ?_⟩
            by_cases hyx : y = x
            · exact hyx ▸ hgo.1
            · exact hnone y (by omega) hy'
        · refine Or.inl ⟨x, ?_, Int.le_refl x, hxw, hin, ?_, fun y hy hy' => by omega⟩
          · simp only [skipToTab, hload, ok_bind]
            rw [if_neg (by simpa using hgo)]
          · by_cases hstop : tabs.cell x = true
            · exact Or.inl hstop
            · exact Or.inr (by
                have := not_and.mp hgo (by simpa using hstop)
                omega)
      · refine Or.inr ⟨?_, by omega, fun y hy hy' => by omega⟩
        have hload : (tabs.load x : Res Bool) = .error .outOfBounds := by
          rw [Block.load, if_neg (by omega)]
        simp only [skipToTab, hload]
        rfl

/-- There is a tab stop in column `y`. -/
def IsStop (s : Screen) (y : Int) : Prop := 0 ≤ y ∧ y < tabWindow ∧ s.tabStop.cell y = true

/-- `x` is the next stop behind the cursor, or the last column when there is none. -/
def NextStop (s : Screen) (x : Int) : Prop :=
  (s.cursorX < x ∧ x < s.width ∧ s.IsStop x ∧ ∀ y, s.cursorX < y → y < x → ¬s.IsStop y) ∨
    x = s.width - 1 ∧ ∀ y, s.cursorX < y → y < s.width → ¬s.IsStop y

/-- HT finds the next stop, and none of the three tokens leaves the table. -/
structure TabsWork (F : Foundation) (t : Terminal) (s : Screen) : Prop where
  ht : ∃ s', s.putToken F t { type := .cc 9 } = .ok s' ∧ s.NextStop s'.cursorX
  hts : ∃ s', s.putToken F t { type := .hts } = .ok s'
  tbc : ∀ csi, ∃ s', s.putToken F t { type := .tbc, csi := csi } = .ok s'

theorem setTab_cases (h : s.Wf) (hx : s.cursorX < tabWindow) :
    (∃ x, s.setTab = .ok { s with cursorX := x } ∧ s.NextStop x ∧
        (s.width < tabWindow ∨ ∃ y, s.cursorX < y ∧ y < s.width ∧ s.IsStop y)) ∨
      s.setTab = .error .outOfBounds ∧ tabWindow ≤ s.width ∧ ∀ y, s.cursorX < y → ¬s.IsStop y := by
  have hcol := h.column
  rcases skipToTab_cases h.tabs (w := s.width) (x := s.cursorX + 1) (by omega) (by omega)
    (by omega) rfl with ⟨x, hok, hle, hw, ht, hend, hnone⟩ | ⟨herr, hw, hnone⟩
  · have hbefore : ∀ y, s.cursorX < y → y < x → ¬s.IsStop y := by
      rintro y hy hyx ⟨-, -, hcell⟩
      rw [hnone y (by omega) hyx] at hcell
      cases hcell
    refine Or.inl ⟨if x ≥ s.width then s.width - 1 else x, ?_, ?_, ?_⟩
    · simp only [setTab, hok, ok_bind]
    · split
      · exact Or.inr ⟨rfl, fun y hy hyw => hbefore y hy (by omega)⟩
      · have hstop : s.IsStop x := ⟨by omega, ht, hend.resolve_right (by omega)⟩
        exact Or.inl ⟨by omega, by omega, hstop, hbefore⟩
    · rcases hend with hstop | rfl
      · by_cases hxw : x < s.width
        · exact Or.inr ⟨x, by omega, hxw, by omega, ht, hstop⟩
        · exact Or.inl (by omega)
      · exact Or.inl ht
  · refine Or.inr ⟨by rw [setTab, herr]; rfl, hw, ?_⟩
    rintro y hy ⟨-, hyt, hcell⟩
    rw [hnone y (by omega) hyt] at hcell
    cases hcell

/-- The scan for the next stop does not leave the table. -/
def TabAhead (s : Screen) : Prop :=
  s.width < tabWindow ∨ ∃ y, s.cursorX < y ∧ y < s.width ∧ s.IsStop y

theorem setTab_total_iff (h : s.Wf) : (∃ s', s.setTab = .ok s') ↔ s.TabAhead := by
  have hcol := h.column
  by_cases hx : s.cursorX < tabWindow
  · rcases setTab_cases h hx with ⟨x, hok, -, hcond⟩ | ⟨herr, hw, hnone⟩
    · exact ⟨fun _ => hcond, fun _ => ⟨_, hok⟩⟩
    · refine ⟨fun hok => ?_, fun hahead => ?_⟩
      · obtain ⟨s', hok⟩ := hok
        rw [herr] at hok
        cases hok
      · rcases hahead with hw' | ⟨y, hy, -, hstop⟩
        · omega
        · exact absurd hstop (hnone y hy)
  · -- the first column looked at is behind the table
    have hload : (s.tabStop.load (s.cursorX + 1) : Res Bool) = .error .outOfBounds := by
      rw [Block.load, if_neg (by rw [h.tabs]; omega)]
    have herr : s.setTab = .error .outOfBounds := by
      simp only [setTab, skipToTab, hload]
      rfl
    refine ⟨fun hok => ?_, fun hahead => ?_⟩
    · obtain ⟨s', hok⟩ := hok
      rw [herr] at hok
      cases hok
    · rcases hahead with hw | ⟨y, hy, -, -, hyt, -⟩ <;> omega

theorem markTab_ok (h : s.Wf) (hx : s.cursorX < tabWindow) (v : Bool) :
    ∃ s', s.markTab v = .ok s' := by
  have hcol := h.column
  rw [markTab, if_pos hcol.2, Block.store_of_lt v hcol.1 (by rw [h.tabs]; exact hx)]
  exact ⟨_, rfl⟩

/-- HT finds the next stop and no access leaves the table exactly when the screen is narrower
than the table or a stop of the table is ahead. -/
theorem tabs_iff (h : s.Wf) :
    TabsWork F t s ↔
      s.width < tabWindow ∨ ∃ y, s.cursorX < y ∧ y < s.width ∧ s.IsStop y := by
  have hcol := h.column
  constructor
  · intro hwork
    have hx : s.cursorX < tabWindow := by
      obtain ⟨s', hok⟩ := hwork.hts
      obtain ⟨s₁, hok, -⟩ := bind_eq_ok.mp hok
      have hok : s.markTab true = .ok s₁ := hok
      rw [markTab, if_pos hcol.2] at hok
      obtain ⟨tabs, hstore, -⟩ := bind_eq_ok.mp hok
      have hrange := (Block.store_eq_ok.mp hstore).1
      rw [h.tabs] at hrange
      exact hrange.2
    rcases setTab_cases h hx with ⟨x, -, -, hcond⟩ | ⟨herr, -⟩
    · exact hcond
    · obtain ⟨s', hok, -⟩ := hwork.ht
      have hdispatch : s.dispatch F t { type := .cc 9 } = .error .outOfBounds := herr
      rw [putToken_error hdispatch] at hok
      cases hok
  · intro hcond
    have hx : s.cursorX < tabWindow := by
      rcases hcond with hw | ⟨y, hy, -, -, hyt, -⟩
      · omega
      · omega
    refine ⟨?_, ?_, fun csi => ?_⟩
    · rcases setTab_cases h hx with ⟨x, hok, hnext, -⟩ | ⟨-, hw, hnone⟩
      · have hdispatch : s.dispatch F t { type := .cc 9 } = .ok { s with cursorX := x } := hok
        obtain ⟨s', hput, hcursor, -⟩ := putToken_of_dispatch hdispatch
        exact ⟨s', hput, hcursor ▸ hnext⟩
      · rcases hcond with hw' | ⟨y, hy, -, hstop⟩
        · omega
        · exact absurd hstop (hnone y hy)
    · obtain ⟨s₁, hok⟩ := markTab_ok h hx true
      have hdispatch : s.dispatch F t { type := .hts } = .ok s₁ := hok
      obtain ⟨s', hput, -⟩ := putToken_of_dispatch hdispatch
      exact ⟨s', hput⟩
    · have hdispatch : ∃ s₁, s.dispatch F t { type := .tbc, csi := csi } = .ok s₁ := by
        show ∃ s₁, (if csi.p.cell 0 = 3 then .ok s.clearTabStop
          else if csi.p.cell 0 = 0 then s.markTab false else .ok s : Res Screen) = .ok s₁
        split
        · exact ⟨_, rfl⟩
        · split
          · exact markTab_ok h hx false
          · exact ⟨_, rfl⟩
      obtain ⟨s₁, hdispatch⟩ := hdispatch
      obtain ⟨s', hput, -⟩ := putToken_of_dispatch hdispatch
      exact ⟨s', hput⟩

/-- On a new terminal, whose 80 columns are fewer than the stops of the table. -/
theorem init_tabs : ∃ v, VT100.init ⟨0, 0, 0⟩ = .ok v ∧
    TabsWork Foundation.latin1 v.terminal v.screen := by
  obtain ⟨v, hv, -, hs⟩ := VT100.init_fresh ⟨0, 0, 0⟩
  refine ⟨v, hv, (tabs_iff hs.wf).mpr (Or.inl ?_)⟩
  rw [hs.width_eq]
  decide

/-- A new terminal is made 400 columns wide and its tab stops are cleared: HT reads behind the
table. -/
theorem wide_tab : ∃ v v' s, VT100.init ⟨0, 0, 0⟩ = .ok v ∧ v.setScreenSize 400 25 = .ok v' ∧
    v'.screen.putToken Foundation.latin1 v'.terminal
      { type := .tbc, csi := { CSIParam.zero with p := Block.alloc csiParamMax 3 } } = .ok s ∧
    s.putToken Foundation.latin1 v'.terminal { type := .cc 9 } = .error .outOfBounds := by
  obtain ⟨v, v', hv, hsize, -, hs⟩ :=
    VT100.sized_fresh ⟨0, 0, 0⟩ (w := 400) (h := 25) (by decide) (by decide)
  have hclear : v'.screen.putToken Foundation.latin1 v'.terminal
      { type := .tbc, csi := { CSIParam.zero with p := Block.alloc csiParamMax 3 } } =
      .ok v'.screen.clearTabStop := by
    simp [putToken, dispatch, Block.alloc, ok_bind, clearTabStop]
  have hwf : v'.screen.clearTabStop.Wf := { hs.wf with tabs := rfl }
  have hx : v'.screen.clearTabStop.cursorX < tabWindow := by
    rw [show v'.screen.clearTabStop.cursorX = v'.screen.cursorX from rfl, hs.cursor.1]
    decide
  have hwidth : v'.screen.clearTabStop.width = 400 := hs.width_eq
  refine ⟨v, v', v'.screen.clearTabStop, hv, hsize, hclear, ?_⟩
  rcases setTab_cases hwf hx with ⟨x, -, -, hcond⟩ | ⟨herr, -⟩
  · rcases hcond with hw | ⟨y, -, -, -, -, hcell⟩
    · rw [hwidth] at hw
      exact absurd hw (by decide)
    · cases hcell
  · exact putToken_error herr

end Screen

/-- `ESC [ 3 g` -/
def VT100.clearTabsBytes : List UInt8 := [0x1b, 0x5b, 0x33, 0x67]

/-- A new object is made wider than the table, and its tab stops are cleared. -/
theorem VT100.wide_untabbed (F : Foundation) : ∃ v₀ v₁ v : VT100, VT100.init ⟨0, 0, 0⟩ = .ok v₀ ∧
    v₀.setScreenSize 400 25 = .ok v₁ ∧ v₁.readInputStream F clearTabsBytes = .ok v ∧
    Reachable F (.idle, v) ∧ v.Wf ∧ v.terminal.pending = [] ∧ v.terminal.originMode = false ∧
    v₁.screen.Fresh 400 25 ∧ v₁.screen.clearTabStop.Draws v.screen := by
  obtain ⟨v₀, v₁, hv₀, hsize, ht, hs⟩ := sized_fresh ⟨0, 0, 0⟩ (w := 400) (h := 25) (by decide)
    (by decide)
  have hsizes : SizesPositive (.idle, v₀) (.setScreenSize 400 25) := by
    simp only [SizesPositive, IsInt]
    decide
  have hreach : Reachable F (.idle, v₁) := (init_reachable hv₀).step (.setScreenSize hsize) hsizes
  obtain ⟨tok, hdecode, htype, hp0⟩ : ∃ tok : VT100TCC,
      (∀ t, decodeControl t clearTabsBytes v₁.screen = .ok (tok, 4, v₁.screen)) ∧
      tok.type = .tbc ∧ tok.csi.p.cell 0 = 3 := ⟨_, fun _ => rfl, rfl, rfl⟩
  have htok : ScreenOnly tok := screenOnly_of_type (by rw [htype]; rfl)
  have hclear : ∀ t, v₁.terminal.SameModes t →
      v₁.screen.dispatch F t tok = .ok v₁.screen.clearTabStop := by
    intro t _
    simp only [Screen.dispatch, htype, hp0, if_true]
  obtain ⟨v, hv, hd, -, hwf, hempty, hmodes⟩ := readInputStream_sequence (reachable_wf hreach)
    (by rw [ht]; rfl) _ _ tok (by decide) hdecode htok hclear
  refine ⟨v₀, v₁, v, hv₀, hsize, hv, hreach.readInputStream hv, hwf, hempty, ?_, hs, hd⟩
  obtain ⟨stream, len, total, off, heq⟩ := hmodes
  rw [heq, ht]
  rfl

namespace Screen

variable {s : Screen}

/-! ## Rows -/

/-- The row from which the rows of CUP, HVP and VPA count. -/
def originRow (t : Terminal) (s : Screen) : Int := if t.originMode then s.scrollTop else 0

/-- CUP, HVP and VPA with row `n` and VPR with `n` go where they should. -/
structure VerticalOk (F : Foundation) (t : Terminal) (s : Screen) (n : Int) : Prop where
  absolute : ∀ tok : VT100TCC, tok.type = .cup ∨ tok.type = .hvp ∨ tok.type = .vpa →
    tok.csi.p.cell 0 = n → ∃ s', s.putToken F t tok = .ok s' ∧
      s'.cursorY = min (s.originRow t + max n 1 - 1) (s.height - 1) ∧
      (tok.type = .vpa → s'.cursorX = s.cursorX)
  relative : ∀ tok : VT100TCC, tok.type = .vpr → tok.csi.p.cell 0 = n →
    ∃ s', s.putToken F t tok = .ok s' ∧ s'.cursorY = min (s.cursorY + n) (s.height - 1) ∧
      s'.cursorX = s.cursorX

theorem cursorToXY_position (t : Terminal) (x y : Int) (s : Screen) :
    (s.cursorToXY t x y).cursorX = clampPos (cint (x - 1)) s.width ∧
      (s.cursorToXY t x y).cursorY =
        clampPos (if t.originMode then cint (cint (y - 1) + s.scrollTop) else cint (y - 1))
          s.height :=
  ⟨rfl, rfl⟩

theorem cursorToXY_row (h : s.Wf) (hheight : IsInt s.height) (x : Int) {y : Int} (hy : 0 ≤ y)
    (hy' : y < 2 ^ 31 - s.height) :
    (s.cursorToXY t x y).cursorY = max 0 (min (s.originRow t + y - 1) (s.height - 1)) := by
  have hm := h.margins
  have hpos := h.height_pos
  unfold IsInt at hheight
  rw [(cursorToXY_position t x y s).2, cint_of_isInt (n := y - 1) ⟨by omega, by omega⟩, originRow,
    clampPos]
  cases t.originMode with
  | false =>
      simp only [Bool.false_eq_true, if_false]
      split
      · omega
      · split <;> omega
  | true =>
      simp only [if_true]
      rw [cint_of_isInt (n := y - 1 + s.scrollTop) ⟨by omega, by omega⟩]
      split
      · omega
      · split <;> omega

theorem cursorToXY_column (h : s.Wf) (hwidth : IsInt s.width) (y : Int) :
    (s.cursorToXY t (s.cursorX + 1) y).cursorX = s.cursorX := by
  have hcol := h.column
  unfold IsInt at hwidth
  rw [(cursorToXY_position t _ y s).1, Int.add_sub_cancel,
    cint_of_isInt ⟨by omega, by omega⟩, clampPos, if_neg (by omega), if_neg (by omega)]

theorem absolute_row (h : s.Wf) (hwidth : IsInt s.width) (hheight : IsInt s.height)
    (tok : VT100TCC) (htype : tok.type = .cup ∨ tok.type = .hvp ∨ tok.type = .vpa)
    (hn : 0 ≤ tok.csi.p.cell 0) (hn' : tok.csi.p.cell 0 < 2 ^ 31 - 2 * s.height) :
    ∃ s', s.putToken F t tok = .ok s' ∧
      s'.cursorY = max 0 (min (s.originRow t + tok.csi.p.cell 0 - 1) (s.height - 1)) ∧
      (tok.type = .vpa → s'.cursorX = s.cursorX) := by
  have hpos := h.height_pos
  have hrow := fun x => cursorToXY_row (t := t) h hheight x hn (by omega)
  by_cases hvpa : tok.type = .vpa
  · have hdispatch : s.dispatch F t tok =
        .ok (s.cursorToXY t (s.cursorX + 1) (tok.csi.p.cell 0)) := by
      simp only [dispatch, hvpa]
    obtain ⟨s', hput, hcolumn, hcursor⟩ := putToken_of_dispatch hdispatch
    exact ⟨s', hput, hcursor.trans (hrow _),
      fun _ => hcolumn.trans (cursorToXY_column h hwidth _)⟩
  · -- CUP and HVP are the same method
    have hdispatch : s.dispatch F t tok =
        .ok (s.cursorToXY t (tok.csi.p.cell 1) (tok.csi.p.cell 0)) := by
      obtain htype | htype | htype := htype
      · simp only [dispatch, htype]
      · simp only [dispatch, htype]
      · exact absurd htype hvpa
    obtain ⟨s', hput, -, hcursor⟩ := putToken_of_dispatch hdispatch
    exact ⟨s', hput, hcursor.trans (hrow _), fun htype => absurd htype hvpa⟩

theorem relative_row (h : s.Wf) (hwidth : IsInt s.width) (hheight : IsInt s.height)
    (hy : s.OnScreen) (tok : VT100TCC) (htype : tok.type = .vpr) (hn : 0 ≤ tok.csi.p.cell 0)
    (hn' : tok.csi.p.cell 0 < 2 ^ 31 - 2 * s.height) :
    ∃ s', s.putToken F t tok = .ok s' ∧
      s'.cursorY = min (s.originRow t + s.cursorY + tok.csi.p.cell 0) (s.height - 1) ∧
      s'.cursorX = s.cursorX := by
  have hm := h.margins
  unfold OnScreen at hy
  have hcint : cint (tok.csi.p.cell 0 + s.cursorY + 1) = tok.csi.p.cell 0 + s.cursorY + 1 :=
    cint_of_isInt ⟨by omega, by omega⟩
  have hdispatch : s.dispatch F t tok =
      .ok (s.cursorToXY t (s.cursorX + 1) (tok.csi.p.cell 0 + s.cursorY + 1)) := by
    simp only [dispatch, htype, hcint]
  obtain ⟨s', hput, hcolumn, hcursor⟩ := putToken_of_dispatch hdispatch
  have horigin : 0 ≤ s.originRow t := by
    unfold originRow
    split <;> omega
  refine ⟨s', hput, ?_, hcolumn.trans (cursorToXY_column h hwidth _)⟩
  rw [hcursor, cursorToXY_row h hheight _ (by omega) (by omega)]
  omega

/-- A token with the row `n`. -/
def rowToken (type : TokenType) (n : Int) : VT100TCC :=
  { type := type, csi := { CSIParam.zero with p := Block.alloc csiParamMax n } }

/-- The tokens go to the right row exactly without a top margin to count from, or else with a
row that is not 0 and that takes VPR to the last row. Rows beyond the screen are the last
row; columns are not moved by VPA and VPR. -/
theorem vertical_iff (h : s.Wf) (hwidth : IsInt s.width) (hheight : IsInt s.height)
    (hy : s.OnScreen) {n : Int} (hn : 0 ≤ n) (hn' : n < 2 ^ 31 - 2 * s.height) :
    VerticalOk F t s n ↔
      (t.originMode = true → s.scrollTop = 0 ∨ 1 ≤ n ∧ s.height - 1 ≤ s.cursorY + n) := by
  have hm := h.margins
  have hrow := hy
  unfold OnScreen at hrow
  constructor
  · intro hok horigin
    have htop : s.originRow t = s.scrollTop := if_pos horigin
    obtain ⟨s₁, h₁, habs, -⟩ := hok.absolute (rowToken .cup n) (Or.inl rfl) rfl
    obtain ⟨s₁', h₁', habs', -⟩ := absolute_row (F := F) (t := t) h hwidth hheight
      (rowToken .cup n) (Or.inl rfl) hn hn'
    obtain ⟨s₂, h₂, hrel, -⟩ := hok.relative (rowToken .vpr n) rfl rfl
    obtain ⟨s₂', h₂', hrel', -⟩ := relative_row (F := F) (t := t) h hwidth hheight hy
      (rowToken .vpr n) rfl hn hn'
    obtain rfl : s₁ = s₁' := Except.ok.inj (h₁.symm.trans h₁')
    obtain rfl : s₂ = s₂' := Except.ok.inj (h₂.symm.trans h₂')
    have hcell : ∀ type, (rowToken type n).csi.p.cell 0 = n := fun _ => rfl
    rw [habs, hcell, htop] at habs'
    rw [hrel, hcell, htop] at hrel'
    omega
  · intro hcond
    have horigin : s.originRow t = 0 ∨
        s.originRow t = s.scrollTop ∧ 1 ≤ n ∧ s.height - 1 ≤ s.cursorY + n := by
      unfold originRow
      cases hmode : t.originMode with
      | false => exact Or.inl rfl
      | true =>
          rcases hcond hmode with htop | hlast
          · exact Or.inl htop
          · exact Or.inr ⟨rfl, hlast⟩
    refine ⟨fun tok htype hp => ?_, fun tok htype hp => ?_⟩
    · obtain ⟨s', hput, hcursor, hcolumn⟩ := absolute_row (F := F) (t := t) h hwidth hheight tok
        htype (hp ▸ hn) (hp ▸ hn')
      refine ⟨s', hput, ?_, hcolumn⟩
      rw [hcursor, hp]
      omega
    · obtain ⟨s', hput, hcursor, hcolumn⟩ := relative_row (F := F) (t := t) h hwidth hheight hy tok
        htype (hp ▸ hn) (hp ▸ hn')
      refine ⟨s', hput, ?_, hcolumn⟩
      rw [hcursor, hp]
      omega

/-- The row 3 on a new terminal, without origin mode and with the top margin in the first row.
-/
theorem init_vertical : ∃ v, VT100.init ⟨0, 0, 0⟩ = .ok v ∧
    VerticalOk Foundation.latin1 v.terminal v.screen 3 := by
  obtain ⟨v, hv, ht, hs⟩ := VT100.init_fresh ⟨0, 0, 0⟩
  have hw : v.screen.width = 80 := hs.width_eq
  have hh : v.screen.height = 25 := hs.height_eq
  have hwidth : IsInt v.screen.width := ⟨by omega, by omega⟩
  have hheight : IsInt v.screen.height := ⟨by omega, by omega⟩
  have hy : v.screen.OnScreen := by
    rw [OnScreen, hs.cursor.2, hh]
    decide
  refine ⟨v, hv, (vertical_iff hs.wf hwidth hheight hy (by decide) ?_).mpr fun horigin => ?_⟩
  · rw [hh]
    decide
  · rw [ht] at horigin
    cases horigin

/-- A new terminal with the margins `2;3` and origin mode on: `ESC [ e` moves the cursor by
two rows. -/
theorem init_vertical_margin : ∃ v v₁ v₂ s, VT100.init ⟨0, 0, 0⟩ = .ok v ∧
    v.readInputStream Foundation.latin1 VT100.setMarginsBytes = .ok v₁ ∧
    v₁.setPrivateMode 6 true = .ok v₂ ∧ v₂.screen.OnScreen ∧ v₂.screen.cursorY = 0 ∧
    v₂.screen.height = 25 ∧
    v₂.screen.putToken Foundation.latin1 v₂.terminal (rowToken .vpr 1) = .ok s ∧ s.cursorY = 2 := by
  obtain ⟨v, hv, ht, hs⟩ := VT100.init_fresh ⟨0, 0, 0⟩
  obtain ⟨v₁, h₁, hd, -, hwf₁, -⟩ := VT100.readInputStream_setMargins (F := Foundation.latin1)
    (VT100.init_wf hv) (by rw [ht]; rfl) (by rw [hs.height_eq]; decide) (by rw [ht]; rfl)
  have hw : v₁.screen.width = 80 := hd.width_eq.trans hs.width_eq
  have hh : v₁.screen.height = 25 := hd.height_eq.trans hs.height_eq
  have hcursor : v₁.screen.cursorY = 0 := hd.cursor_eq.2
  have htop : v₁.screen.scrollTop = 1 := hd.margins_eq.1
  have hy : v₁.screen.OnScreen := by
    rw [OnScreen, hcursor, hh]
    decide
  have hbound : (1 : Int) < 2 ^ 31 - 2 * v₁.screen.height := by
    rw [hh]
    decide
  obtain ⟨s, hput, hrow, -⟩ := relative_row (F := Foundation.latin1)
    (t := { v₁.terminal with originMode := true }) hwf₁.screen ⟨by omega, by omega⟩
    ⟨by omega, by omega⟩ hy (rowToken .vpr 1) rfl (by decide) hbound
  refine ⟨v, v₁, _, s, hv, h₁, rfl, hy, hcursor, hh, hput, ?_⟩
  rw [hrow, hcursor, hh, originRow, htop]
  rfl

end Screen

end MobileTerminal
