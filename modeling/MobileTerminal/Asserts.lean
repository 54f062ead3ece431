import MobileTerminal.Keeps

/-!
# Assertions and endless loops

Which `NSParameterAssert`s can stop an operation, and whether it ends. In a
well-formed state the assertions on the margins, on the saved column and on the
index given to `getLineAtIndex:` hold wherever they are evaluated. What is left
depends on the state: `lineOffset` and `restoreY` on the row of the cursor,
`streamLength` on the bytes that a token claims.

`bad` is the set of faults of interest. Each lemma asks for what keeps the
operation from them, and only for that: nothing has to be known about the row
for a set without `lineOffset`, and nothing about the state for a set without
assertions. So one lemma for each handler serves the results on margins, on the
row of the cursor and on the ends of loops, where three families would repeat
the same walk through the source.

A lemma of this file does not say that an operation completes. Accesses outside
the memory are left out by `Avoids`, and whether they happen is a question for
the specifications of the handlers.

Most lemmas are composed from those on lookups, flags and cells by the rules of
`Avoids` for `bind`, choices and loops. What has to be shown about numbers is in
two places: the rows that inserting and deleting lines look up (`LinesFit`), and
the rows the copy loops of a resize read (`widerRows_row`, `narrowerRows_row`).
-/

namespace MobileTerminal

variable {bad : Fault Site → Prop} {F : Foundation} {t : Terminal}

theorem nsAssert_avoids {site : Site} {p : Prop} [Decidable p] (h : bad (.assertion site) → p) :
    Avoids bad (nsAssert site p) := by
  unfold nsAssert
  split
  · exact .ok ()
  · rename_i hp
    intro e _ hb he
    cases he
    exact hp (h hb)

/-- Some assertion of the screen is of interest. The one on the bytes a token claims is
`getNextToken`'s own, and no handler of the screen comes near it. -/
def Checks (bad : Fault Site → Prop) : Prop :=
  ∃ site, site ≠ .streamLength ∧ bad (.assertion site)

section

variable {α : Type}

theorem Block.load_avoids (b : Block α) (a : Int) : Avoids bad (b.load a) :=
  .ite (fun _ => .ok _) fun _ => .memory rfl

theorem Block.store_avoids (b : Block α) (a : Int) (v : α) : Avoids bad (b.store a v) :=
  .ite (fun _ => .ok _) fun _ => .memory rfl

theorem Block.copy_avoids (dst : Block α) (d : Int) (src : Block α) (s n : Int) :
    Avoids bad (dst.copy d src s n) :=
  .ite (fun _ => .ok _) fun _ => .memory rfl

end

namespace Screen

variable {s s' : Screen}

/-- The cursor's row is a row of the screen. -/
def OnScreen (s : Screen) : Prop := 0 ≤ s.cursorY ∧ s.cursorY < s.height

instance (s : Screen) : Decidable s.OnScreen := inferInstanceAs (Decidable (_ ∧ _))

theorem Draws.onScreen (hd : Draws s s') (h : s.OnScreen) : s'.OnScreen := by
  unfold OnScreen at *
  rw [hd.cursor_eq.2, hd.height_eq]
  exact h

/-! ## Cells, flags and lines -/

theorem dirtyFill_avoids (v : Bool) (i n : Int) (s : Screen) : Avoids bad (s.dirtyFill v i n) :=
  Avoids.bind (.ite (fun _ => .memory rfl) fun _ => .ok _) fun _ _ => .ok _

theorem refresh_avoids (s : Screen) : Avoids bad s.refresh :=
  .ite (fun _ => dirtyFill_avoids _ _ _ _) fun _ => .ok _

theorem setDirty_avoids (s : Screen) : Avoids bad s.setDirty :=
  Avoids.bind (dirtyFill_avoids _ _ _ _) fun _ _ => refresh_avoids _

theorem storeCell_avoids (a : Int) (c : ScreenChar) (s : Screen) : Avoids bad (s.storeCell a c) :=
  Avoids.bind (Block.store_avoids _ _ _) fun _ _ => .ok _

theorem storeCh_avoids (a : Int) (ch : UniChar) (s : Screen) : Avoids bad (s.storeCh a ch) :=
  Avoids.bind (Block.load_avoids _ _) fun _ _ => storeCell_avoids _ _ _

theorem moveCells_avoids (a a' n : Int) (s : Screen) : Avoids bad (s.moveCells a a' n) :=
  Avoids.bind (Block.copy_avoids _ _ _ _ _) fun _ _ => .ok _

theorem clearLine_avoids (a : Int) (line : Block ScreenChar) (s : Screen) :
    Avoids bad (s.clearLine a line) :=
  Avoids.bind (Block.copy_avoids _ _ _ _ _) fun _ _ => .ok _

theorem setDefaultLine_avoids (a : Int) (s : Screen) : Avoids bad (s.setDefaultLine t a) :=
  clearLine_avoids _ _ _

theorem blankCells_avoids (a : Int) (n : Nat) (s : Screen) : Avoids bad (s.blankCells t a n) :=
  .forUp (P := fun _ _ => True) (fun _ _ _ _ _ => storeCell_avoids _ _ _)
    (fun _ _ _ _ _ _ _ => trivial) trivial

theorem getLineAtScreenIndex_avoids {i : Int} (h : bad (.assertion .lineOffset) → 0 ≤ i)
    (s : Screen) : Avoids bad (s.getLineAtScreenIndex i) :=
  Avoids.bind (nsAssert_avoids h) fun _ _ => .ok _

theorem getLineAtIndex_avoids {i : Int}
    (h : bad (.assertion .lineOffset) ∨ bad (.assertion .lineIndex) → 0 ≤ i) (s : Screen) : Avoids bad (s.getLineAtIndex i) :=
  Avoids.bind (nsAssert_avoids fun hb => h (Or.inr hb)) fun _ _ =>
    Avoids.bind (nsAssert_avoids fun hb => h (Or.inl hb)) fun _ _ => .ok _

/-- A row lookup on the way to something else. -/
theorem rowLookup_avoids {β : Type} {i : Int} {f : Int → Res β}
    (h : bad (.assertion .lineOffset) → 0 ≤ i) (hf : ∀ line, Avoids bad (f line)) (s : Screen) :
    Avoids bad (s.getLineAtScreenIndex i >>= f) :=
  Avoids.bind (getLineAtScreenIndex_avoids h s) fun line _ => hf line

/-! ## Scrolling -/

theorem scrollAsserts_avoids (h : Checks bad → s.Wf) : Avoids bad s.scrollAsserts := by
  have hm : Checks bad → _ := fun hc => (h hc).margins
  refine Avoids.bind (nsAssert_avoids fun hb => ?_) fun _ _ =>
    Avoids.bind (nsAssert_avoids fun hb => ?_) fun _ _ => nsAssert_avoids fun hb => ?_
  · have := hm ⟨_, by decide, hb⟩
    omega
  · have := hm ⟨_, by decide, hb⟩
    omega
  · exact (hm ⟨_, by decide, hb⟩).2.1

theorem moveRegionUp_avoids (h : Checks bad → s.Wf) : Avoids bad s.moveRegionUp := by
  have htop : bad (.assertion .lineOffset) → 0 ≤ s.scrollTop ∧ 0 ≤ s.scrollBottom := fun hb => by
    have := (h ⟨_, by decide, hb⟩).margins
    omega
  refine rowLookup_avoids (fun hb => (htop hb).1) (fun _ => ?_) s
  refine rowLookup_avoids (fun hb => (htop hb).2) (fun _ => ?_) s
  refine .ite (fun _ => moveCells_avoids _ _ _ _) fun _ => ?_
  refine .forUp (P := fun _ _ => True) (fun i s hi _ _ => ?_) (fun _ _ _ _ _ _ _ => trivial) trivial
  refine rowLookup_avoids (fun hb => ?_) (fun _ => ?_) s
  · have := htop hb
    omega
  · refine rowLookup_avoids (fun hb => ?_) (fun _ => moveCells_avoids _ _ _ _) s
    have := htop hb
    omega

theorem moveRegionDown_avoids (h : Checks bad → s.Wf) : Avoids bad s.moveRegionDown := by
  have htop : bad (.assertion .lineOffset) → 0 ≤ s.scrollTop ∧ 0 ≤ s.scrollBottom := fun hb => by
    have := (h ⟨_, by decide, hb⟩).margins
    omega
  refine .ite (fun hlt => ?_) fun _ => .ok s
  refine rowLookup_avoids (fun hb => (htop hb).1) (fun _ => ?_) s
  refine rowLookup_avoids (fun hb => (htop hb).2) (fun _ => ?_) s
  refine .ite (fun _ => moveCells_avoids _ _ _ _) fun _ => ?_
  refine .forDown (P := fun _ _ => True) (fun i s _ hi _ => ?_) (fun _ _ _ _ _ _ _ => trivial)
    trivial
  refine rowLookup_avoids (fun hb => ?_) (fun _ => ?_) s
  · have := htop hb
    omega
  · refine rowLookup_avoids (fun hb => ?_) (fun _ => moveCells_avoids _ _ _ _) s
    have := htop hb
    omega

theorem scrollUpRegion_avoids (h : Checks bad → s.Wf) : Avoids bad (s.scrollUpRegion t) := by
  refine .ite (fun _ => ?_) fun _ => .ok s
  refine Avoids.bind (moveRegionUp_avoids h) fun s₁ h₁ => ?_
  refine rowLookup_avoids (fun hb => ?_) (fun _ => ?_) s₁
  · have hm := ((moveRegionUp_draws h₁).wf (h ⟨_, by decide, hb⟩)).margins
    omega
  · exact Avoids.bind (setDefaultLine_avoids _ _) fun _ _ => dirtyFill_avoids _ _ _ _

theorem keepTopLine_avoids (s : Screen) : Avoids bad s.keepTopLine := by
  refine .ite (fun _ => ?_) fun _ => setDirty_avoids s
  refine .ite (fun _ => setDirty_avoids _) fun _ => ?_
  exact Avoids.bind (.ite (fun _ => .memory rfl) fun _ => .ok _) fun _ _ => dirtyFill_avoids _ _ _ _

theorem setNewLine_avoids (h : Checks bad → s.Wf) : Avoids bad (s.setNewLine t) := by
  refine .ite (fun _ => .ok _) fun _ => ?_
  refine .ite (fun _ => ?_) fun _ => ?_
  · refine Avoids.bind (keepTopLine_avoids s) fun s₁ h₁ => ?_
    refine rowLookup_avoids (fun hb => ?_) (fun _ => setDefaultLine_avoids _ _) _
    have hwf := h ⟨_, by decide, hb⟩
    have hpos := hwf.height_pos
    have hheight : s₁.height = s.height := by
      rw [(keepTopLine_draws hwf h₁).height_eq, hwf.addLineToScrollback_eq]
      split <;> rfl
    show 0 ≤ s₁.height - 1
    omega
  · exact Avoids.bind (scrollAsserts_avoids h) fun _ _ => scrollUpRegion_avoids h

theorem scrollUp_avoids (h : Checks bad → s.Wf) : Avoids bad (s.scrollUp t) :=
  Avoids.bind (scrollAsserts_avoids h) fun _ _ =>
    .ite (fun _ => setNewLine_avoids h) fun _ => scrollUpRegion_avoids h

theorem scrollDown_avoids (h : Checks bad → s.Wf) : Avoids bad (s.scrollDown t) := by
  refine Avoids.bind (scrollAsserts_avoids h) fun _ _ => ?_
  refine Avoids.bind (moveRegionDown_avoids h) fun s₁ h₁ => ?_
  refine rowLookup_avoids (fun hb => ?_) (fun _ => ?_) s₁
  · exact ((moveRegionDown_draws h₁).wf (h ⟨_, by decide, hb⟩)).margins.1
  · exact Avoids.bind (setDefaultLine_avoids _ _) fun _ _ => dirtyFill_avoids _ _ _ _

/-! ## Text -/

/-- A line feed keeps the cursor on the screen. -/
theorem setNewLine_onScreen (h : s.Wf) (hy : s.OnScreen) (hok : s.setNewLine t = .ok s') :
    s'.OnScreen := by
  have hm := h.margins
  obtain ⟨hmove, hd⟩ | ⟨-, -, hd⟩ | ⟨-, -, hd⟩ := setNewLine_cases h hok
  · refine hd.onScreen ?_
    unfold CanMoveDown at hmove
    unfold OnScreen at *
    simp only
    omega
  · refine hd.onScreen ?_
    rw [h.rotate_eq]
    split <;> exact hy
  · exact hd.onScreen hy

theorem putCell_onScreen {c : ScreenChar} (h : s.Wf) (hy : s.OnScreen)
    (hok : s.putCell t c = .ok s') : s'.OnScreen := by
  obtain ⟨-, hd⟩ | ⟨-, s₁, hd, hnl⟩ := putCell_cases hok
  · exact hd.onScreen (s := { s with cursorX := s.cursorX + 1 }) hy
  · have hwf : Wf { s with cursorX := 0 } := h.withCursorX (Int.le_refl 0) h.width_pos
    exact setNewLine_onScreen (hd.wf hwf) (hd.onScreen (s := { s with cursorX := 0 }) hy) hnl

theorem putCell_avoids {c : ScreenChar} (h : Checks bad → s.Wf)
    (hy : bad (.assertion .lineOffset) → s.OnScreen) : Avoids bad (s.putCell t c) := by
  refine rowLookup_avoids (fun hb => (hy hb).1) (fun _ => ?_) s
  refine Avoids.bind (storeCell_avoids _ _ _) fun s₁ h₁ => ?_
  have hd := storeCell_draws h₁
  refine .ite (fun _ => ?_) fun _ => .ok _
  have hstep : Draws { s₁ with cursorX := 0 } { s₁.stepRight with cursorX := 0 } :=
    (stepRight_draws s₁).withCursorX 0
  have hwf : Checks bad → Wf { s₁.stepRight with cursorX := 0 } := fun hc =>
    hstep.wf ((hd.wf (h hc)).withCursorX (Int.le_refl 0) (hd.wf (h hc)).width_pos)
  refine rowLookup_avoids (fun hb => ?_) (fun _ => ?_) _
  · exact ((hd.trans (.refl s₁)).onScreen (hy hb)).1
  · refine Avoids.bind (storeCh_avoids _ _ _) fun s₂ h₂ => ?_
    exact setNewLine_avoids fun hc => (storeCh_draws h₂).wf (hwf hc)

theorem setString_avoids {string : List UniChar} {ascii : Bool} (h : Checks bad → s.Wf)
    (hy : bad (.assertion .lineOffset) → s.OnScreen) :
    Avoids bad (s.setString F t string ascii) := by
  refine .ite (fun _ => .ok s) fun _ => ?_
  refine Avoids.bind ?_ fun cells _ => ?_
  · refine Avoids.bind (.ite (fun _ => ?_) fun _ => .ok _) fun _ _ => .ok _
    exact Avoids.bind (Block.load_avoids _ _) fun _ _ => .ok _
  · exact .foldlM (P := fun s => (Checks bad → s.Wf) ∧
        (bad (.assertion .lineOffset) → s.OnScreen))
      (fun s c hs => putCell_avoids hs.1 hs.2)
      (fun s c s' hs hok => ⟨fun hc => putCell_wf (hs.1 hc) hok,
        fun hb => putCell_onScreen (hs.1 ⟨_, by decide, hb⟩) (hs.2 hb) hok⟩) ⟨h, hy⟩

/-! ## Editing and erasing -/

theorem deleteCharacters_avoids {n : Int} (s : Screen) : Avoids bad (s.deleteCharacters t n) := by
  refine .ite (fun hin => ?_) fun _ => .ok s
  refine rowLookup_avoids (fun _ => hin.2.2.1) (fun _ => ?_) s
  refine Avoids.bind (.ite (fun _ => moveCells_avoids _ _ _ _) fun _ => .ok s) fun _ _ => ?_
  exact Avoids.bind (blankCells_avoids _ _ _) fun _ _ => dirtyFill_avoids _ _ _ _

theorem insertBlank_avoids {n : Int} (hy : bad (.assertion .lineOffset) → s.OnScreen) :
    Avoids bad (s.insertBlank t n) := by
  refine .ite (fun _ => .ok s) fun _ => ?_
  refine rowLookup_avoids (fun hb => (hy hb).1) (fun _ => ?_) s
  refine Avoids.bind (moveCells_avoids _ _ _ _) fun _ _ => ?_
  exact Avoids.bind (blankCells_avoids _ _ _) fun _ _ => dirtyFill_avoids _ _ _ _

theorem eraseCharacters_avoids {n : Int} (hy : bad (.assertion .lineOffset) → s.OnScreen) :
    Avoids bad (s.eraseCharacters t n) := by
  refine .ite (fun _ => ?_) fun _ => .ok s
  refine rowLookup_avoids (fun hb => (hy hb).1) (fun _ => ?_) s
  exact Avoids.bind (blankCells_avoids _ _ _) fun _ _ => dirtyFill_avoids _ _ _ _

theorem eraseInLine_avoids {p : Int} (hy : bad (.assertion .lineOffset) → s.OnScreen) :
    Avoids bad (s.eraseInLine t p) := by
  refine rowLookup_avoids (fun hb => (hy hb).1) (fun _ => ?_) s
  exact Avoids.bind (blankCells_avoids _ _ _) fun _ _ => dirtyFill_avoids _ _ _ _

theorem eraseInDisplay_avoids {p : Int} (s : Screen) : Avoids bad (s.eraseInDisplay t p) := by
  refine Avoids.bind ?_ fun _ _ => dirtyFill_avoids _ _ _ _
  refine .forUp (P := fun _ _ => True) (fun _ q _ _ _ => ?_) (fun _ _ _ _ _ _ _ => trivial) trivial
  exact Avoids.bind (storeCell_avoids _ _ _) fun _ _ => .ok _

theorem alignmentDisplay_avoids (s : Screen) : Avoids bad (s.alignmentDisplay t) := by
  refine Avoids.bind ?_ fun _ _ => setDirty_avoids _
  refine .forUp (P := fun _ _ => True) (fun i s hi _ _ => ?_) (fun _ _ _ _ _ _ _ => trivial) trivial
  refine rowLookup_avoids (fun _ => hi) (fun _ => ?_) s
  refine Avoids.bind ?_ fun _ _ => storeCh_avoids _ _ _
  exact .forUp (P := fun _ _ => True) (fun _ _ _ _ _ => storeCell_avoids _ _ _)
    (fun _ _ _ _ _ _ _ => trivial) trivial

/-- The loop ends at the right margin at the latest. -/
theorem skipToTab_avoids (tabs : Block Bool) {w x : Int} {k : Nat} (hk : (w - x).toNat < k) :
    Avoids bad (skipToTab tabs w k x) := by
  induction k generalizing x with
  | zero => omega
  | succ k ih =>
      refine Avoids.bind (Block.load_avoids _ _) fun _ _ => .ite (fun hx => ?_) fun _ => .ok _
      exact ih (by omega)

theorem setTab_avoids (s : Screen) : Avoids bad s.setTab :=
  Avoids.bind (skipToTab_avoids _ (Nat.lt_succ_self _)) fun _ _ => .ok _

theorem markTab_avoids {v : Bool} (s : Screen) : Avoids bad (s.markTab v) :=
  .ite (fun _ => Avoids.bind (Block.store_avoids _ _ _) fun _ _ => .ok _) fun _ => .ok s

/-! ## Inserting and deleting lines -/

/-- The sum of the cursor's row and a number of lines is computed exactly. -/
def LinesFit (s : Screen) (n : Int) : Prop :=
  s.OnScreen ∧ s.height < 2 ^ 31 ∧ 0 ≤ n ∧ s.cursorY + n < 2 ^ 31

theorem LinesFit.cint_sum {n : Int} (h : s.LinesFit n) : cint (n + s.cursorY) = n + s.cursorY :=
  cint_of_isInt ⟨by have := h.1.1; have := h.2.2.1; omega, by have := h.2.2.2; omega⟩

theorem LinesFit.numLinesMoved_eq {n : Int} (h : s.Wf) (hn : s.LinesFit n) :
    s.numLinesMoved n = s.scrollBottom - s.cursorY - n := by
  have hm := h.margins
  obtain ⟨hrow, hheight, hpos, hlt⟩ := hn
  unfold OnScreen at hrow
  rw [numLinesMoved, cint_of_isInt (n := s.cursorY + n) ⟨by omega, hlt⟩,
    cint_of_isInt ⟨by omega, by omega⟩]
  omega

theorem LinesFit.draws {n : Int} (hn : s.LinesFit n) (hd : Draws s s') : s'.LinesFit n := by
  unfold LinesFit at *
  rw [hd.cursor_eq.2, hd.height_eq]
  exact ⟨hd.onScreen hn.1, hn.2⟩

theorem moveRowsDown_avoids {n : Int} (h : Checks bad → s.Wf)
    (hn : bad (.assertion .lineOffset) → s.LinesFit n) :
    Avoids bad (s.moveRowsDown n) := by
  refine .ite (fun hle => ?_) fun _ => .ok s
  refine .forDown (P := fun _ s' => Draws s s') (fun i s₁ hi hi' hd => ?_)
    (fun i s₁ s₂ _ _ hd hs => hd.trans (copyLineAt_draws hs)) (.refl s)
  have hrange : bad (.assertion .lineOffset) → 0 ≤ i ∧ s₁.cursorY = s.cursorY ∧ 0 ≤ s.cursorY ∧
      s.cursorY + i + n ≤ s.scrollBottom ∧ 0 ≤ n ∧ s.height < 2 ^ 31 := by
    intro hb
    have hm := (h ⟨_, by decide, hb⟩).margins
    have hnum := (hn hb).numLinesMoved_eq (h ⟨_, by decide, hb⟩)
    obtain ⟨hrow, hheight, hpos, -⟩ := hn hb
    exact ⟨by omega, hd.cursor_eq.2, hrow.1, by omega, hpos, hheight⟩
  refine rowLookup_avoids (fun hb => ?_) (fun _ => ?_) s₁
  · have hm := (h ⟨_, by decide, hb⟩).margins
    obtain ⟨h0, heq, hrow, hle, hpos, hheight⟩ := hrange hb
    rw [cint_of_isInt ⟨by omega, by omega⟩]
    omega
  · refine rowLookup_avoids (fun hb => ?_) (fun _ => moveCells_avoids _ _ _ _) s₁
    have hm := (h ⟨_, by decide, hb⟩).margins
    obtain ⟨h0, heq, hrow, hle, hpos, hheight⟩ := hrange hb
    rw [cint_of_isInt ⟨by omega, by omega⟩]
    omega

theorem moveRowsUp_avoids {n : Int} (h : Checks bad → s.Wf)
    (hn : bad (.assertion .lineOffset) → s.LinesFit n) :
    Avoids bad (s.moveRowsUp n) := by
  refine .ite (fun hle => ?_) fun _ => .ok s
  refine .forUp (P := fun _ s' => Draws s s') (fun i s₁ hi hi' hd => ?_)
    (fun i s₁ s₂ _ _ hd hs => hd.trans (copyLineAt_draws hs)) (.refl s)
  have hrange : bad (.assertion .lineOffset) → s₁.cursorY = s.cursorY ∧ 0 ≤ s.cursorY ∧
      s.cursorY + i + n ≤ s.scrollBottom ∧ 0 ≤ n ∧ s.height < 2 ^ 31 := by
    intro hb
    have hm := (h ⟨_, by decide, hb⟩).margins
    have hnum := (hn hb).numLinesMoved_eq (h ⟨_, by decide, hb⟩)
    obtain ⟨hrow, hheight, hpos, -⟩ := hn hb
    exact ⟨hd.cursor_eq.2, hrow.1, by omega, hpos, hheight⟩
  refine rowLookup_avoids (fun hb => ?_) (fun _ => ?_) s₁
  · have hm := (h ⟨_, by decide, hb⟩).margins
    obtain ⟨heq, hrow, hle, hpos, hheight⟩ := hrange hb
    rw [cint_of_isInt ⟨by omega, by omega⟩]
    omega
  · refine rowLookup_avoids (fun hb => ?_) (fun _ => moveCells_avoids _ _ _ _) s₁
    have hm := (h ⟨_, by decide, hb⟩).margins
    obtain ⟨heq, hrow, hle, hpos, hheight⟩ := hrange hb
    rw [cint_of_isInt ⟨by omega, by omega⟩]
    omega

theorem clearRows_avoids {line : Block ScreenChar} {y : Int} {n : Nat}
    (h : bad (.assertion .lineOffset) → n = 0 ∨ 0 ≤ y ∧ y + n ≤ 2 ^ 31) (s : Screen) :
    Avoids bad (s.clearRows line y n) := by
  refine .forUp (P := fun _ _ => True) (fun i s₁ hi hi' _ => ?_) (fun _ _ _ _ _ _ _ => trivial)
    trivial
  refine rowLookup_avoids (fun hb => ?_) (fun _ => clearLine_avoids _ _ _) s₁
  have hy := h hb
  rw [cint_of_isInt ⟨by omega, by omega⟩]
  omega

theorem clampLines_le {n : Int} (hn : s.LinesFit n) :
    s.clampLines n ≤ s.scrollBottom - s.cursorY + 1 := by
  rw [clampLines, hn.cint_sum]
  split <;> omega

theorem insertLines_avoids {n : Int} (h : Checks bad → s.Wf)
    (hn : bad (.assertion .lineOffset) → s.LinesFit n) :
    Avoids bad (s.insertLines t n) := by
  refine Avoids.bind (moveRowsDown_avoids h hn) fun s₁ h₁ => ?_
  have hd := moveRowsDown_draws h₁
  refine Avoids.bind (clearRows_avoids (fun hb => ?_) _) fun _ _ => dirtyFill_avoids _ _ _ _
  have hm := (h ⟨_, by decide, hb⟩).margins
  have hfit : s₁.LinesFit n := (hn hb).draws hd
  have hle := clampLines_le hfit
  have hrow := hfit.1
  have hheight := hfit.2.1
  unfold OnScreen at hrow
  rw [hd.margins_eq.2] at hle
  rw [hd.height_eq] at hheight
  omega

theorem deleteLines_avoids {n : Int} (h : Checks bad → s.Wf)
    (hn : bad (.assertion .lineOffset) → s.LinesFit n) :
    Avoids bad (s.deleteLines t n) := by
  refine Avoids.bind (moveRowsUp_avoids h hn) fun s₁ h₁ => ?_
  have hd := moveRowsUp_draws h₁
  refine Avoids.bind (clearRows_avoids (fun hb => ?_) _) fun _ _ => dirtyFill_avoids _ _ _ _
  have hm := (h ⟨_, by decide, hb⟩).margins
  have hfit : s₁.LinesFit n := (hn hb).draws hd
  have hle := clampLines_le hfit
  have hrow := hfit.1
  have hheight := hfit.2.1
  unfold OnScreen at hrow
  rw [hd.margins_eq.2] at hle ⊢
  rw [hd.height_eq] at hheight
  omega

/-! ## Tokens -/

theorem lineFeed_avoids (h : Checks bad → s.Wf) : Avoids bad (s.lineFeed t) :=
  Avoids.bind (.ite (fun _ => .ok _) fun _ => setNewLine_avoids h) fun _ _ => .ok _

theorem putControl_avoids {code : Nat} (h : Checks bad → s.Wf) :
    Avoids bad (s.putControl t code) := by
  unfold putControl
  split
  · exact .ok _
  · exact .ok _
  · exact setTab_avoids s
  · exact lineFeed_avoids h
  · exact lineFeed_avoids h
  · exact lineFeed_avoids h
  · exact .ok _
  · exact deleteCharacters_avoids s
  · exact .ok _

theorem restoreCursorPosition_avoids (h : Checks bad → s.Wf)
    (hy : bad (.assertion .restoreY) → 0 ≤ s.saveCursorY ∧ s.saveCursorY < s.height) :
    Avoids bad s.restoreCursorPosition :=
  Avoids.bind (nsAssert_avoids fun hb => (h ⟨_, by decide, hb⟩).saved_column) fun _ _ =>
    Avoids.bind (nsAssert_avoids hy) fun _ _ => .ok _

theorem index_avoids (h : Checks bad → s.Wf) : Avoids bad (s.index t) :=
  .ite (fun _ => scrollUp_avoids h) fun _ => .ok _

theorem reverseIndex_avoids (h : Checks bad → s.Wf) : Avoids bad (s.reverseIndex t) :=
  .ite (fun _ => scrollDown_avoids h) fun _ => .ok _

/-- What a token must find for the assertions on rows to hold. -/
structure RowsOk (s : Screen) (tok : VT100TCC) : Prop where
  row : s.OnScreen
  saved : 0 ≤ s.saveCursorY ∧ s.saveCursorY < s.height
  lines : tok.type = .insln ∨ tok.type = .delln → s.LinesFit (tok.csi.p.cell 0)

theorem dispatch_avoids {tok : VT100TCC} (h : Checks bad → s.Wf)
    (hrows : bad (.assertion .lineOffset) ∨ bad (.assertion .restoreY) → s.RowsOk tok) :
    Avoids bad (s.dispatch F t tok) := by
  have hy : bad (.assertion .lineOffset) → s.OnScreen := fun hb => (hrows (Or.inl hb)).row
  have hlines : tok.type = .insln ∨ tok.type = .delln → bad (.assertion .lineOffset) →
      s.LinesFit (tok.csi.p.cell 0) := fun htype hb => (hrows (Or.inl hb)).lines htype
  have hsaved : bad (.assertion .restoreY) → 0 ≤ s.saveCursorY ∧ s.saveCursorY < s.height :=
    fun hb => (hrows (Or.inr hb)).saved
  clear hrows
  obtain ⟨type, string, code, csi⟩ := tok
  cases type with
  | string => exact .ite (fun _ => .ok _) fun _ => setString_avoids h hy
  | asciiString => exact .ite (fun _ => .ok _) fun _ => setString_avoids h hy
  | cc code => exact putControl_avoids h
  | decaln => exact alignmentDisplay_avoids s
  | decrc => exact restoreCursorPosition_avoids h hsaved
  | ed => exact eraseInDisplay_avoids s
  | el => exact eraseInLine_avoids hy
  | hts => exact markTab_avoids s
  | nel => exact index_avoids fun hc => (h hc).withCursorX (Int.le_refl 0) (h hc).width_pos
  | ind => exact index_avoids h
  | ri => exact reverseIndex_avoids h
  | tbc =>
      exact .ite (fun _ => .ok _) fun _ => .ite (fun _ => markTab_avoids s) fun _ => .ok s
  | ech => exact eraseCharacters_avoids hy
  | insblnk => exact insertBlank_avoids hy
  | insln => exact insertLines_avoids h (hlines (Or.inl rfl))
  | delch => exact deleteCharacters_avoids s
  | delln => exact deleteLines_avoids h (hlines (Or.inr rfl))
  | su =>
      exact .forUp (P := fun _ s => Checks bad → s.Wf) (fun _ _ _ _ h => scrollUp_avoids h)
        (fun _ _ _ _ _ h hs hc => scrollUp_wf (h hc) hs) h
  | sd =>
      exact .forUp (P := fun _ s => Checks bad → s.Wf) (fun _ _ _ _ h => scrollDown_avoids h)
        (fun _ _ _ _ _ h hs hc => (scrollDown_draws hs).wf (h hc)) h
  | _ => exact .ok _

theorem putToken_avoids {tok : VT100TCC} (h : Checks bad → s.Wf)
    (hrows : bad (.assertion .lineOffset) ∨ bad (.assertion .restoreY) → s.RowsOk tok) :
    Avoids bad (s.putToken F t tok) :=
  Avoids.bind (dispatch_avoids h hrows) fun _ _ => .ok _

/-! ## Controls inside a sequence -/

theorem control_avoids {b : UInt8} (h : Checks bad → s.Wf) : Avoids bad (control t s b) := by
  obtain hc | hc | hc | hc | hc | hc | hc := control_cases t s b <;> rw [hc]
  · exact .ok _
  · exact .ok _
  · exact .ok _
  · exact setTab_avoids s
  · exact setNewLine_avoids h
  · exact .ok _
  · exact deleteCharacters_avoids s

theorem setDefault_avoids {n d : Int} (param : CSIParam) : Avoids bad (param.setDefault n d) :=
  Avoids.bind (Block.load_avoids _ _) fun _ _ =>
    Avoids.bind (Block.store_avoids _ _ _) fun _ _ => .ok _

theorem default1_avoids {type : TokenType} {d : Int} (param : CSIParam) :
    Avoids bad (param.default1 type d) :=
  Avoids.bind (setDefault_avoids _) fun _ _ => .ok _

theorem default2_avoids {type : TokenType} {n d n' d' : Int} (param : CSIParam) :
    Avoids bad (param.default2 type n d n' d') :=
  Avoids.bind (setDefault_avoids _) fun _ _ =>
    Avoids.bind (setDefault_avoids _) fun _ _ => .ok _

theorem csiCommand_avoids {height : Int} (param : CSIParam) :
    Avoids bad (csiCommand height param) := by
  unfold csiCommand
  split
  case h_16 =>
    refine Avoids.bind ?_ fun _ _ => .ok _
    exact .forUp (P := fun _ _ => True) (fun _ _ _ _ _ => setDefault_avoids _)
      (fun _ _ _ _ _ _ _ => trivial) trivial
  case h_23 =>
    refine Avoids.bind (Block.load_avoids _ _) fun op _ => ?_
    split
    all_goals first
      | exact default2_avoids param
      | exact .ok _
  case h_25 => exact .ite (fun _ => default1_avoids param) fun _ => .ok _
  all_goals first
    | exact default1_avoids param
    | exact default2_avoids param
    | exact .ok _

theorem csiPrivate_avoids (param : CSIParam) : Avoids bad (csiPrivate param) := by
  unfold csiPrivate
  split
  · exact default1_avoids param
  · exact default1_avoids param
  · exact .ok _

theorem decodeCsi_avoids {datap : List UInt8} (h : Checks bad → s.Wf) :
    Avoids bad (decodeCsi t datap s) := by
  rw [decodeCsi, getCSIParam_eq]
  refine Avoids.bind ?_ fun r _ => ?_
  · refine Avoids.bind ?_ fun _ _ => .ok _
    exact .foldlM (P := fun s => Checks bad → s.Wf) (fun s b hs => control_avoids hs)
      (fun s b s' hs hok hc => control_wf (hs hc) hok) h
  · refine .ite (fun _ => .ok _) fun _ => .ite (fun _ => ?_) fun _ => .ok _
    refine Avoids.bind ?_ fun _ _ => .ok _
    exact .ite (fun _ => csiPrivate_avoids _) fun _ => csiCommand_avoids _

theorem decodeControl_avoids {datap : List UInt8} (h : Checks bad → s.Wf) :
    Avoids bad (decodeControl t datap s) := by
  rw [decodeControl.eq_def]
  refine .ite (fun _ => decodeCsi_avoids h) fun _ => ?_
  split
  · exact .ok _
  · refine .ite (fun _ => .ok _) fun _ => .ite (fun _ => ?_) fun _ => .ok _
    split <;> exact .ok _

/-! ## Sizes and buffers

A resize looks up rows of the old buffer and writes rows of a new one. Both
indices are in range as long as the cursor is on the screen. -/

theorem saveBuffer_avoids (s : Screen) : Avoids bad s.saveBuffer := by
  refine Avoids.bind (.ite (fun _ => Block.copy_avoids _ _ _ _ _) fun _ => ?_) fun _ _ => .ok _
  exact Avoids.bind (Block.copy_avoids _ _ _ _ _) fun _ _ => Block.copy_avoids _ _ _ _ _

theorem restoreBuffer_avoids (s : Screen) : Avoids bad s.restoreBuffer := by
  unfold restoreBuffer
  split
  · exact .ok s
  · refine Avoids.bind (.ite (fun _ => Block.copy_avoids _ _ _ _ _) fun _ => ?_) fun _ _ => ?_
    · exact Avoids.bind (Block.copy_avoids _ _ _ _ _) fun _ _ => Block.copy_avoids _ _ _ _ _
    · exact Avoids.bind (setDirty_avoids _) fun _ _ => .ok _

theorem clearBuffer_avoids (s : Screen) : Avoids bad (s.clearBuffer t) := by
  refine Avoids.bind ?_ fun s₁ _ => Avoids.bind ?_ fun _ _ => ?_
  · refine Avoids.bind ?_ fun _ _ => setDirty_avoids _
    refine .forUp (P := fun _ _ => True) (fun i s hi _ _ => ?_) (fun _ _ _ _ _ _ _ => trivial)
      trivial
    exact rowLookup_avoids (fun _ => hi) (fun _ => clearLine_avoids _ _ _) s
  · refine .ite (fun _ => ?_) fun _ => .ok s₁
    refine Avoids.bind ?_ fun _ _ => .ok _
    refine .forUp (P := fun _ _ => True) (fun i s hi _ _ => ?_) (fun _ _ _ _ _ _ _ => trivial)
      trivial
    exact Avoids.bind (getLineAtIndex_avoids (fun _ => hi) s) fun _ _ => clearLine_avoids _ _ _
  · exact Avoids.bind (setDirty_avoids _) fun _ _ => refresh_avoids _

end Screen

namespace Reflow

variable {r : Reflow}

theorem setMark_avoids {w : Int} {ch : UniChar} (r : Reflow) : Avoids bad (r.setMark w ch) :=
  Avoids.bind (Block.load_avoids _ _) fun _ _ =>
    Avoids.bind (Block.store_avoids _ _ _) fun _ _ => .ok _

theorem putAt_avoids {x : Int} {c : ScreenChar} (r : Reflow) : Avoids bad (r.putAt x c) :=
  Avoids.bind (Block.store_avoids _ _ _) fun _ _ => .ok _

theorem placeCell_avoids {T w x : Int} {c : ScreenChar} (r : Reflow) :
    Avoids bad (r.placeCell T w x c) := by
  refine .ite (fun _ => ?_) fun _ => Avoids.bind (putAt_avoids r) fun _ _ => .ok _
  refine Avoids.bind (Avoids.bind (setMark_avoids r) fun _ _ => setMark_avoids _) fun _ _ => ?_
  exact Avoids.bind (putAt_avoids _) fun _ _ => .ok _

theorem copyFrom_avoids {src : Block ScreenChar} {c n : Int} (r : Reflow) :
    Avoids bad (r.copyFrom src c n) :=
  Avoids.bind (Block.copy_avoids _ _ _ _ _) fun _ _ => .ok _

theorem padRow_avoids {w x : Int} {line : Block ScreenChar} (r : Reflow) :
    Avoids bad (r.padRow w x line) :=
  .ite (fun _ => Avoids.bind (Block.copy_avoids _ _ _ _ _) fun _ _ => .ok _) fun _ => .ok r

end Reflow

namespace Screen

variable {s s' : Screen} {T w : Int} {line : Block ScreenChar}

theorem countNul_avoids (b : Block ScreenChar) (a : Int) (n : Nat) :
    Avoids bad (countNul b a n) := by
  induction n generalizing a with
  | zero => exact .ok _
  | succ n ih =>
      refine Avoids.bind (Block.load_avoids _ _) fun _ _ => ?_
      exact .ite (fun _ => Avoids.bind (ih _) fun _ _ => .ok _) fun _ => .ok _

theorem trimHeight_avoids {k : Nat} {height : Int}
    (h : bad (.assertion .lineOffset) → (k : Int) ≤ height) : Avoids bad (s.trimHeight k height) := by
  induction k generalizing height with
  | zero => exact .ok _
  | succ k ih =>
      refine rowLookup_avoids (fun hb => by have := h hb; omega) (fun _ => ?_) s
      refine Avoids.bind (countNul_avoids _ _ _) fun _ _ => .ite (fun _ => .ok _) fun _ => ?_
      exact ih fun hb => by have := h hb; omega

theorem copyWider_avoids {c1 x1 x2 : Int} {k : Nat} (r : Reflow) :
    Avoids bad (copyWider s T w c1 k x1 r x2) := by
  induction k generalizing x1 x2 r with
  | zero => exact .ok _
  | succ k ih =>
      refine Avoids.bind (countNul_avoids _ _ _) fun _ _ => .ite (fun _ => .ok _) fun _ => ?_
      refine Avoids.bind (Block.load_avoids _ _) fun _ _ => ?_
      exact Avoids.bind (Reflow.placeCell_avoids r) fun q _ => ih q.1

theorem copyNarrower_avoids {c1 x1 x2 : Int} {k : Nat} (r : Reflow) :
    Avoids bad (copyNarrower s T w c1 k x1 r x2) := by
  induction k generalizing x1 x2 r with
  | zero => exact .ok _
  | succ k ih =>
      refine Avoids.bind (countNul_avoids _ _ _) fun _ _ => Avoids.bind ?_ fun _ _ => ?_
      · exact .ite (fun _ => Avoids.bind (Block.load_avoids _ _) fun _ _ => .ok _) fun _ => .ok _
      · refine .ite (fun _ => .ok _) fun _ => Avoids.bind (Block.load_avoids _ _) fun _ _ => ?_
        exact Avoids.bind (Reflow.placeCell_avoids r) fun q _ => ih q.1

theorem widerRows_avoids {fuel : Nat} {y1 c1 x2 : Int} (hd : ¬bad .diverges)
    (hy : 0 ≤ y1) (r : Reflow) :
    Avoids bad (widerRows s T w fuel y1 c1 r x2) := by
  induction fuel generalizing y1 c1 x2 r with
  | zero => exact .diverges hd
  | succ fuel ih =>
      refine Avoids.bind (Block.load_avoids _ _) fun _ _ => .ite (fun _ => ?_) fun _ => .ok _
      refine Avoids.bind (getLineAtIndex_avoids (fun _ => by omega) s) fun _ _ => ?_
      exact Avoids.bind (copyWider_avoids r) fun q _ => ih (by omega) q.1

theorem narrowerRows_avoids {fuel : Nat} {y1 c1 x1 x2 : Int} (hd : ¬bad .diverges)
    (hy : 0 ≤ y1) (r : Reflow) :
    Avoids bad (narrowerRows s T w fuel y1 c1 x1 r x2) := by
  induction fuel generalizing y1 c1 x1 x2 r with
  | zero => exact .diverges hd
  | succ fuel ih =>
      refine Avoids.bind (copyNarrower_avoids r) fun q _ => ?_
      refine Avoids.bind (Block.load_avoids _ _) fun _ _ => .ite (fun _ => ?_) fun _ => .ok _
      refine Avoids.bind (getLineAtIndex_avoids (fun _ => by omega) s) fun _ _ => ?_
      exact ih (by omega) q.1

theorem widerRows_row {fuel : Nat} {y1 y1' c1 x2 x2' : Int} {r r' : Reflow}
    (hok : widerRows s T w fuel y1 c1 r x2 = .ok (r', y1', x2')) : y1 ≤ y1' := by
  induction fuel generalizing y1 c1 x2 r with
  | zero => cases hok
  | succ fuel ih =>
      obtain ⟨mark, -, hok⟩ := bind_eq_ok.mp hok
      split at hok
      · obtain ⟨c, -, hok⟩ := bind_eq_ok.mp hok
        obtain ⟨⟨r₁, x₁⟩, -, hok⟩ := bind_eq_ok.mp hok
        have := ih hok
        omega
      · cases hok
        exact Int.le_refl _

theorem narrowerRows_row {fuel : Nat} {y1 y1' c1 x1 x2 x2' : Int} {r r' : Reflow}
    (hok : narrowerRows s T w fuel y1 c1 x1 r x2 = .ok (r', y1', x2')) : y1 ≤ y1' := by
  induction fuel generalizing y1 c1 x1 x2 r with
  | zero => cases hok
  | succ fuel ih =>
      obtain ⟨⟨r₁, x₁⟩, -, hok⟩ := bind_eq_ok.mp hok
      obtain ⟨mark, -, hok⟩ := bind_eq_ok.mp hok
      split at hok
      · obtain ⟨c, -, hok⟩ := bind_eq_ok.mp hok
        have := ih hok
        omega
      · cases hok
        exact Int.le_refl _

theorem copyLogicalLine_avoids {fuel : Nat} {y1 : Int} (hd : ¬bad .diverges)
    (hy : 0 ≤ y1) (r : Reflow) :
    Avoids bad (copyLogicalLine s T w line fuel y1 r) := by
  refine Avoids.bind (getLineAtIndex_avoids (fun _ => hy) s) fun _ _ => ?_
  refine Avoids.bind (.ite (fun _ => ?_) fun _ => .ite (fun _ => ?_) fun _ => ?_) fun _ _ => .ok _
  · exact Avoids.bind (Reflow.copyFrom_avoids r) fun _ _ => .ok _
  · refine Avoids.bind (Reflow.copyFrom_avoids r) fun _ _ => ?_
    refine Avoids.bind (Reflow.setMark_avoids _) fun _ _ => ?_
    refine Avoids.bind (widerRows_avoids hd hy _) fun _ _ => ?_
    exact Avoids.bind (Reflow.padRow_avoids _) fun _ _ => .ok _
  · refine Avoids.bind (Reflow.copyFrom_avoids r) fun _ _ => ?_
    refine Avoids.bind (Reflow.setMark_avoids _) fun _ _ => ?_
    refine Avoids.bind (narrowerRows_avoids hd hy _) fun _ _ => ?_
    exact Avoids.bind (Reflow.padRow_avoids _) fun _ _ => .ok _

theorem copyLogicalLine_row {fuel : Nat} {y1 y1' : Int} {r r' : Reflow}
    (hok : copyLogicalLine s T w line fuel y1 r = .ok (r', y1')) : y1 ≤ y1' := by
  obtain ⟨c1, -, hok⟩ := bind_eq_ok.mp hok
  obtain ⟨⟨r₁, y₁⟩, h₁, hok⟩ := bind_eq_ok.mp hok
  cases hok
  split at h₁
  · obtain ⟨r₂, -, h₁⟩ := bind_eq_ok.mp h₁
    cases h₁
    exact Int.le_refl _
  · split at h₁
    · obtain ⟨r₂, -, h₁⟩ := bind_eq_ok.mp h₁
      obtain ⟨r₃, -, h₁⟩ := bind_eq_ok.mp h₁
      obtain ⟨⟨r₄, y₄, x₄⟩, h₄, h₁⟩ := bind_eq_ok.mp h₁
      obtain ⟨r₅, -, h₁⟩ := bind_eq_ok.mp h₁
      cases h₁
      exact widerRows_row h₄
    · obtain ⟨r₂, -, h₁⟩ := bind_eq_ok.mp h₁
      obtain ⟨r₃, -, h₁⟩ := bind_eq_ok.mp h₁
      obtain ⟨⟨r₄, y₄, x₄⟩, h₄, h₁⟩ := bind_eq_ok.mp h₁
      obtain ⟨r₅, -, h₁⟩ := bind_eq_ok.mp h₁
      cases h₁
      exact narrowerRows_row h₄

theorem copyRows_avoids {fuel k : Nat} {y1 : Int} (hd : ¬bad .diverges)
    (hy : 0 ≤ y1) (r : Reflow) :
    Avoids bad (copyRows s T w line fuel k y1 r) := by
  induction k generalizing y1 r with
  | zero => exact .diverges hd
  | succ k ih =>
      refine .ite (fun _ => ?_) fun _ => .ok r
      refine Avoids.bind (copyLogicalLine_avoids hd hy r) fun q hq => ih ?_ q.1
      have := copyLogicalLine_row hq
      omega

theorem fillRest_avoids (r : Reflow) : Avoids bad (fillRest T w line r) := by
  refine Avoids.bind ?_ fun _ _ => .ok _
  refine .forUp (P := fun _ _ => True) (fun _ _ _ _ _ => ?_) (fun _ _ _ _ _ _ _ => trivial) trivial
  exact Avoids.bind (Block.copy_avoids _ _ _ _ _) fun _ _ => .ok _

theorem resizeWidth_avoids {width height : Int} (hd : ¬bad .diverges)
    (hy : bad (.assertion .lineOffset) → s.OnScreen) :
    Avoids bad (s.resizeWidth t width height) := by
  refine .ite (fun _ => .ok s) fun _ => ?_
  refine Avoids.bind (trimHeight_avoids fun hb => ?_) fun trimmed _ => ?_
  · have hrow := hy hb
    unfold OnScreen at hrow
    omega
  · refine Avoids.bind (copyRows_avoids hd (Int.le_refl 0) _) fun r _ => ?_
    refine Avoids.bind (.ite (fun _ => .ok _) fun _ => fillRest_avoids r) fun _ _ => ?_
    exact Avoids.bind (setDirty_avoids _) fun _ _ => refresh_avoids _

end Screen

/-! ## The object -/

theorem Terminal.setCharAttr_avoids {tok : VT100TCC} (t : Terminal) :
    Avoids bad (t.setCharAttr tok) := by
  have hfrom : ∀ (k : Nat) (i : Int) (t : Terminal),
      Avoids bad (setCharAttrFrom tok.csi k i t) := by
    intro k
    induction k with
    | zero => exact fun _ _ => .ok _
    | succ k ih =>
        intro i t
        refine Avoids.bind (Block.load_avoids _ _) fun _ _ => Avoids.bind ?_ fun _ _ => ?_
        · exact .ite (fun _ => Avoids.bind (Block.load_avoids _ _) fun _ _ => .ok _) fun _ => .ok _
        · refine .ite (fun _ => ?_) fun _ => ih _ _
          exact Avoids.bind (Block.load_avoids _ _) fun _ _ => .ok _
  exact .ite (fun _ => .ite (fun _ => .ok _) fun _ => hfrom _ _ _) fun _ => .ok _

namespace VT100

variable {v v' : VT100}

theorem setMode_avoids {tok : VT100TCC} (v : VT100) : Avoids bad (v.setMode tok) := by
  have hprivate : ∀ p mode, Avoids bad (v.setPrivateMode p mode) := by
    intro p mode
    unfold setPrivateMode
    simp only
    split
    case h_6 => exact Avoids.bind (Screen.setDirty_avoids _) fun _ _ => .ok _
    case h_12 =>
      refine Avoids.bind ?_ fun _ _ => .ok _
      exact .ite (fun _ => Screen.saveBuffer_avoids _) fun _ => Screen.restoreBuffer_avoids _
    all_goals exact .ok _
  unfold setMode
  simp only
  split
  · exact hprivate _ _
  · exact hprivate _ _
  all_goals exact .ok _

theorem setCharAttr_avoids {tok : VT100TCC} (v : VT100) : Avoids bad (v.setCharAttr tok) :=
  Avoids.bind (Terminal.setCharAttr_avoids _) fun _ _ => .ok _

/-- The token claims bytes that have arrived. -/
def Claims (v : VT100) (n : Nat) : Prop :=
  v.terminal.streamOffset + n ≤ v.terminal.currentStreamLength

theorem advance_avoids {n : Nat} (h : bad (.assertion .streamLength) → v.Claims n) :
    Avoids bad (v.advance n) :=
  .ite (fun _ => Avoids.bind (nsAssert_avoids h) fun _ _ => .ok _) fun _ => .ok _

theorem processToken_avoids {tok : VT100TCC} (h : Checks bad → v.screen.Wf)
    (hrows : bad (.assertion .lineOffset) ∨ bad (.assertion .restoreY) → v.screen.RowsOk tok) :
    Avoids bad (v.processToken F tok) :=
  .ite (fun _ => .ok _) fun _ => Avoids.bind (Screen.putToken_avoids h hrows) fun _ _ => .ok _

/-- Fetching a token trips no assertion but the one on the bytes claimed. -/
theorem getNextToken_avoids (h : Checks bad → v.screen.Wf)
    (htext : bad (.assertion .streamLength) → v.Claims (decodeAsciiString F v.terminal.pending).2)
    (hcontrol : bad (.assertion .streamLength) → ∀ tok n s,
      decodeControl v.terminal v.terminal.pending v.screen = .ok (tok, n, s) → v.Claims n)
    (hstring : bad (.assertion .streamLength) →
      v.Claims (decodeString F v.terminal.pending v.terminal.encoding).2.1)
    (hone : bad (.assertion .streamLength) → v.terminal.pending ≠ [] → v.Claims 1) :
    Avoids bad (v.getNextToken F) := by
  unfold getNextToken
  split
  · exact .ok _
  · rename_i b rest hp
    simp only [← hp]
    have hone : bad (.assertion .streamLength) → v.Claims 1 :=
      fun hb => hone hb (by rw [hp]; exact List.cons_ne_nil _ _)
    refine .ite (fun _ => ?_) fun _ => .ite (fun _ => ?_) fun _ => .ite (fun _ => ?_) fun _ => ?_
    · exact Avoids.bind (advance_avoids htext) fun _ _ => .ok _
    · refine Avoids.bind (Screen.decodeControl_avoids h) fun r hr => ?_
      refine Avoids.bind (setMode_avoids _) fun v₁ h₁ => ?_
      refine Avoids.bind (setCharAttr_avoids _) fun v₂ h₂ => ?_
      refine Avoids.bind (advance_avoids fun hb => ?_) fun _ _ => .ok _
      have hs := (setMode_sameStream h₁).trans (setCharAttr_sameStream h₂)
      have hclaims := hcontrol hb _ _ _ hr
      unfold Claims at *
      rw [hs.offset, hs.length]
      exact hclaims
    · refine .ite (fun _ => ?_) fun _ => ?_
      · exact Avoids.bind (advance_avoids fun hb => hone hb) fun _ _ => .ok _
      · exact Avoids.bind (advance_avoids fun hb => hstring hb) fun _ _ => .ok _
    · exact Avoids.bind (advance_avoids hone) fun _ _ => .ok _

end VT100

end MobileTerminal
