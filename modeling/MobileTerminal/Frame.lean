import MobileTerminal.ScreenOps

/-!
# What drawing leaves alone

Most handlers only draw: they write cells, set dirty flags and may rebuild the
cached default line. `Draws` says so once, as an equation between the screens
before and after, so every other field of the result can be read off.

`Draws` is reflexive and transitive and goes through counted loops, so a handler
is shown to draw by following its text: one lemma for each way to write a cell
or a line, and then one line for each handler. Nothing is said about which cells
are written. That a handler completes is not said either; the lemmas are about
calls that have.

The cached default line is part of the relation because handlers that clear ask
for it, and a request for another width or other colours replaces it. What is
kept of it is `DefaultOk`: it is long enough for its width and holds no
character.

The handlers that draw are listed here; those that also move the cursor, change
the margins or rotate the ring are described where they are needed.
-/

namespace MobileTerminal

namespace Screen

variable {t : Terminal} {s s' s₁ s₂ s₃ : Screen}

/-- The cached default line is long enough for the width it is kept for and
holds only NULs, its mark included. -/
def DefaultOk (s : Screen) : Prop :=
  ∀ line, s.defaultLine = some line →
    s.defaultLineWidth + 1 ≤ line.size ∧ ∀ i, (line.cell i).ch = 0

/-- `s'` is `s` but for what the cells and the dirty flags hold and for the cached default
line. The blocks keep their sizes, and a sound default line stays sound. -/
def Draws (s s' : Screen) : Prop :=
  (∃ b d line fg bg w, b.size = s.bufferLines.size ∧ d.size = s.dirty.size ∧
    s' = { s with bufferLines := b, dirty := d, defaultLine := line, defaultFgCode := fg,
                  defaultBgCode := bg, defaultLineWidth := w }) ∧
  (s.DefaultOk → s'.DefaultOk)

theorem Draws.refl (s : Screen) : Draws s s :=
  ⟨⟨_, _, _, _, _, _, rfl, rfl, rfl⟩, id⟩

theorem Draws.trans (h : Draws s₁ s₂) (h' : Draws s₂ s₃) : Draws s₁ s₃ := by
  obtain ⟨⟨b, d, line, fg, bg, w, hb, hd, rfl⟩, hl⟩ := h
  obtain ⟨⟨b', d', line', fg', bg', w', hb', hd', rfl⟩, hl'⟩ := h'
  exact ⟨⟨b', d', line', fg', bg', w', hb'.trans hb, hd'.trans hd, rfl⟩, hl' ∘ hl⟩

theorem Draws.bufferLines {b : Block ScreenChar} (h : b.size = s.bufferLines.size) :
    Draws s { s with bufferLines := b } :=
  ⟨⟨_, _, _, _, _, _, h, rfl, rfl⟩, id⟩

theorem Draws.dirty {d : DirtyMap} (h : d.size = s.dirty.size) : Draws s { s with dirty := d } :=
  ⟨⟨_, _, _, _, _, _, rfl, h, rfl⟩, id⟩

theorem Draws.forUp {f : Int → Screen → Res Screen}
    (hf : ∀ i s s', f i s = .ok s' → Draws s s') {lo : Int} {n : Nat}
    (h : forUp f lo n s = .ok s') : Draws s s' :=
  forUp_inv (P := fun _ s' => Draws s s') (fun i _ _ _ _ hP hs => hP.trans (hf i _ _ hs))
    (.refl s) h

theorem Draws.forDown {f : Int → Screen → Res Screen}
    (hf : ∀ i s s', f i s = .ok s' → Draws s s') {hi : Int} {n : Nat}
    (h : forDown f hi n s = .ok s') : Draws s s' :=
  forDown_inv (P := fun _ s' => Draws s s') (fun i _ _ _ _ hP hs => hP.trans (hf i _ _ hs))
    (.refl s) h

/-! ## Dirty flags -/

theorem fill_size {d d' : DirtyMap} {v : Bool} {i n : Int} (h : d.fill v i n = .ok d') :
    d'.size = d.size := by
  unfold DirtyMap.fill at h
  split at h
  · cases h
  · cases h
    rfl

theorem move_size {d d' : DirtyMap} {i k n : Int} (h : d.move i k n = .ok d') :
    d'.size = d.size := by
  unfold DirtyMap.move at h
  split at h
  · cases h
  · cases h
    rfl

theorem touch_draws (i : Int) (s : Screen) : Draws s (s.touch i) := .dirty rfl

theorem dirtyFill_draws {v : Bool} {i n : Int} (h : s.dirtyFill v i n = .ok s') :
    Draws s s' := by
  obtain ⟨d, hd, h⟩ := bind_eq_ok.mp h
  cases h
  exact .dirty (fill_size hd)

theorem refresh_draws (h : s.refresh = .ok s') : Draws s s' := by
  unfold refresh at h
  split at h
  · exact dirtyFill_draws h
  · cases h
    exact .refl s

theorem setDirty_draws (h : s.setDirty = .ok s') : Draws s s' := by
  obtain ⟨s₁, h₁, h₂⟩ := bind_eq_ok.mp h
  exact (dirtyFill_draws h₁).trans (refresh_draws h₂)

/-! ## Cells -/

theorem storeCell_draws {a : Int} {c : ScreenChar} (h : s.storeCell a c = .ok s') :
    Draws s s' := by
  obtain ⟨b, hb, h⟩ := bind_eq_ok.mp h
  cases h
  exact .bufferLines (Block.size_of_store hb)

theorem storeCh_draws {a : Int} {ch : UniChar} (h : s.storeCh a ch = .ok s') : Draws s s' := by
  obtain ⟨c, -, h⟩ := bind_eq_ok.mp h
  exact storeCell_draws h

theorem moveCells_draws {a a' n : Int} (h : s.moveCells a a' n = .ok s') : Draws s s' := by
  obtain ⟨b, hb, h⟩ := bind_eq_ok.mp h
  cases h
  exact .bufferLines (Block.size_of_copy hb)

theorem clearLine_draws {a : Int} {line : Block ScreenChar} (h : s.clearLine a line = .ok s') :
    Draws s s' := by
  obtain ⟨b, hb, h⟩ := bind_eq_ok.mp h
  cases h
  exact .bufferLines (Block.size_of_copy hb)

theorem blankCells_draws {a : Int} {n : Nat} (h : s.blankCells t a n = .ok s') : Draws s s' :=
  .forUp (fun _ _ _ => storeCell_draws) h

theorem newDefaultLine_ch (fg bg : Int) (fresh : ScreenChar) (w i : Int) :
    ((newDefaultLine fg bg fresh w).cell i).ch = 0 := by
  simp only [newDefaultLine]
  split <;> rfl

/-- A default line that is asked for is long enough and holds only NULs. -/
theorem getDefaultLine_ok (h : s.DefaultOk) (fg bg w : Int) :
    w + 1 ≤ (s.getDefaultLine fg bg w).2.size ∧
      ∀ i, ((s.getDefaultLine fg bg w).2.cell i).ch = 0 := by
  unfold getDefaultLine
  split
  · rename_i line hline
    split
    · rename_i hc
      obtain ⟨hsize, hch⟩ := h line hline
      exact ⟨by simp only; omega, hch⟩
    · exact ⟨Int.le_refl _, newDefaultLine_ch fg bg s.fresh w⟩
  · exact ⟨Int.le_refl _, newDefaultLine_ch fg bg s.fresh w⟩

theorem getDefaultLine_draws (fg bg w : Int) (s : Screen) :
    Draws s (s.getDefaultLine fg bg w).1 := by
  have hnew : Draws s (s.buildDefaultLine fg bg w).1 := by
    refine ⟨⟨_, _, _, _, _, _, rfl, rfl, rfl⟩, fun _ line hline => ?_⟩
    cases hline
    exact ⟨Int.le_refl _, newDefaultLine_ch fg bg s.fresh w⟩
  unfold getDefaultLine
  split
  · split
    · exact .refl s
    · exact hnew
  · exact hnew

theorem getDefaultLine_bufferLines (fg bg w : Int) (s : Screen) :
    (s.getDefaultLine fg bg w).1.bufferLines = s.bufferLines := by
  unfold getDefaultLine
  split
  · split <;> rfl
  · rfl

theorem setDefaultLine_draws {a : Int} (h : s.setDefaultLine t a = .ok s') : Draws s s' :=
  (getDefaultLine_draws _ _ _ s).trans (clearLine_draws h)

theorem clearLineAt_draws {get : Screen → Res Int} {line : Block ScreenChar}
    (h : (do let a ← get s; s.clearLine a line) = .ok s') : Draws s s' := by
  obtain ⟨a, -, h⟩ := bind_eq_ok.mp h
  exact clearLine_draws h

/-- Copying a line onto another, both found by lookups. -/
theorem copyLineAt_draws {x y : Res Int} {f g : Int → Int → Int}
    (h : (do let a ← x; let a' ← y; s.copyLine (f a a') (g a a')) = .ok s') : Draws s s' := by
  obtain ⟨a, -, h⟩ := bind_eq_ok.mp h
  obtain ⟨a', -, h⟩ := bind_eq_ok.mp h
  exact moveCells_draws h

/-! ## Handlers -/

theorem clearRows_draws {line : Block ScreenChar} {y : Int} {n : Nat}
    (h : s.clearRows line y n = .ok s') : Draws s s' :=
  .forUp (fun _ _ _ => clearLineAt_draws) h

theorem moveRegionUp_draws (h : s.moveRegionUp = .ok s') : Draws s s' := by
  obtain ⟨source, -, h⟩ := bind_eq_ok.mp h
  obtain ⟨target, -, h⟩ := bind_eq_ok.mp h
  split at h
  · exact moveCells_draws h
  · exact .forUp (fun _ _ _ => copyLineAt_draws) h

theorem moveRegionDown_draws (h : s.moveRegionDown = .ok s') : Draws s s' := by
  unfold moveRegionDown at h
  split at h
  · obtain ⟨source, -, h⟩ := bind_eq_ok.mp h
    obtain ⟨target, -, h⟩ := bind_eq_ok.mp h
    split at h
    · exact moveCells_draws h
    · exact .forDown (fun _ _ _ => copyLineAt_draws) h
  · cases h
    exact .refl s

theorem scrollUpRegion_draws (h : s.scrollUpRegion t = .ok s') : Draws s s' := by
  unfold scrollUpRegion at h
  split at h
  · obtain ⟨s₁, h₁, h⟩ := bind_eq_ok.mp h
    obtain ⟨line, -, h⟩ := bind_eq_ok.mp h
    obtain ⟨s₂, h₂, h⟩ := bind_eq_ok.mp h
    exact (moveRegionUp_draws h₁).trans ((setDefaultLine_draws h₂).trans (dirtyFill_draws h))
  · cases h
    exact .refl s

theorem scrollDown_draws (h : s.scrollDown t = .ok s') : Draws s s' := by
  obtain ⟨-, -, h⟩ := bind_eq_ok.mp h
  obtain ⟨s₁, h₁, h⟩ := bind_eq_ok.mp h
  obtain ⟨line, -, h⟩ := bind_eq_ok.mp h
  obtain ⟨s₂, h₂, h⟩ := bind_eq_ok.mp h
  exact (moveRegionDown_draws h₁).trans ((setDefaultLine_draws h₂).trans (dirtyFill_draws h))

theorem deleteCharacters_draws {n : Int} (h : s.deleteCharacters t n = .ok s') :
    Draws s s' := by
  unfold deleteCharacters at h
  split at h
  · obtain ⟨line, -, h⟩ := bind_eq_ok.mp h
    obtain ⟨s₁, h₁, h⟩ := bind_eq_ok.mp h
    obtain ⟨s₂, h₂, h⟩ := bind_eq_ok.mp h
    have hmove : Draws s s₁ := by
      split at h₁
      · exact moveCells_draws h₁
      · cases h₁
        exact .refl s
    exact hmove.trans ((blankCells_draws h₂).trans (dirtyFill_draws h))
  · cases h
    exact .refl s

theorem insertBlank_draws {n : Int} (h : s.insertBlank t n = .ok s') : Draws s s' := by
  unfold insertBlank at h
  split at h
  · cases h
    exact .refl s
  · obtain ⟨line, -, h⟩ := bind_eq_ok.mp h
    obtain ⟨s₁, h₁, h⟩ := bind_eq_ok.mp h
    obtain ⟨s₂, h₂, h⟩ := bind_eq_ok.mp h
    exact (moveCells_draws h₁).trans ((blankCells_draws h₂).trans (dirtyFill_draws h))

theorem eraseCharacters_draws {n : Int} (h : s.eraseCharacters t n = .ok s') :
    Draws s s' := by
  unfold eraseCharacters at h
  split at h
  · obtain ⟨line, -, h⟩ := bind_eq_ok.mp h
    obtain ⟨s₁, h₁, h⟩ := bind_eq_ok.mp h
    exact (blankCells_draws h₁).trans (dirtyFill_draws h)
  · cases h
    exact .refl s

theorem eraseInLine_draws {p : Int} (h : s.eraseInLine t p = .ok s') : Draws s s' := by
  obtain ⟨line, -, h⟩ := bind_eq_ok.mp h
  obtain ⟨s₁, h₁, h⟩ := bind_eq_ok.mp h
  exact (blankCells_draws h₁).trans (dirtyFill_draws h)

theorem eraseLoop_draws {idx1 idx2 : Int} {r : Int × Screen}
    (h : s.eraseLoop t idx1 idx2 = .ok r) : Draws s r.2 := by
  refine forUp_inv (P := fun _ (q : Int × Screen) => Draws s q.2) ?_ (.refl s) h
  rintro i ⟨a, s₂⟩ ⟨a', s₃⟩ - - hP hs
  obtain ⟨s₄, h₄, hs⟩ := bind_eq_ok.mp hs
  cases hs
  exact hP.trans (storeCell_draws h₄)

theorem eraseInDisplay_draws {p : Int} (h : s.eraseInDisplay t p = .ok s') : Draws s s' := by
  obtain ⟨r, hr, h⟩ := bind_eq_ok.mp h
  exact (eraseLoop_draws hr).trans (dirtyFill_draws h)

theorem alignmentDisplay_draws (h : s.alignmentDisplay t = .ok s') : Draws s s' := by
  obtain ⟨s₁, h₁, h⟩ := bind_eq_ok.mp h
  refine Draws.trans (.forUp ?_ h₁) (setDirty_draws h)
  intro i s s' h
  obtain ⟨line, -, h⟩ := bind_eq_ok.mp h
  obtain ⟨s₂, h₂, h⟩ := bind_eq_ok.mp h
  exact (Draws.forUp (fun _ _ _ => storeCell_draws) h₂).trans (storeCh_draws h)

theorem moveRowsDown_draws {n : Int} (h : s.moveRowsDown n = .ok s') : Draws s s' := by
  unfold moveRowsDown at h
  split at h
  · exact .forDown (fun _ _ _ => copyLineAt_draws) h
  · cases h
    exact .refl s

theorem moveRowsUp_draws {n : Int} (h : s.moveRowsUp n = .ok s') : Draws s s' := by
  unfold moveRowsUp at h
  split at h
  · exact .forUp (fun _ _ _ => copyLineAt_draws) h
  · cases h
    exact .refl s

theorem insertLines_draws {n : Int} (h : s.insertLines t n = .ok s') : Draws s s' := by
  obtain ⟨s₁, h₁, h⟩ := bind_eq_ok.mp h
  obtain ⟨s₂, h₂, h⟩ := bind_eq_ok.mp h
  exact (moveRowsDown_draws h₁).trans ((getDefaultLine_draws _ _ _ _).trans
    ((clearRows_draws h₂).trans (dirtyFill_draws h)))

theorem deleteLines_draws {n : Int} (h : s.deleteLines t n = .ok s') : Draws s s' := by
  obtain ⟨s₁, h₁, h⟩ := bind_eq_ok.mp h
  obtain ⟨s₂, h₂, h⟩ := bind_eq_ok.mp h
  exact (moveRowsUp_draws h₁).trans ((getDefaultLine_draws _ _ _ _).trans
    ((clearRows_draws h₂).trans (dirtyFill_draws h)))

theorem clearScreen_draws (h : s.clearScreen t = .ok s') :
    Draws { s with cursorX := 0, cursorY := 0 } s' := by
  obtain ⟨s₁, h₁, h⟩ := bind_eq_ok.mp h
  have hclear : Draws s s₁ :=
    (getDefaultLine_draws _ _ _ _).trans (.forUp (fun _ _ _ => clearLineAt_draws) h₁)
  refine Draws.trans ?_ (setDirty_draws h)
  obtain ⟨⟨b, d, line, fg, bg, w, hb, hd, rfl⟩, hl⟩ := hclear
  exact ⟨⟨b, d, line, fg, bg, w, hb, hd, rfl⟩, hl⟩

end Screen

end MobileTerminal
