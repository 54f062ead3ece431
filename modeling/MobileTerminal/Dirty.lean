import MobileTerminal.Asserts

/-!
# Writes to the dirty map

The dirty map has one flag for each cell of the screen, and the handlers write
it with `memset` and `memmove` at addresses they compute from the row and the
column. C does not check them. In the model a write outside of the map is not a
fault: the buffer has other memory behind it, the program goes on, and the state
only records that it happened.

`DirtyOk s x` is the statement about a handler: the operation `x`, started in
`s`, passes no negative length to `memset` or `memmove`, and what it has written
to `dirty` when it completes is inside the map. It composes (`DirtyOk.bind`,
`DirtyOk.ite`, `DirtyOk.forUp`), so a handler that is written as a sequence of
steps is treated step by step.

In a well-formed state whose cursor is on the screen it holds of every handler
but two: `cursorUp:` and the placement loop of `setString:ascii:`. These are
left to the module that asks where a whole token writes.
-/

namespace MobileTerminal

variable {F : Foundation} {t : Terminal}

section

variable {α : Type}

theorem nsAssert_length {site : Site} {p : Prop} [Decidable p] :
    nsAssert site p ≠ .error .badLength := by
  unfold nsAssert
  split <;> nofun

theorem Block.load_length (b : Block α) (a : Int) :
    (b.load a : Res α) ≠ .error .badLength := by
  unfold Block.load
  split <;> nofun

theorem Block.store_length (b : Block α) (a : Int) (v : α) :
    (b.store a v : Res (Block α)) ≠ .error .badLength := by
  unfold Block.store
  split <;> nofun

theorem Block.copy_length (dst : Block α) (d : Int) (src : Block α) (k n : Int) :
    (dst.copy d src k n : Res (Block α)) ≠ .error .badLength := by
  unfold Block.copy
  split <;> nofun

end

theorem DirtyMap.set_inside {d : DirtyMap} {i : Int} (h : 0 ≤ i ∧ i < d.size) :
    (d.set i).stray = d.stray := by
  simp [DirtyMap.set, h]

theorem DirtyMap.set_outside {d : DirtyMap} {i : Int} (h : ¬(0 ≤ i ∧ i < d.size)) :
    (d.set i).stray = true := by
  simp [DirtyMap.set, h]

namespace Screen

variable {s s' s₁ : Screen}

structure DirtyOk (s : Screen) (x : Res Screen) : Prop where
  length : x ≠ .error .badLength
  inside : ∀ s', x = .ok s' → s'.dirty.stray = s.dirty.stray

namespace DirtyOk

theorem ok (h : s'.dirty.stray = s.dirty.stray) : DirtyOk s (.ok s') :=
  ⟨nofun, fun _ hok => Except.ok.inj hok ▸ h⟩

theorem start {x : Res Screen} (h : s₁.dirty.stray = s.dirty.stray) (hx : DirtyOk s₁ x) :
    DirtyOk s x :=
  ⟨hx.length, fun s' hok => (hx.inside s' hok).trans h⟩

theorem bind {x : Res Screen} {f : Screen → Res Screen} (hx : DirtyOk s x)
    (hf : ∀ s₁, x = .ok s₁ → DirtyOk s₁ (f s₁)) : DirtyOk s (x >>= f) := by
  refine ⟨fun he => ?_, fun s' hok => ?_⟩
  · rcases bind_eq_error.mp he with hbad | ⟨s₁, h₁, hbad⟩
    · exact hx.length hbad
    · exact (hf s₁ h₁).length hbad
  · obtain ⟨s₁, h₁, hok⟩ := bind_eq_ok.mp hok
    exact ((hf s₁ h₁).inside s' hok).trans (hx.inside s₁ h₁)

/-- A computation on the way that does not change the screen. -/
theorem lookup {α : Type} {x : Res α} {f : α → Res Screen} (hx : x ≠ .error .badLength)
    (hf : ∀ a, x = .ok a → DirtyOk s (f a)) : DirtyOk s (x >>= f) := by
  refine ⟨fun he => ?_, fun s' hok => ?_⟩
  · rcases bind_eq_error.mp he with hbad | ⟨a, ha, hbad⟩
    · exact hx hbad
    · exact (hf a ha).length hbad
  · obtain ⟨a, ha, hok⟩ := bind_eq_ok.mp hok
    exact (hf a ha).inside s' hok

theorem ite {p : Prop} [Decidable p] {x y : Res Screen} (hx : p → DirtyOk s x)
    (hy : ¬p → DirtyOk s y) : DirtyOk s (if p then x else y) := by
  split
  · exact hx ‹p›
  · exact hy ‹¬p›

theorem forUp {f : Int → Screen → Res Screen} {P : Screen → Prop} {lo : Int} {n : Nat}
    (hf : ∀ i s, P s → DirtyOk s (f i s)) (hP : ∀ i s s', P s → f i s = .ok s' → P s')
    (h0 : P s) : DirtyOk s (forUp f lo n s) := by
  induction n generalizing lo s with
  | zero => exact .ok rfl
  | succ n ih => exact .bind (hf lo s h0) fun s₁ h₁ => ih (hP lo s s₁ h0 h₁)

theorem forDown {f : Int → Screen → Res Screen} {hi : Int} {n : Nat}
    (hf : ∀ i s, DirtyOk s (f i s)) : DirtyOk s (forDown f hi n s) := by
  induction n generalizing hi s with
  | zero => exact .ok rfl
  | succ n ih => exact .bind (hf hi s) fun s₁ _ => ih

end DirtyOk

/-! ## Flags and cells -/

theorem touch_stray {i : Int} (h : 0 ≤ i ∧ i < s.dirty.size) :
    (s.touch i).dirty.stray = s.dirty.stray := DirtyMap.set_inside h

theorem dirtyFill_dirtyOk {v : Bool} {i n : Int} (hi : 0 ≤ i) (hn : 0 ≤ n)
    (hsize : i + n ≤ s.dirty.size) : DirtyOk s (s.dirtyFill v i n) := by
  unfold dirtyFill DirtyMap.fill
  rw [if_neg (by omega)]
  refine .ok ?_
  simp [hi, hsize]

theorem Wf.flag_range (h : s.Wf) {x y : Int} (hx : 0 ≤ x) (hx' : x < s.width) (hy : 0 ≤ y)
    (hy' : y < s.height) : 0 ≤ y * s.width + x ∧ y * s.width + x < s.dirty.size := by
  rw [h.dirty_size, Int.mul_comm s.width]
  exact ⟨addr_nonneg hy hx hx', (addr_lt_iff hx hx').mpr hy'⟩

theorem Wf.touch_stray (h : s.Wf) {x y : Int} (hx : 0 ≤ x) (hx' : x < s.width) (hy : 0 ≤ y)
    (hy' : y < s.height) : (s.touch (y * s.width + x)).dirty.stray = s.dirty.stray :=
  Screen.touch_stray (h.flag_range hx hx' hy hy')

theorem Wf.fillRows (h : s.Wf) {v : Bool} {a b : Int} (ha : 0 ≤ a) (hab : a ≤ b + 1)
    (hb : b < s.height) : DirtyOk s (s.dirtyFill v (a * s.width) ((b - a + 1) * s.width)) := by
  have hw := h.width_pos
  refine dirtyFill_dirtyOk (Int.mul_nonneg ha (by omega))
    (Int.mul_nonneg (by omega) (by omega)) ?_
  have hsum : a * s.width + (b - a + 1) * s.width = (b + 1) * s.width := by ring
  rw [hsum, h.dirty_size, Int.mul_comm s.width]
  exact Int.mul_le_mul_of_nonneg_right (by omega) (by omega)

/-- The flags from a cell to one further right in its row. -/
theorem Wf.fillCells (h : s.Wf) {v : Bool} {x y n : Int} (hx : 0 ≤ x) (hn : 0 ≤ n)
    (hx' : x + n ≤ s.width) (hy : 0 ≤ y) (hy' : y < s.height) :
    DirtyOk s (s.dirtyFill v (y * s.width + x) n) := by
  have hw := h.width_pos
  have hrow : 0 ≤ y * s.width := Int.mul_nonneg hy (by omega)
  refine dirtyFill_dirtyOk (by omega) hn ?_
  have hnext : (y + 1) * s.width = y * s.width + s.width := by ring
  have hlast : (y + 1) * s.width ≤ s.height * s.width :=
    Int.mul_le_mul_of_nonneg_right (by omega) (by omega)
  rw [h.dirty_size, Int.mul_comm s.width]
  omega

/-- The map has one flag for each cell of the screen. -/
def MapFits (s : Screen) : Prop := 0 ≤ s.width * s.height ∧ s.dirty.size = s.width * s.height

theorem Wf.mapFits (h : s.Wf) : s.MapFits := ⟨h.area_nonneg, h.dirty_size⟩

theorem MapFits.draws (h : s.MapFits) (hd : Draws s s') : s'.MapFits := by
  obtain ⟨⟨b, d, line, fg, bg, w, -, hsize, rfl⟩, -⟩ := hd
  exact ⟨h.1, hsize.trans h.2⟩

theorem MapFits.fillAll (h : s.MapFits) {v : Bool} :
    DirtyOk s (s.dirtyFill v 0 (s.width * s.height)) :=
  dirtyFill_dirtyOk (Int.le_refl 0) h.1 (by rw [h.2]; omega)

theorem refresh_dirtyOk (h : s.MapFits) : DirtyOk s s.refresh :=
  .ite (fun _ => h.fillAll) fun _ => .ok rfl

theorem setDirty_dirtyOk (h : s.MapFits) : DirtyOk s s.setDirty :=
  .bind h.fillAll fun _ h₁ => refresh_dirtyOk (h.draws (dirtyFill_draws h₁))

theorem storeCell_dirtyOk (a : Int) (c : ScreenChar) (s : Screen) : DirtyOk s (s.storeCell a c) :=
  .lookup (Block.store_length _ _ _) fun _ _ => .ok rfl

theorem storeCh_dirtyOk (a : Int) (ch : UniChar) (s : Screen) : DirtyOk s (s.storeCh a ch) :=
  .lookup (Block.load_length _ _) fun _ _ => storeCell_dirtyOk _ _ s

theorem moveCells_dirtyOk (a a' n : Int) (s : Screen) : DirtyOk s (s.moveCells a a' n) :=
  .lookup (Block.copy_length _ _ _ _ _) fun _ _ => .ok rfl

theorem clearLine_dirtyOk (a : Int) (line : Block ScreenChar) (s : Screen) :
    DirtyOk s (s.clearLine a line) :=
  .lookup (Block.copy_length _ _ _ _ _) fun _ _ => .ok rfl

theorem getDefaultLine_dirty (fg bg w : Int) (s : Screen) :
    (s.getDefaultLine fg bg w).1.dirty = s.dirty := by
  unfold getDefaultLine buildDefaultLine
  split
  · split <;> rfl
  · rfl

theorem setDefaultLine_dirtyOk (a : Int) (s : Screen) : DirtyOk s (s.setDefaultLine t a) :=
  .start (congrArg DirtyMap.stray (getDefaultLine_dirty _ _ _ s)) (clearLine_dirtyOk _ _ _)

theorem blankCells_dirtyOk (a : Int) (n : Nat) (s : Screen) : DirtyOk s (s.blankCells t a n) :=
  .forUp (P := fun _ => True) (fun _ s _ => storeCell_dirtyOk _ _ s) (fun _ _ _ _ _ => trivial)
    trivial

theorem getLineAtScreenIndex_length (i : Int) (s : Screen) :
    s.getLineAtScreenIndex i ≠ .error .badLength := by
  intro he
  rcases bind_eq_error.mp he with he | ⟨u, -, he⟩
  · exact nsAssert_length he
  · cases he

theorem DirtyOk.rowLookup {i : Int} {f : Int → Res Screen} (hf : ∀ line, DirtyOk s (f line)) :
    DirtyOk s (s.getLineAtScreenIndex i >>= f) :=
  .lookup (getLineAtScreenIndex_length i s) fun line _ => hf line

/-! ## Scrolling -/

theorem scrollAsserts_length (s : Screen) : s.scrollAsserts ≠ .error .badLength := by
  intro he
  rcases bind_eq_error.mp he with he | ⟨-, -, he⟩
  · exact nsAssert_length he
  · rcases bind_eq_error.mp he with he | ⟨-, -, he⟩
    · exact nsAssert_length he
    · exact nsAssert_length he

theorem copyLineAt_dirtyOk (i j : Int) (s : Screen) : DirtyOk s (do
    let sourceLine ← s.getLineAtScreenIndex i
    let targetLine ← s.getLineAtScreenIndex j
    s.copyLine targetLine sourceLine) :=
  .rowLookup fun _ => .rowLookup fun _ => moveCells_dirtyOk _ _ _ _

theorem moveRegionUp_dirtyOk (s : Screen) : DirtyOk s s.moveRegionUp := by
  refine .rowLookup fun _ => .rowLookup fun _ => .ite (fun _ => moveCells_dirtyOk _ _ _ _) fun _ => ?_
  exact .forUp (P := fun _ => True) (fun i s _ => copyLineAt_dirtyOk (i + 1) i s)
    (fun _ _ _ _ _ => trivial) trivial

theorem moveRegionDown_dirtyOk (s : Screen) : DirtyOk s s.moveRegionDown := by
  refine .ite (fun _ => ?_) fun _ => .ok rfl
  refine .rowLookup fun _ => .rowLookup fun _ => .ite (fun _ => moveCells_dirtyOk _ _ _ _) fun _ => ?_
  exact .forDown fun i s => copyLineAt_dirtyOk i (i + 1) s

theorem dirtyRegion_dirtyOk (h : s.Wf) : DirtyOk s s.dirtyRegion := by
  have hm := h.margins
  exact h.fillRows hm.1 (by omega) hm.2.2

theorem scrollUpRegion_dirtyOk (h : s.Wf) : DirtyOk s (s.scrollUpRegion t) := by
  refine .ite (fun _ => ?_) fun _ => .ok rfl
  refine .bind (moveRegionUp_dirtyOk s) fun s₁ h₁ => .rowLookup fun _ => ?_
  refine .bind (setDefaultLine_dirtyOk _ s₁) fun s₂ h₂ => dirtyRegion_dirtyOk ?_
  exact ((moveRegionUp_draws h₁).trans (setDefaultLine_draws h₂)).wf h

theorem scrollDown_dirtyOk (h : s.Wf) : DirtyOk s (s.scrollDown t) := by
  refine .lookup (scrollAsserts_length s) fun _ _ => ?_
  refine .bind (moveRegionDown_dirtyOk s) fun s₁ h₁ => .rowLookup fun _ => ?_
  refine .bind (setDefaultLine_dirtyOk _ s₁) fun s₂ h₂ => dirtyRegion_dirtyOk ?_
  exact ((moveRegionDown_draws h₁).trans (setDefaultLine_draws h₂)).wf h

theorem addLineToScrollback_dirty (s : Screen) : s.addLineToScrollback.2.dirty = s.dirty := by
  unfold addLineToScrollback
  split
  · simp only
    split
    · split <;> rfl
    · rfl
  · rfl

/-- The flags move up by one row with the rows, and the last row is dirty. -/
theorem MapFits.moveUp (h : s.MapFits) (hw : 1 ≤ s.width) (hh : 1 ≤ s.height) : DirtyOk s (do
    let d ← s.dirty.move 0 s.width (s.width * (s.height - 1))
    dirtyFill true (s.width * (s.height - 1)) s.width { s with dirty := d }) := by
  have hsize := h.2
  have hrows : s.width + s.width * (s.height - 1) = s.width * s.height := by ring
  have hnonneg : 0 ≤ s.width * (s.height - 1) := Int.mul_nonneg (by omega) (by omega)
  unfold DirtyMap.move
  rw [if_neg (by omega), ok_bind]
  refine .start ?_ (dirtyFill_dirtyOk hnonneg (by omega) ?_)
  · have hin : 0 + s.width * (s.height - 1) ≤ s.dirty.size ∧ 0 ≤ s.width ∧
        s.width + s.width * (s.height - 1) ≤ s.dirty.size := by omega
    simp only [hin, and_self, Int.le_refl, or_true, decide_true, Bool.not_true, Bool.or_false]
  · simp only
    omega

theorem keepTopLine_dirtyOk (h : s.Wf) : DirtyOk s s.keepTopLine := by
  have hw := h.width_pos
  have hh := h.height_pos
  have hd := addLineToScrollback_dirty s
  have hk := addLineToScrollback_keeps s
  have hfits : s.addLineToScrollback.2.MapFits := by
    unfold MapFits
    rw [hd, hk.width_eq, hk.height_eq]
    exact h.mapFits
  refine .ite (fun _ => ?_) fun _ => setDirty_dirtyOk h.mapFits
  refine .start (congrArg DirtyMap.stray hd) ?_
  refine .ite (fun _ => setDirty_dirtyOk hfits) fun _ => hfits.moveUp ?_ ?_
  · rw [hk.width_eq]
    exact hw
  · rw [hk.height_eq]
    exact hh

theorem clearLast_dirtyOk (s : Screen) : DirtyOk s (do
    let aLine ← s.getLineAtScreenIndex (s.height - 1)
    s.setDefaultLine t aLine) :=
  .rowLookup fun _ => setDefaultLine_dirtyOk _ s

theorem newLine_dirtyOk (h : s.Wf) (hstay : ¬s.CanMoveDown) : DirtyOk s (s.setNewLine t) := by
  refine .ite (fun hmove => absurd hmove hstay) fun _ => .ite (fun _ => ?_) fun _ => ?_
  · refine .bind (keepTopLine_dirtyOk h) fun s₁ _ => ?_
    have hlast := clearLast_dirtyOk (t := t)
      { s₁ with screenTop := (incrementLinePointer s₁.screenTop s.totalHeight s₁.width).1 }
    exact ⟨hlast.length, hlast.inside⟩
  · exact .lookup (scrollAsserts_length s) fun _ _ => scrollUpRegion_dirtyOk h

theorem setNewLine_dirtyOk (h : s.Wf) (hy : s.OnScreen) : DirtyOk s (s.setNewLine t) := by
  by_cases hmove : s.CanMoveDown
  · rw [setNewLine_down t hmove]
    refine .ok ?_
    have hx := h.column
    have hm := h.margins
    unfold CanMoveDown at hmove
    unfold OnScreen at hy
    split
    · exact touch_stray (h.flag_range hx.1 hx.2 (by omega) (by omega))
    · rfl
  · exact newLine_dirtyOk h hmove

theorem scrollUp_dirtyOk (h : s.Wf) (hy : s.OnScreen) : DirtyOk s (s.scrollUp t) :=
  .lookup (scrollAsserts_length s) fun _ _ =>
    .ite (fun _ => setNewLine_dirtyOk h hy) fun _ => scrollUpRegion_dirtyOk h

theorem lineFeed_dirtyOk (h : s.Wf) (hy : s.OnScreen) : DirtyOk s (s.lineFeed t) := by
  refine .bind ?_ fun _ _ => .ok rfl
  refine .ite (fun _ => .ok ?_) fun _ => setNewLine_dirtyOk h hy
  unfold printStringToAnsi
  split <;> rfl

theorem index_dirtyOk (h : s.Wf) (hy : s.OnScreen) : DirtyOk s (s.index t) :=
  .ite (fun _ => scrollUp_dirtyOk h hy) fun _ => .ok rfl

theorem reverseIndex_dirtyOk (h : s.Wf) : DirtyOk s (s.reverseIndex t) :=
  .ite (fun _ => scrollDown_dirtyOk h) fun _ => .ok rfl

/-! ## Editing a line -/

theorem backSpace_dirty (s : Screen) : s.backSpace.dirty = s.dirty := by
  unfold backSpace
  split <;> rfl

theorem skipToTab_length {tabs : Block Bool} {w x : Int} {k : Nat} :
    skipToTab tabs w k x ≠ .error .badLength := by
  induction k generalizing x with
  | zero => nofun
  | succ k ih =>
      intro he
      rcases bind_eq_error.mp he with he | ⟨stop, -, he⟩
      · exact Block.load_length _ _ he
      · split at he
        · exact ih he
        · cases he

theorem setTab_dirtyOk (s : Screen) : DirtyOk s s.setTab :=
  .lookup skipToTab_length fun _ _ => .ok rfl

theorem markTab_dirtyOk (v : Bool) (s : Screen) : DirtyOk s (s.markTab v) :=
  .ite (fun _ => .lookup (Block.store_length _ _ _) fun _ _ => .ok rfl) fun _ => .ok rfl

/-- The row of the cursor from the cursor on, after cells have been written. -/
theorem Draws.fillToEnd (hd : Draws s s₁) (h : s.Wf) (hy : s.OnScreen) :
    DirtyOk s₁ (s₁.dirtyFill true (s₁.cursorY * s₁.width + s₁.cursorX) (s₁.width - s₁.cursorX)) := by
  have hwf := hd.wf h
  have hx := hwf.column
  have hy₁ := hd.onScreen hy
  exact hwf.fillCells hx.1 (by omega) (by omega) hy₁.1 hy₁.2

theorem deleteCharacters_dirtyOk {n : Int} (h : s.Wf) : DirtyOk s (s.deleteCharacters t n) := by
  refine .ite (fun hin => ?_) fun _ => .ok rfl
  refine .rowLookup fun _ => .bind ?_ fun s₁ h₁ => ?_
  · exact .ite (fun _ => moveCells_dirtyOk _ _ _ _) fun _ => .ok rfl
  · refine .bind (blankCells_dirtyOk _ _ s₁) fun s₂ h₂ => ?_
    have hd₁ : Draws s s₁ := by
      split at h₁
      · exact moveCells_draws h₁
      · cases h₁
        exact .refl s
    exact (hd₁.trans (blankCells_draws h₂)).fillToEnd h ⟨hin.2.2.1, hin.2.2.2⟩

theorem insertBlank_dirtyOk {n : Int} (h : s.Wf) (hy : s.OnScreen) :
    DirtyOk s (s.insertBlank t n) := by
  refine .ite (fun _ => .ok rfl) fun _ => .rowLookup fun _ => ?_
  refine .bind (moveCells_dirtyOk _ _ _ s) fun s₁ h₁ => ?_
  refine .bind (blankCells_dirtyOk _ _ s₁) fun s₂ h₂ => ?_
  exact ((moveCells_draws h₁).trans (blankCells_draws h₂)).fillToEnd h hy

theorem eraseCharacters_dirtyOk {n : Int} (h : s.Wf) (hy : s.OnScreen) (hn : 0 ≤ n)
    (hmax : n + s.cursorX < 2 ^ 31) : DirtyOk s (s.eraseCharacters t n) := by
  have hx := h.column
  have hj : 0 ≤ s.clampCells n ∧ s.cursorX + s.clampCells n ≤ s.width := by
    have hsum : cint (n + s.cursorX) = n + s.cursorX := cint_of_isInt ⟨by omega, by omega⟩
    unfold clampCells
    rw [hsum]
    split <;> omega
  refine .ite (fun _ => .rowLookup fun _ => ?_) fun _ => .ok rfl
  refine .bind (blankCells_dirtyOk _ _ s) fun s₁ h₁ => ?_
  have hd := blankCells_draws h₁
  have hwf := hd.wf h
  have hy₁ := hd.onScreen hy
  rw [Int.mul_comm s₁.width]
  refine hwf.fillCells hwf.column.1 hj.1 ?_ hy₁.1 hy₁.2
  rw [hd.cursor_eq.1, hd.width_eq]
  exact hj.2

/-! ## Erasing -/

theorem eraseLoop_length {a b : Int} (s : Screen) : s.eraseLoop t a b ≠ .error .badLength := by
  unfold eraseLoop
  generalize (s.screenTop + a, s) = r
  generalize (b - a).toNat = n
  induction n generalizing a r with
  | zero => nofun
  | succ n ih =>
      intro he
      rcases bind_eq_error.mp he with he | ⟨r', -, he⟩
      · rcases bind_eq_error.mp he with he | ⟨s₁, -, he⟩
        · exact (storeCell_dirtyOk _ _ r.2).length he
        · cases he
      · exact ih _ he

theorem eraseLoop_dirty {a b : Int} {r : Int × Screen} (hok : s.eraseLoop t a b = .ok r) :
    r.2.dirty = s.dirty := by
  refine forUp_inv (P := fun _ (r : Int × Screen) => r.2.dirty = s.dirty) ?_ rfl hok
  rintro i ⟨c, s₁⟩ r' - - hI hs
  obtain ⟨s₂, h₂, hs⟩ := bind_eq_ok.mp hs
  obtain ⟨b, -, h₂⟩ := bind_eq_ok.mp h₂
  cases h₂
  cases hs
  exact hI

/-- `eraseInDisplay:` flags the cells from its span's start to its end. -/
theorem eraseSpan_flags (h : s.Wf) (hy : s.OnScreen) (p : Int) :
    0 ≤ (s.eraseSpan p).y1 * s.width + (s.eraseSpan p).x1 ∧
    0 ≤ ((s.eraseSpan p).y2 - (s.eraseSpan p).y1) * s.width +
      ((s.eraseSpan p).x2 - (s.eraseSpan p).x1) ∧
    (s.eraseSpan p).y1 * s.width + (s.eraseSpan p).x1 +
      (((s.eraseSpan p).y2 - (s.eraseSpan p).y1) * s.width +
        ((s.eraseSpan p).x2 - (s.eraseSpan p).x1)) ≤ s.dirty.size := by
  have hx := h.column
  have harea := h.area_nonneg
  have hflag := h.flag_range hx.1 hx.2 hy.1 hy.2
  rw [h.dirty_size] at hflag ⊢
  have hheight : s.height * s.width = s.width * s.height := Int.mul_comm _ _
  have hrest : (s.height - s.cursorY) * s.width = s.height * s.width - s.cursorY * s.width := by
    ring
  unfold eraseSpan
  split
  · rw [if_pos hx.2]
    simp only [Int.zero_mul, Int.sub_zero]
    omega
  · split
    · simp only [Int.zero_mul, Int.sub_zero]
      omega
    · simp only [hrest]
      omega

theorem eraseInDisplay_dirtyOk {p : Int} (h : s.Wf) (hy : s.OnScreen) :
    DirtyOk s (s.eraseInDisplay t p) := by
  obtain ⟨hstart, hlength, hend⟩ := eraseSpan_flags h hy p
  refine .lookup (eraseLoop_length s) fun r hr => ?_
  have hdirty := eraseLoop_dirty hr
  refine .start (congrArg DirtyMap.stray hdirty) ?_
  simp only [(eraseLoop_draws hr).width_eq]
  refine dirtyFill_dirtyOk hstart hlength ?_
  rw [hdirty]
  exact hend

theorem eraseInLine_dirtyOk {p : Int} (h : s.Wf) (hy : s.OnScreen) :
    DirtyOk s (s.eraseInLine t p) := by
  have hx := h.column
  refine .rowLookup fun _ => .bind (blankCells_dirtyOk _ _ s) fun s₁ h₁ => ?_
  have hd := blankCells_draws h₁
  have hwf := hd.wf h
  have hy₁ := hd.onScreen hy
  have hw := hd.width_eq
  by_cases h0 : p = 0
  · rw [if_pos h0, if_neg (by omega), if_pos (Or.inr h0)]
    exact hwf.fillCells hx.1 (by omega) (by omega) hy₁.1 hy₁.2
  · by_cases h1 : p = 1
    · rw [if_neg h0, if_pos h1, if_pos hx.2]
      exact hwf.fillCells (Int.le_refl 0) (by omega) (by omega) hy₁.1 hy₁.2
    · rw [if_neg h0, if_neg h1]
      split
      · exact hwf.fillCells (Int.le_refl 0) (by omega) (by omega) hy₁.1 hy₁.2
      · exact hwf.fillCells (Int.le_refl 0) (by omega) (by omega) hy₁.1 hy₁.2

theorem alignmentDisplay_dirtyOk (h : s.Wf) : DirtyOk s (s.alignmentDisplay t) := by
  refine .bind ?_ fun s₁ h₁ => setDirty_dirtyOk (h.mapFits.draws ?_)
  · refine .forUp (P := fun _ => True) (fun i s _ => ?_) (fun _ _ _ _ _ => trivial) trivial
    refine .rowLookup fun _ => .bind ?_ fun s₁ _ => storeCh_dirtyOk _ _ s₁
    exact .forUp (P := fun _ => True) (fun _ s _ => storeCell_dirtyOk _ _ s)
      (fun _ _ _ _ _ => trivial) trivial
  · refine .forUp (fun i s s' hs => ?_) h₁
    obtain ⟨line, -, hs⟩ := bind_eq_ok.mp hs
    obtain ⟨s₂, h₂, hs⟩ := bind_eq_ok.mp hs
    exact (Draws.forUp (fun _ _ _ => storeCell_draws) h₂).trans (storeCh_draws hs)

/-! ## Inserting and deleting lines -/

theorem clearRows_dirtyOk (line : Block ScreenChar) (y : Int) (n : Nat) (s : Screen) :
    DirtyOk s (s.clearRows line y n) :=
  .forUp (P := fun _ => True) (fun _ s _ => .rowLookup fun _ => clearLine_dirtyOk _ _ s)
    (fun _ _ _ _ _ => trivial) trivial

/-- After the rows have been moved and cleared, those from the cursor to the bottom
margin are dirty. -/
theorem Draws.fillBelow (hd : Draws s s₁) (h : s.Wf) (hy : s.OnScreen)
    (hbottom : s.cursorY ≤ s.scrollBottom) :
    DirtyOk s₁ (s₁.dirtyFill true (s₁.cursorY * s₁.width)
      ((s₁.scrollBottom - s₁.cursorY + 1) * s₁.width)) := by
  have hwf := hd.wf h
  have hy₁ := hd.onScreen hy
  have hm := hwf.margins
  rw [← hd.cursor_eq.2, ← hd.margins_eq.2] at hbottom
  exact hwf.fillRows hy₁.1 (by omega) hm.2.2

theorem moveRowsDown_dirtyOk (n : Int) (s : Screen) : DirtyOk s (s.moveRowsDown n) :=
  .ite (fun _ => .forDown fun _ s => copyLineAt_dirtyOk _ _ s) fun _ => .ok rfl

theorem moveRowsUp_dirtyOk (n : Int) (s : Screen) : DirtyOk s (s.moveRowsUp n) :=
  .ite (fun _ => .forUp (P := fun _ => True) (fun _ s _ => copyLineAt_dirtyOk _ _ s)
    (fun _ _ _ _ _ => trivial) trivial) fun _ => .ok rfl

theorem clearAndFill_dirtyOk (h : s.Wf) (hy : s.OnScreen) (hbottom : s.cursorY ≤ s.scrollBottom)
    (hd : Draws s s₁) (y : Int) (n : Nat) : DirtyOk s₁ (do
      let aDefaultLine := s₁.getDefaultLineWithWidth t s₁.width
      let s ← aDefaultLine.1.clearRows aDefaultLine.2 y n
      s.dirtyFill true (s.cursorY * s.width) ((s.scrollBottom - s.cursorY + 1) * s.width)) := by
  have hline := getDefaultLine_draws t.foregroundColorCode t.backgroundColorCode s₁.width s₁
  refine .start (congrArg DirtyMap.stray (getDefaultLine_dirty t.foregroundColorCode
    t.backgroundColorCode s₁.width s₁)) ?_
  refine .bind (clearRows_dirtyOk _ _ _ _) fun s₂ h₂ => ?_
  exact ((hd.trans hline).trans (clearRows_draws h₂)).fillBelow h hy hbottom

theorem insertLines_dirtyOk {n : Int} (h : s.Wf) (hy : s.OnScreen)
    (hbottom : s.cursorY ≤ s.scrollBottom) : DirtyOk s (s.insertLines t n) :=
  .bind (moveRowsDown_dirtyOk n s) fun _ h₁ =>
    clearAndFill_dirtyOk h hy hbottom (moveRowsDown_draws h₁) _ _

theorem deleteLines_dirtyOk {n : Int} (h : s.Wf) (hy : s.OnScreen)
    (hbottom : s.cursorY ≤ s.scrollBottom) : DirtyOk s (s.deleteLines t n) :=
  .bind (moveRowsUp_dirtyOk n s) fun _ h₁ =>
    clearAndFill_dirtyOk h hy hbottom (moveRowsUp_draws h₁) _ _

end Screen

end MobileTerminal
