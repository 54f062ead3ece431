import MobileTerminal.Overflow
import MobileTerminal.Position

/-!
# Characters are inserted, deleted and erased

ICH, DCH and ECH move and blank cells of the cursor's row. Column by column,
each of them is a `memmove` inside the row and a loop of blanks
(`moveInRow_cells`, `blankInRow_cells`); taken together the row is cut at the
cursor, and `m` cells are put in, taken out or replaced (`characters_splice`).
The cell behind the row, which holds its wrap mark, is neither moved nor
written.

`spliceIn`, `spliceOut` and `spliceOver` say on a list of cells what the three
sequences are for. `Spliced` connects them to two screens: the cells of the
cursor's row are the spliced ones, coloured like a new blank where cells have
come in, and nothing else has changed, which includes the mark, every other row
of the ring and the cursor.

The number `m` is the parameter as far as the rest of the row allows. This is
where the bound on the parameter comes in: the code clamps it after adding the
column, so the sum must be an `int`.
-/

namespace MobileTerminal

/-- Cells `x` .. of `l` move back by `m`, and those that leave the row are lost. -/
def spliceIn {α : Type} (l : List α) (x m : Nat) (b : α) : List α :=
  l.take x ++ List.replicate m b ++ (l.drop x).take (l.length - x - m)

/-- Cells `x + m` .. of `l` move forward by `m`, and the row is filled up. -/
def spliceOut {α : Type} (l : List α) (x m : Nat) (b : α) : List α :=
  l.take x ++ l.drop (x + m) ++ List.replicate m b

/-- Cells `x` .. `x + m - 1` of `l` are replaced. -/
def spliceOver {α : Type} (l : List α) (x m : Nat) (b : α) : List α :=
  l.take x ++ List.replicate m b ++ l.drop (x + m)

section

variable {α : Type} {f g : Nat → α} {b : α} {w x m : Nat}

theorem spliceIn_eq (hx : x + m ≤ w)
    (h : ∀ z < w, g z = if z < x then f z else if z < x + m then b else f (z - m)) :
    (List.range w).map g = spliceIn ((List.range w).map f) x m b := by
  apply List.ext_getElem
  · simp only [spliceIn, List.length_append, List.length_take, List.length_drop, List.length_map,
      List.length_range, List.length_replicate]
    omega
  · intro z hz hz'
    have hzw : z < w := by simpa using hz
    simp only [spliceIn, List.getElem_map, List.getElem_range, List.getElem_append,
      List.getElem_take, List.getElem_drop, List.getElem_replicate, List.length_append,
      List.length_take, List.length_map, List.length_range, List.length_replicate]
    rw [h z hzw]
    by_cases hfirst : z < x
    · rw [if_pos hfirst, dif_pos (by omega), dif_pos (by omega)]
    · rw [if_neg hfirst]
      by_cases hin : z < x + m
      · rw [if_pos hin, dif_pos (by omega), dif_neg (by omega)]
      · rw [if_neg hin, dif_neg (by omega)]
        congr 1
        omega

theorem spliceOut_eq (hx : x + m ≤ w)
    (h : ∀ z < w, g z = if z < x then f z else if z < w - m then f (z + m) else b) :
    (List.range w).map g = spliceOut ((List.range w).map f) x m b := by
  apply List.ext_getElem
  · simp only [spliceOut, List.length_append, List.length_take, List.length_drop, List.length_map,
      List.length_range, List.length_replicate]
    omega
  · intro z hz hz'
    have hzw : z < w := by simpa using hz
    simp only [spliceOut, List.getElem_map, List.getElem_range, List.getElem_append,
      List.getElem_take, List.getElem_drop, List.getElem_replicate, List.length_append,
      List.length_take, List.length_drop, List.length_map, List.length_range]
    rw [h z hzw]
    by_cases hfirst : z < x
    · rw [if_pos hfirst, dif_pos (by omega), dif_pos (by omega)]
    · rw [if_neg hfirst]
      by_cases hin : z < w - m
      · rw [if_pos hin, dif_pos (by omega), dif_neg (by omega)]
        congr 1
        omega
      · rw [if_neg hin, dif_neg (by omega)]

theorem spliceOver_eq (hx : x + m ≤ w)
    (h : ∀ z < w, g z = if x ≤ z ∧ z < x + m then b else f z) :
    (List.range w).map g = spliceOver ((List.range w).map f) x m b := by
  apply List.ext_getElem
  · simp only [spliceOver, List.length_append, List.length_take, List.length_drop, List.length_map,
      List.length_range, List.length_replicate]
    omega
  · intro z hz hz'
    have hzw : z < w := by simpa using hz
    simp only [spliceOver, List.getElem_map, List.getElem_range, List.getElem_append,
      List.getElem_take, List.getElem_drop, List.getElem_replicate, List.length_append,
      List.length_take, List.length_map, List.length_range, List.length_replicate]
    rw [h z hzw]
    by_cases hfirst : z < x
    · rw [if_neg (by omega), dif_pos (by omega), dif_pos (by omega)]
    · by_cases hin : z < x + m
      · rw [if_pos (by omega), dif_pos (by omega), dif_neg (by omega)]
      · rw [if_neg (by omega), dif_neg (by omega)]
        congr 1
        omega

end

namespace Screen

variable {F : Foundation} {t : Terminal} {s s' : Screen} {i x n : Int}

/-! ## Column by column -/

/-- A `memmove` inside row `i`, also when the two parts overlap. -/
theorem moveInRow_cells {d k m : Int} (h : s.Wf) (hd : 0 ≤ d) (hd' : d + m ≤ s.realWidth)
    (hok : s.moveCells (s.rowLine i * s.realWidth + d) (s.rowLine i * s.realWidth + k) m =
      .ok s') (z : Int) (hz : 0 ≤ z) (hz' : z ≤ s.width) :
    s'.cellAt i z = if d ≤ z ∧ z < d + m then s.cellAt i (z - d + k) else s.cellAt i z := by
  have hdraws := moveCells_draws hok
  obtain ⟨b, hb, hok⟩ := bind_eq_ok.mp hok
  obtain ⟨-, rfl⟩ := Block.copy_eq_ok.mp hb
  cases hok
  rw [(hdraws.wf h).cellAt_eq, h.cellAt_eq, h.cellAt_eq, hdraws.rowLine_eq, hdraws.realWidth_eq,
    Block.paste_part_cell _ _ hz (by unfold realWidth; omega) hd hd']
  by_cases hin : d ≤ z ∧ z < d + m
  · rw [if_pos ⟨rfl, hin⟩, if_pos hin]
    congr 1
    omega
  · rw [if_neg fun hall => hin hall.2, if_neg hin]

theorem blankInRow_cells {m : Nat} (h : s.Wf) (hi : 0 ≤ i) (hi' : i < s.totalHeight)
    (hx : 0 ≤ x) (hx' : x + m ≤ s.width)
    (hok : s.blankCells t (s.rowLine i * s.realWidth + x) m = .ok s') (z : Int) (hz : 0 ≤ z)
    (hz' : z ≤ s.width) :
    s'.cellAt i z = if x ≤ z ∧ z < x + m then t.blank else s.cellAt i z := by
  have hinv := forUp_inv (P := fun k s' => Draws s s' ∧
      s'.cellAt i z = if x ≤ z ∧ z < x + k then t.blank else s.cellAt i z) ?_
    ⟨.refl s, by rw [if_neg (by omega)]⟩ hok
  · simpa using hinv.2
  · rintro k s₁ s₂ hk hk' ⟨hd, hcell⟩ hs
    have hT := hd.totalHeight_eq
    have hw := hd.width_eq
    rw [← hd.rowLine_eq, ← hd.realWidth_eq, Int.add_assoc] at hs
    obtain ⟨s₂', hs', hd₂, hcells⟩ := storeCell_spec (hd.wf h) t.blank hi (by omega)
      (x := x + k) (by omega) (by omega)
    obtain rfl : s₂ = s₂' := Except.ok.inj (hs.symm.trans hs')
    refine ⟨hd.trans hd₂, ?_⟩
    rw [hcells i z hi (by omega) hz (by omega), hcell]
    by_cases heq : z = x + k
    · rw [if_pos ⟨rfl, heq⟩, if_pos (by omega)]
    · rw [if_neg fun hall => heq hall.2]
      split <;> split <;> first | rfl | omega

/-! ## The row as a whole -/

/-- The cells of the cursor's row. -/
def cursorCells (s : Screen) : List ScreenChar :=
  (List.range s.width.toNat).map fun z : Nat => s.cellAt s.cursorRow z

/-- The cells of the cursor's row are `row` now, and nothing else has changed: neither its wrap
mark, nor another row, nor the cursor. -/
structure Spliced (row : List ScreenChar) (s s' : Screen) : Prop where
  cells : s'.cursorCells = row
  mark : s'.cellAt s.cursorRow s.width = s.cellAt s.cursorRow s.width
  others : ChangesOnly (· = s.cursorRow) s s'
  cursor : s'.cursorX = s.cursorX ∧ s'.cursorY = s.cursorY

/-- As many characters as `n` and the rest of the row allow. -/
def spliceLength (s : Screen) (n : Int) : Nat := min n.toNat (s.width - s.cursorX).toNat

theorem clampCells_eq (h : s.Wf) (hn : 0 ≤ n) (hmax : n + s.cursorX < 2 ^ 31) :
    s.clampCells n = s.spliceLength n := by
  have hx := h.column
  rw [clampCells, cint_of_isInt ⟨by omega, by omega⟩, spliceLength]
  split <;> omega

/-- A handler of a token that only draws is what `putToken:` does. -/
theorem putToken_of_draws {tok : VT100TCC} (hok : s.dispatch F t tok = .ok s') (hd : Draws s s') :
    s.putToken F t tok = .ok s' := by
  rw [putToken, hok, ok_bind, if_neg]
  rw [hd.cursor_eq.1, hd.cursor_eq.2]
  simp

theorem Draws.cursorRow_eq (hd : Draws s s') : s'.cursorRow = s.cursorRow := by
  rw [cursorRow, cursorRow, hd.sameRing.count_eq, hd.cursor_eq.2]

/-- What a drawing step does to the cursor's row, column by column. -/
theorem Spliced.of_cells {row : List ScreenChar} (hd : Draws s s')
    (hc : ChangesOnly (· = s.cursorRow) s s') (hmark : s'.cellAt s.cursorRow s.width =
      s.cellAt s.cursorRow s.width)
    (hrow : ((List.range s.width.toNat).map fun z : Nat => s'.cellAt s.cursorRow z) = row) :
    Spliced row s s' := by
  refine ⟨?_, hmark, hc, hd.cursor_eq⟩
  rw [cursorCells, hd.cursorRow_eq, hd.width_eq]
  exact hrow

theorem dirtyFill_cellAt {v : Bool} {a n : Int} (h : s.Wf) (hok : s.dirtyFill v a n = .ok s')
    (i z : Int) : s'.cellAt i z = s.cellAt i z :=
  (dirtyFill_draws hok).cellAt_of_eq h (dirtyFill_bufferLines hok) i z

theorem insertBlank_cells (h : s.Wf) (hy : s.OnScreen) (hn : 0 ≤ n) (hmax : n + s.cursorX < 2 ^ 31)
    (hok : s.insertBlank t n = .ok s') (z : Int) (hz : 0 ≤ z) (hz' : z ≤ s.width) :
    s'.cellAt s.cursorRow z =
      if s.cursorX ≤ z ∧ z < s.cursorX + s.clampCells n then t.blank
      else if s.cursorX ≤ z ∧ z < s.width then s.cellAt s.cursorRow (z - s.clampCells n)
      else s.cellAt s.cursorRow z := by
  have hx := h.column
  have hm := clampCells_range h hn hmax
  obtain ⟨hi, hi'⟩ := h.cursorRow_range hy
  unfold insertBlank at hok
  rw [if_neg (by omega), h.cursorLine hy, ok_bind] at hok
  generalize s.clampCells n = m at hm hok ⊢
  obtain ⟨s₁, h₁, hok⟩ := bind_eq_ok.mp hok
  obtain ⟨s₂, h₂, hok⟩ := bind_eq_ok.mp hok
  have hd₁ := moveCells_draws h₁
  have hw₁ := hd₁.width_eq
  have hT₁ := hd₁.totalHeight_eq
  have hwf₁ := hd₁.wf h
  rw [Int.add_assoc] at h₁
  rw [hd₁.cursor_eq.1, ← hd₁.rowLine_eq, ← hd₁.realWidth_eq] at h₂
  have hd₂ := blankCells_draws h₂
  rw [dirtyFill_cellAt (hd₂.wf hwf₁) hok,
    blankInRow_cells hwf₁ hi (by omega) hx.1 (by omega) h₂ z hz (by omega),
    moveInRow_cells h (by omega) (by unfold realWidth; omega) h₁ z hz hz']
  by_cases hblank : s.cursorX ≤ z ∧ z < s.cursorX + m
  · rw [if_pos (by omega), if_pos hblank]
  · rw [if_neg (by omega), if_neg hblank]
    by_cases hmoved : s.cursorX ≤ z ∧ z < s.width
    · rw [if_pos (by omega), if_pos hmoved]
      congr 1
      omega
    · rw [if_neg (by omega), if_neg hmoved]

theorem deleteCharacters_cells (h : s.Wf) (hy : s.OnScreen) (hn : 0 ≤ n)
    (hmax : n + s.cursorX < 2 ^ 31) (hok : s.deleteCharacters t n = .ok s') (z : Int) (hz : 0 ≤ z)
    (hz' : z ≤ s.width) :
    s'.cellAt s.cursorRow z =
      if s.width - s.clampCells n ≤ z ∧ z < s.width then t.blank
      else if s.cursorX ≤ z ∧ z < s.width then s.cellAt s.cursorRow (z + s.clampCells n)
      else s.cellAt s.cursorRow z := by
  have hx := h.column
  have hm := clampCells_range h hn hmax
  obtain ⟨hi, hi'⟩ := h.cursorRow_range hy
  unfold deleteCharacters at hok
  rw [if_pos ⟨hx.1, hx.2, hy⟩, h.cursorLine hy, ok_bind] at hok
  generalize s.clampCells n = m at hm hok ⊢
  obtain ⟨s₁, h₁, hok⟩ := bind_eq_ok.mp hok
  obtain ⟨s₂, h₂, hok⟩ := bind_eq_ok.mp hok
  -- the guard around the `memmove` only leaves out one that moves nothing
  obtain ⟨hd₁, hcell₁⟩ : Draws s s₁ ∧ s₁.cellAt s.cursorRow z =
      if s.cursorX ≤ z ∧ z < s.width - m then s.cellAt s.cursorRow (z + m)
      else s.cellAt s.cursorRow z := by
    split at h₁
    · have hd₁ := moveCells_draws h₁
      rw [Int.add_assoc (s.rowLine s.cursorRow * s.realWidth) s.cursorX m] at h₁
      refine ⟨hd₁, ?_⟩
      rw [moveInRow_cells h hx.1 (by unfold realWidth; omega) h₁ z hz hz']
      by_cases hmoved : s.cursorX ≤ z ∧ z < s.width - m
      · rw [if_pos (by omega), if_pos hmoved]
        congr 1
        omega
      · rw [if_neg (by omega), if_neg hmoved]
    · cases h₁
      exact ⟨.refl s, by rw [if_neg (by omega)]⟩
  have hw₁ := hd₁.width_eq
  have hT₁ := hd₁.totalHeight_eq
  have hwf₁ := hd₁.wf h
  rw [hw₁, ← hd₁.rowLine_eq, ← hd₁.realWidth_eq] at h₂
  have hd₂ := blankCells_draws h₂
  rw [dirtyFill_cellAt (hd₂.wf hwf₁) hok,
    blankInRow_cells hwf₁ hi (by omega) (by omega) (by omega) h₂ z hz (by omega), hcell₁]
  by_cases hblank : s.width - m ≤ z ∧ z < s.width
  · rw [if_pos (by omega), if_pos hblank]
  · rw [if_neg (by omega), if_neg hblank]
    by_cases hmoved : s.cursorX ≤ z ∧ z < s.width
    · rw [if_pos (by omega), if_pos hmoved]
    · rw [if_neg (by omega), if_neg hmoved]

theorem eraseCharacters_cells (h : s.Wf) (hy : s.OnScreen) (hn : 0 ≤ n)
    (hmax : n + s.cursorX < 2 ^ 31) (hok : s.eraseCharacters t n = .ok s') (z : Int) (hz : 0 ≤ z)
    (hz' : z ≤ s.width) :
    s'.cellAt s.cursorRow z =
      if s.cursorX ≤ z ∧ z < s.cursorX + s.clampCells n then t.blank
      else s.cellAt s.cursorRow z := by
  have hx := h.column
  have hm := clampCells_range h hn hmax
  obtain ⟨hi, hi'⟩ := h.cursorRow_range hy
  unfold eraseCharacters at hok
  rw [if_pos hx.2, h.cursorLine hy, ok_bind] at hok
  generalize s.clampCells n = m at hm hok ⊢
  obtain ⟨s₁, h₁, hok⟩ := bind_eq_ok.mp hok
  rw [dirtyFill_cellAt ((blankCells_draws h₁).wf h) hok,
    blankInRow_cells h hi hi' hx.1 (by omega) h₁ z hz hz', Int.toNat_of_nonneg hm.1]

theorem spliceLength_range (h : s.Wf) (hn : 0 ≤ n) (hmax : n + s.cursorX < 2 ^ 31) :
    s.cursorX + s.spliceLength n ≤ s.width := by
  rw [← clampCells_eq h hn hmax]
  exact (clampCells_range h hn hmax).2

theorem insertBlank_splices (h : s.Wf) (hy : s.OnScreen) (hn : 0 ≤ n)
    (hmax : n + s.cursorX < 2 ^ 31) :
    ∃ s', s.insertBlank t n = .ok s' ∧ Draws s s' ∧
      Spliced (spliceIn s.cursorCells s.cursorX.toNat (s.spliceLength n) t.blank) s s' := by
  have hx := h.column
  have hlength := spliceLength_range h hn hmax
  obtain ⟨s', hok⟩ := insertBlank_total h t hy hn hmax
  have hd := insertBlank_draws hok
  have hcells := insertBlank_cells h hy hn hmax hok
  rw [clampCells_eq h hn hmax] at hcells
  refine ⟨s', hok, hd, .of_cells hd (insertBlank_changes h hy hn hmax hok) ?_
    (spliceIn_eq (by omega) fun z hz => ?_)⟩
  · rw [hcells s.width (by omega) (by omega), if_neg (by omega), if_neg (by omega)]
  · rw [hcells z (by omega) (by omega)]
    by_cases hfirst : z < s.cursorX.toNat
    · rw [if_neg (by omega), if_neg (by omega), if_pos hfirst]
    · rw [if_neg hfirst]
      by_cases hin : z < s.cursorX.toNat + s.spliceLength n
      · rw [if_pos (by omega), if_pos hin]
      · rw [if_neg (by omega), if_pos (by omega), if_neg hin]
        congr 1
        omega

theorem deleteCharacters_splices (h : s.Wf) (hy : s.OnScreen) (hn : 0 ≤ n)
    (hmax : n + s.cursorX < 2 ^ 31) :
    ∃ s', s.deleteCharacters t n = .ok s' ∧ Draws s s' ∧
      Spliced (spliceOut s.cursorCells s.cursorX.toNat (s.spliceLength n) t.blank) s s' := by
  have hx := h.column
  have hlength := spliceLength_range h hn hmax
  obtain ⟨s', hok⟩ := deleteCharacters_total h t hy hn hmax
  have hd := deleteCharacters_draws hok
  have hcells := deleteCharacters_cells h hy hn hmax hok
  rw [clampCells_eq h hn hmax] at hcells
  refine ⟨s', hok, hd, .of_cells hd (deleteCharacters_changes h hn hmax hok) ?_
    (spliceOut_eq (by omega) fun z hz => ?_)⟩
  · rw [hcells s.width (by omega) (by omega), if_neg (by omega), if_neg (by omega)]
  · rw [hcells z (by omega) (by omega)]
    by_cases hfirst : z < s.cursorX.toNat
    · rw [if_neg (by omega), if_neg (by omega), if_pos hfirst]
    · rw [if_neg hfirst]
      by_cases hin : z < s.width.toNat - s.spliceLength n
      · rw [if_neg (by omega), if_pos (by omega), if_pos hin]
        congr 1
      · rw [if_pos (by omega), if_neg hin]

theorem eraseCharacters_splices (h : s.Wf) (hy : s.OnScreen) (hn : 0 ≤ n)
    (hmax : n + s.cursorX < 2 ^ 31) :
    ∃ s', s.eraseCharacters t n = .ok s' ∧ Draws s s' ∧
      Spliced (spliceOver s.cursorCells s.cursorX.toNat (s.spliceLength n) t.blank) s s' := by
  have hx := h.column
  have hlength := spliceLength_range h hn hmax
  obtain ⟨s', hok⟩ := eraseCharacters_total h t hy hn hmax
  have hd := eraseCharacters_draws hok
  have hcells := eraseCharacters_cells h hy hn hmax hok
  rw [clampCells_eq h hn hmax] at hcells
  refine ⟨s', hok, hd, .of_cells hd (eraseCharacters_changes h hy hn hmax hok) ?_
    (spliceOver_eq (by omega) fun z hz => ?_)⟩
  · rw [hcells s.width (by omega) (by omega), if_neg (by omega)]
  · rw [hcells z (by omega) (by omega)]
    by_cases hin : s.cursorX.toNat ≤ z ∧ z < s.cursorX.toNat + s.spliceLength n
    · rw [if_pos (by omega), if_pos hin]
    · rw [if_neg (by omega), if_neg hin]

/-- The tokens ICH, DCH and ECH with the parameter `n` are splices of the cursor's row. -/
structure SplicesRow (F : Foundation) (t : Terminal) (s : Screen) (n : Int) : Prop where
  ich : ∀ tok : VT100TCC, tok.type = .insblnk → tok.csi.p.cell 0 = n →
    ∃ s', s.putToken F t tok = .ok s' ∧
      Spliced (spliceIn s.cursorCells s.cursorX.toNat (s.spliceLength n) t.blank) s s'
  dch : ∀ tok : VT100TCC, tok.type = .delch → tok.csi.p.cell 0 = n →
    ∃ s', s.putToken F t tok = .ok s' ∧
      Spliced (spliceOut s.cursorCells s.cursorX.toNat (s.spliceLength n) t.blank) s s'
  ech : ∀ tok : VT100TCC, tok.type = .ech → tok.csi.p.cell 0 = n →
    ∃ s', s.putToken F t tok = .ok s' ∧
      Spliced (spliceOver s.cursorCells s.cursorX.toNat (s.spliceLength n) t.blank) s s'

/-- ICH, DCH and ECH are splices of the cursor's row: they complete for any parameter whose
sum with the column does not overflow, the cells come out as the splice of the row says,
those that come in are blank and have the current colours, and nothing else changes. -/
theorem characters_splice (h : s.Wf) (hy : s.OnScreen) (hn : 0 ≤ n)
    (hmax : n + s.cursorX < 2 ^ 31) : SplicesRow F t s n := by
  refine ⟨fun tok htype hp => ?_, fun tok htype hp => ?_, fun tok htype hp => ?_⟩
  · obtain ⟨s', hok, hd, hsplice⟩ := insertBlank_splices (t := t) h hy hn hmax
    exact ⟨s', putToken_of_draws (by simp only [dispatch, htype, hp, hok]) hd, hsplice⟩
  · obtain ⟨s', hok, hd, hsplice⟩ := deleteCharacters_splices (t := t) h hy hn hmax
    exact ⟨s', putToken_of_draws (by simp only [dispatch, htype, hp, hok]) hd, hsplice⟩
  · obtain ⟨s', hok, hd, hsplice⟩ := eraseCharacters_splices (t := t) h hy hn hmax
    exact ⟨s', putToken_of_draws (by simp only [dispatch, htype, hp, hok]) hd, hsplice⟩

/-- At the start of the second of two rows of text on a new object. -/
theorem text_splices : ∃ v v₁ v₂, VT100.init ⟨0, 0, 0⟩ = .ok v ∧
    v.readInputStream Foundation.latin1 VT100.textBytes = .ok v₁ ∧
    v₁.readInputStream Foundation.latin1 [0x0d] = .ok v₂ ∧
    (v₂.screen.cursorX = 0 ∧ v₂.screen.cursorY = 1) ∧
    SplicesRow Foundation.latin1 v₂.terminal v₂.screen 1 := by
  obtain ⟨v, v₁, first, row, hv, h₁, hrest, -, hs₁, -⟩ :=
    VT100.init_text Foundation.latin1_asciiExact ⟨0, 0, 0⟩
  obtain ⟨v₂, h₂, -, hs⟩ := hrest.carriageReturn (F := Foundation.latin1) hs₁ (by decide)
  refine ⟨v, v₁, v₂, hv, h₁, h₂, ⟨hs.cursorX_eq, hs.cursorY_eq⟩,
    characters_splice hs.wf hs.cursor_range (by decide) ?_⟩
  rw [hs.cursorX_eq]
  decide

end Screen

end MobileTerminal
