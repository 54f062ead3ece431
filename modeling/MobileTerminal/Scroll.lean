import MobileTerminal.Sequence

/-!
# Scrolling a region

`scrollUp` and `scrollDown` move the rows between the margins. Where no row of
the region lies behind the wrap point of the ring, or only some of them do, they
do what they should. When the whole region lies behind it, the two lines that
the code compares are in order again, and the direct `memmove` starts from
`screen_top` without wrapping around: it leaves the buffer.

The code chooses its path by comparing the addresses of the lines of
`SCROLL_TOP` and `SCROLL_BOTTOM`. They are in order when the region is on one
side of the wrap point, whichever side (`Wf.lines_lt_iff`), while the `memmove`
is only right on the side in front. `RegionInFront` is what is missing from the
comparison.

Both paths are shown to have the same effect on rows. The `memmove` is one fact
about blocks of lines (`moveRows_spec`); the copy line by line is a loop whose
invariant says which rows have moved already (`Draws.moveRow`), and its
direction matters because a row is read before it is written.

The lemmas are stated for a move by `k` rows between any two visible rows, since
inserting and deleting lines use the same two paths.
-/

namespace MobileTerminal

namespace Screen

variable {t : Terminal} {s s' : Screen}

/-- The rows of the region have moved up by one and its last row is blank. -/
structure ScrolledUp (s s' : Screen) : Prop where
  moved : ∀ y x, s.scrollTop ≤ y → y < s.scrollBottom → 0 ≤ x → x ≤ s.width →
    s'.visibleCell y x = s.visibleCell (y + 1) x
  blank : ∀ x, 0 ≤ x → x ≤ s.width → (s'.visibleCell s.scrollBottom x).ch = 0
  outside : ∀ y x, 0 ≤ y → y < s.height → y < s.scrollTop ∨ s.scrollBottom < y →
    0 ≤ x → x ≤ s.width → s'.visibleCell y x = s.visibleCell y x
  scrollback : ∀ i x, 0 ≤ i → i < s.currentScrollbackLines → 0 ≤ x → x ≤ s.width →
    s'.cellAt i x = s.cellAt i x

/-- The rows of the region have moved down by one and its first row is blank. -/
structure ScrolledDown (s s' : Screen) : Prop where
  moved : ∀ y x, s.scrollTop < y → y ≤ s.scrollBottom → 0 ≤ x → x ≤ s.width →
    s'.visibleCell y x = s.visibleCell (y - 1) x
  blank : ∀ x, 0 ≤ x → x ≤ s.width → (s'.visibleCell s.scrollTop x).ch = 0
  outside : ∀ y x, 0 ≤ y → y < s.height → y < s.scrollTop ∨ s.scrollBottom < y →
    0 ≤ x → x ≤ s.width → s'.visibleCell y x = s.visibleCell y x
  scrollback : ∀ i x, 0 ≤ i → i < s.currentScrollbackLines → 0 ≤ x → x ≤ s.width →
    s'.cellAt i x = s.cellAt i x

/-! ## Moving the rows

A region in front of the wrap point is moved by one `memmove`, or row by row
when it lies across the end of the buffer. -/

/-- The rows of the region, counted from the start of the scrollback. -/
def firstRow (s : Screen) : Int := s.currentScrollbackLines + s.scrollTop

def lastRow (s : Screen) : Int := s.currentScrollbackLines + s.scrollBottom

/-- The region does not lie wholly behind the wrap point of the ring. -/
def RegionInFront (s : Screen) : Prop := s.topLine + s.scrollTop < s.totalHeight

theorem Wf.region_lines (h : s.Wf) :
    s.getLineAtScreenIndex s.scrollTop = .ok (s.rowLine s.firstRow * s.realWidth) ∧
      s.getLineAtScreenIndex s.scrollBottom = .ok (s.rowLine s.lastRow * s.realWidth) := by
  have hm := h.margins
  exact ⟨h.visibleLine hm.1 (by omega), h.visibleLine (by omega) hm.2.2⟩

theorem Wf.rowLine_visible (h : s.Wf) {y : Int} (hy : 0 ≤ y) (hy' : y < s.height) :
    s.rowLine (s.currentScrollbackLines + y) = wrapLine s.totalHeight (s.topLine + y) :=
  (h.wrap_top hy hy').symm

/-- `sourceLine < targetLine` holds when the whole region is on one side of the
wrap point. -/
theorem Wf.lines_lt_iff (h : s.Wf) (hm : s.scrollTop < s.scrollBottom) :
    s.rowLine s.firstRow * s.realWidth < s.rowLine s.lastRow * s.realWidth ↔
      s.topLine + s.scrollBottom < s.totalHeight ∨ s.totalHeight ≤ s.topLine + s.scrollTop := by
  have hmar := h.margins
  have hh := h.height_lt_total
  have ht := h.top_range
  rw [line_lt_iff h.realWidth_pos, firstRow, lastRow, h.rowLine_visible hmar.1 (by omega),
    h.rowLine_visible (by omega) hmar.2.2]
  unfold wrapLine
  split <;> split <;> omega

/-- The direct `memmove` of a region in front of the wrap point: a row of the
block that is written takes the row `k` further. -/
theorem moveRows_spec (h : s.Wf) {d k n : Int} (hn : 0 < n) (hd0 : 0 ≤ d)
    (hd1 : d + n ≤ s.height) (hk0 : 0 ≤ d + k) (hk1 : d + k + n ≤ s.height)
    (hfront : s.topLine + d + n ≤ s.totalHeight) (hfront' : s.topLine + d + k + n ≤ s.totalHeight) :
    ∃ s', s.moveCells (s.screenTop + d * s.realWidth) (s.screenTop + (d + k) * s.realWidth)
        (n * s.realWidth) = .ok s' ∧ Draws s s' ∧
      ∀ j x, 0 ≤ j → j < s.totalHeight → 0 ≤ x → x ≤ s.width →
        s'.cellAt j x = if s.currentScrollbackLines + d ≤ j ∧ j < s.currentScrollbackLines + d + n
          then s.cellAt (j + k) x else s.cellAt j x := by
  have hrw := h.realWidth_pos
  have ht := h.top_range
  have hc := h.count_range
  have hT : s.totalHeight = s.maxScrollbackLines + s.height := rfl
  have hdst : s.screenTop + d * s.realWidth = (s.topLine + d) * s.realWidth := by
    rw [Int.add_mul, ← h.top_aligned]
  have hsrc : s.screenTop + (d + k) * s.realWidth = (s.topLine + d + k) * s.realWidth := by
    rw [Int.add_assoc, Int.add_mul s.topLine, ← h.top_aligned]
  have hle : ∀ m : Int, m ≤ s.totalHeight → m * s.realWidth ≤ s.bufferLines.size := by
    intro m hm
    rw [h.buffer_size]
    exact (line_le_iff hrw).mpr hm
  have hcopy := Block.copy_of_le (ι := Site) s.bufferLines s.bufferLines
    (d := (s.topLine + d) * s.realWidth) (s := (s.topLine + d + k) * s.realWidth)
    (n := n * s.realWidth) (Int.mul_pos hn hrw) (addr_nonneg_line (by omega) hrw)
    (by rw [← Int.add_mul]; exact hle _ (by omega)) (addr_nonneg_line (by omega) hrw)
    (by rw [← Int.add_mul]; exact hle _ (by omega))
  have hok : s.moveCells (s.screenTop + d * s.realWidth) (s.screenTop + (d + k) * s.realWidth)
      (n * s.realWidth) = .ok { s with
        bufferLines := s.bufferLines.paste ((s.topLine + d) * s.realWidth) s.bufferLines
          ((s.topLine + d + k) * s.realWidth) (n * s.realWidth) } := by
    simp only [moveCells, hdst, hsrc, hcopy, ok_bind]
  have hdraws := moveCells_draws hok
  refine ⟨_, hok, hdraws, ?_⟩
  intro j x hj hj' hx hx'
  have hwrap : ∀ y, d ≤ y → y < d + n → s.rowLine (s.currentScrollbackLines + y) = s.topLine + y :=
    fun y h1 h2 => by rw [h.rowLine_visible (by omega) (by omega), wrapLine_of_lt (by omega)]
  have hwrap' : ∀ y, d ≤ y → y < d + n →
      s.rowLine (s.currentScrollbackLines + y + k) = s.topLine + y + k :=
    fun y h1 h2 => by
      rw [Int.add_assoc, h.rowLine_visible (by omega) (by omega), wrapLine_of_lt (by omega),
        Int.add_assoc]
  rw [(hdraws.wf h).cellAt_eq, hdraws.rowLine_eq, hdraws.realWidth_eq,
    Block.paste_lines_cell _ _ hx (by unfold realWidth; omega)]
  -- a line inside the written block is the line of a row inside it
  by_cases hin : s.currentScrollbackLines + d ≤ j ∧ j < s.currentScrollbackLines + d + n
  · have hl := hwrap (j - s.currentScrollbackLines) (by omega) (by omega)
    have hl' := hwrap' (j - s.currentScrollbackLines) (by omega) (by omega)
    rw [show s.currentScrollbackLines + (j - s.currentScrollbackLines) = j by omega] at hl hl'
    rw [if_pos (by omega), if_pos hin, h.cellAt_eq, hl']
    congr 2
    rw [hl]
    congr 1
    omega
  · rw [if_neg, if_neg hin, h.cellAt_eq]
    intro hl
    have := hwrap (s.rowLine j - s.topLine) (by omega) (by omega)
    rw [show s.topLine + (s.rowLine j - s.topLine) = s.rowLine j by omega,
      rowLine_inj (by omega) (by omega) hj hj'] at this
    omega

/-- One round of the line-by-line copy, between two visible rows. -/
theorem copyVisible_spec (h : s.Wf) {y z : Int} (hy : 0 ≤ y) (hy' : y < s.height) (hz : 0 ≤ z)
    (hz' : z < s.height) :
    ∃ s', (do
        let sourceLine ← s.getLineAtScreenIndex z
        let targetLine ← s.getLineAtScreenIndex y
        s.copyLine targetLine sourceLine) = .ok s' ∧ Draws s s' ∧
      ∀ j x, 0 ≤ j → j < s.totalHeight → 0 ≤ x → x ≤ s.width →
        s'.cellAt j x = if j = s.currentScrollbackLines + y
          then s.cellAt (s.currentScrollbackLines + z) x else s.cellAt j x := by
  have hry := h.visible_range hy hy'
  have hrz := h.visible_range hz hz'
  obtain ⟨s', hok, hd, hcells⟩ := copyLine_spec h hry.1 hry.2 hrz.1 hrz.2
  refine ⟨s', ?_, hd, hcells⟩
  simp only [h.visibleLine hz hz', h.visibleLine hy hy', ok_bind, hok]

/-- The same on a screen some of whose rows have moved already. -/
theorem Draws.copyVisible (hd : Draws s s') (h : s.Wf) {y z : Int} (hy : 0 ≤ y)
    (hy' : y < s.height) (hz : 0 ≤ z) (hz' : z < s.height) :
    ∃ s'', (do
        let sourceLine ← s'.getLineAtScreenIndex z
        let targetLine ← s'.getLineAtScreenIndex y
        s'.copyLine targetLine sourceLine) = .ok s'' ∧ Draws s s'' ∧
      ∀ j x, 0 ≤ j → j < s.totalHeight → 0 ≤ x → x ≤ s.width →
        s''.cellAt j x = if j = s.currentScrollbackLines + y
          then s'.cellAt (s.currentScrollbackLines + z) x else s'.cellAt j x := by
  obtain ⟨s'', hok, hd', hcells⟩ := copyVisible_spec (hd.wf h) hy (by rw [hd.height_eq]; exact hy')
    hz (by rw [hd.height_eq]; exact hz')
  rw [hd.totalHeight_eq, hd.width_eq, hd.count_eq] at hcells
  exact ⟨s'', hok, hd.trans hd', hcells⟩

/-- A round of a loop that moves rows by `k`: one more row has moved after it. -/
theorem Draws.moveRow (hd : Draws s s') (h : s.Wf) {y z k : Int} {moved moved' : Int → Prop}
    [DecidablePred moved] [DecidablePred moved'] (hy : 0 ≤ y) (hy' : y < s.height) (hz : 0 ≤ z)
    (hz' : z < s.height) (hk : y + k = z)
    (hcells : ∀ j x, 0 ≤ j → j < s.totalHeight → 0 ≤ x → x ≤ s.width →
      s'.cellAt j x = if moved j then s.cellAt (j + k) x else s.cellAt j x)
    (hfrom : ¬moved (s.currentScrollbackLines + z))
    (hmoved : ∀ j, moved' j ↔ j = s.currentScrollbackLines + y ∨ moved j) :
    ∃ s'', (do
        let sourceLine ← s'.getLineAtScreenIndex z
        let targetLine ← s'.getLineAtScreenIndex y
        s'.copyLine targetLine sourceLine) = .ok s'' ∧ Draws s s'' ∧
      ∀ j x, 0 ≤ j → j < s.totalHeight → 0 ≤ x → x ≤ s.width →
        s''.cellAt j x = if moved' j then s.cellAt (j + k) x else s.cellAt j x := by
  obtain ⟨s'', hok, hd', hcopied⟩ := hd.copyVisible h hy hy' hz hz'
  have hrz := h.visible_range hz hz'
  refine ⟨s'', hok, hd', fun j x hj hj' hx hx' => ?_⟩
  rw [hcopied j x hj hj' hx hx']
  by_cases hrow : j = s.currentScrollbackLines + y
  · rw [if_pos hrow, if_pos ((hmoved j).mpr (Or.inl hrow)), hcells _ x hrz.1 hrz.2 hx hx',
      if_neg hfrom, hrow, Int.add_assoc, hk]
  · have hsame : moved' j ↔ moved j := (hmoved j).trans (or_iff_right hrow)
    rw [if_neg hrow, hcells j x hj hj' hx hx']
    simp only [hsame]

theorem copyLineAt_sameButBuffer {y z : Int} (hok : (do
      let sourceLine ← s.getLineAtScreenIndex z
      let targetLine ← s.getLineAtScreenIndex y
      s.copyLine targetLine sourceLine) = .ok s') : SameButBuffer s s' := by
  obtain ⟨source, -, hok⟩ := bind_eq_ok.mp hok
  obtain ⟨target, -, hok⟩ := bind_eq_ok.mp hok
  obtain ⟨b, -, hok⟩ := bind_eq_ok.mp hok
  cases hok
  exact ⟨b, rfl⟩

theorem moveRegionUp_sameButBuffer (hok : s.moveRegionUp = .ok s') : SameButBuffer s s' := by
  obtain ⟨source, -, hok⟩ := bind_eq_ok.mp hok
  obtain ⟨target, -, hok⟩ := bind_eq_ok.mp hok
  split at hok
  · obtain ⟨b, -, hok⟩ := bind_eq_ok.mp hok
    cases hok
    exact ⟨b, rfl⟩
  · exact forUp_inv (P := fun _ s' => SameButBuffer s s')
      (fun _ _ _ _ _ h hs => h.trans (copyLineAt_sameButBuffer hs)) (.refl s) hok

theorem moveRegionDown_sameButBuffer (hok : s.moveRegionDown = .ok s') : SameButBuffer s s' := by
  unfold moveRegionDown at hok
  split at hok
  · obtain ⟨source, -, hok⟩ := bind_eq_ok.mp hok
    obtain ⟨target, -, hok⟩ := bind_eq_ok.mp hok
    split at hok
    · obtain ⟨b, -, hok⟩ := bind_eq_ok.mp hok
      cases hok
      exact ⟨b, rfl⟩
    · exact forDown_inv (P := fun _ s' => SameButBuffer s s')
        (fun _ _ _ _ _ h hs => h.trans (copyLineAt_sameButBuffer hs)) (.refl s) hok
  · cases hok
    exact .refl s

theorem moveRegionUp_spec (h : s.Wf) (hm : s.scrollTop < s.scrollBottom)
    (hfront : s.RegionInFront) :
    ∃ s', s.moveRegionUp = .ok s' ∧ Draws s s' ∧
      ∀ j x, 0 ≤ j → j < s.totalHeight → 0 ≤ x → x ≤ s.width →
        s'.cellAt j x = if s.firstRow ≤ j ∧ j < s.lastRow then s.cellAt (j + 1) x
          else s.cellAt j x := by
  have hmar := h.margins
  unfold RegionInFront at hfront
  simp only [moveRegionUp, h.region_lines, ok_bind, h.lines_lt_iff hm]
  by_cases hwrap : s.topLine + s.scrollBottom < s.totalHeight
  · rw [if_pos (Or.inl hwrap)]
    obtain ⟨s', hok, hd, hcells⟩ := moveRows_spec h (d := s.scrollTop) (k := 1)
      (n := s.scrollBottom - s.scrollTop) (by omega) hmar.1 (by omega) (by omega) (by omega)
      (by omega) (by omega)
    refine ⟨s', hok, hd, ?_⟩
    intro j x hj hj' hx hx'
    rw [hcells j x hj hj' hx hx', firstRow, lastRow,
      show s.currentScrollbackLines + s.scrollTop + (s.scrollBottom - s.scrollTop) =
        s.currentScrollbackLines + s.scrollBottom by omega]
  · rw [if_neg (by omega)]
    -- rows above `i` have moved, the others have not been touched
    have hloop := forUp_total s.scrollTop (s.scrollBottom - s.scrollTop).toNat
      (f := fun i s => do
        let sourceLine ← s.getLineAtScreenIndex (i + 1)
        let targetLine ← s.getLineAtScreenIndex i
        s.copyLine targetLine sourceLine)
      (P := fun i s' => Draws s s' ∧ ∀ j x, 0 ≤ j → j < s.totalHeight → 0 ≤ x → x ≤ s.width →
        s'.cellAt j x = if s.firstRow ≤ j ∧ j < s.currentScrollbackLines + i
          then s.cellAt (j + 1) x else s.cellAt j x)
      ?_ (s := s) ⟨.refl s, fun j x _ _ _ _ => by
        rw [if_neg (by unfold firstRow; omega)]⟩
    · obtain ⟨s', hok, hd, hcells⟩ := hloop
      refine ⟨s', hok, hd, ?_⟩
      rw [show s.currentScrollbackLines +
        (s.scrollTop + ((s.scrollBottom - s.scrollTop).toNat : Int)) = s.lastRow by
          unfold lastRow; omega] at hcells
      exact hcells
    · rintro i s₁ hi hi' ⟨hd, hcells⟩
      unfold firstRow at hcells ⊢
      exact hd.moveRow h (by omega) (by omega) (by omega) (by omega) rfl hcells (by omega)
        fun j => by omega

theorem moveRegionDown_spec (h : s.Wf) (hm : s.scrollTop < s.scrollBottom)
    (hfront : s.RegionInFront) :
    ∃ s', s.moveRegionDown = .ok s' ∧ Draws s s' ∧
      ∀ j x, 0 ≤ j → j < s.totalHeight → 0 ≤ x → x ≤ s.width →
        s'.cellAt j x = if s.firstRow < j ∧ j ≤ s.lastRow then s.cellAt (j - 1) x
          else s.cellAt j x := by
  have hmar := h.margins
  unfold RegionInFront at hfront
  simp only [moveRegionDown, if_pos hm, h.region_lines, ok_bind, h.lines_lt_iff hm]
  by_cases hwrap : s.topLine + s.scrollBottom < s.totalHeight
  · rw [if_pos (Or.inl hwrap)]
    obtain ⟨s', hok, hd, hcells⟩ := moveRows_spec h (d := s.scrollTop + 1) (k := -1)
      (n := s.scrollBottom - s.scrollTop) (by omega) (by omega) (by omega) (by omega) (by omega)
      (by omega) (by omega)
    rw [show s.scrollTop + 1 + -1 = s.scrollTop by omega] at hok
    refine ⟨s', hok, hd, ?_⟩
    intro j x hj hj' hx hx'
    rw [hcells j x hj hj' hx hx']
    unfold firstRow lastRow
    by_cases hin : s.currentScrollbackLines + s.scrollTop < j ∧
        j ≤ s.currentScrollbackLines + s.scrollBottom
    · rw [if_pos hin, if_pos (by omega)]
      rfl
    · rw [if_neg hin, if_neg (by omega)]
  · rw [if_neg (by omega)]
    -- rows below `i + 1` have moved, the others have not been touched
    have hloop := forDown_total (s.scrollBottom - 1) (s.scrollBottom - s.scrollTop).toNat
      (f := fun i s => do
        let sourceLine ← s.getLineAtScreenIndex i
        let targetLine ← s.getLineAtScreenIndex (i + 1)
        s.copyLine targetLine sourceLine)
      (P := fun i s' => Draws s s' ∧ ∀ j x, 0 ≤ j → j < s.totalHeight → 0 ≤ x → x ≤ s.width →
        s'.cellAt j x = if s.currentScrollbackLines + i + 1 < j ∧ j ≤ s.lastRow
          then s.cellAt (j - 1) x else s.cellAt j x)
      ?_ (s := s) ⟨.refl s, fun j x _ _ _ _ => by
        rw [if_neg (by unfold lastRow; omega)]⟩
    · obtain ⟨s', hok, hd, hcells⟩ := hloop
      refine ⟨s', hok, hd, ?_⟩
      rw [show s.currentScrollbackLines +
        (s.scrollBottom - 1 - ((s.scrollBottom - s.scrollTop).toNat : Int)) + 1 = s.firstRow by
          unfold firstRow; omega] at hcells
      exact hcells
    · rintro i s₁ hi hi' ⟨hd, hcells⟩
      unfold lastRow at hcells ⊢
      exact hd.moveRow h (k := -1) (by omega) (by omega) (by omega) (by omega) (by omega) hcells
        (by omega) fun j => by omega

/-- A region that lies wholly behind the wrap point: the `memmove` leaves the
buffer. -/
theorem moveCells_behind (h : s.Wf) {d k n : Int} (hn : 0 < n)
    (hd : s.totalHeight ≤ s.topLine + d) :
    s.moveCells (s.screenTop + d * s.realWidth) (s.screenTop + k * s.realWidth)
      (n * s.realWidth) = .error .outOfBounds := by
  have hrw := h.realWidth_pos
  have hdst : s.screenTop + d * s.realWidth = (s.topLine + d) * s.realWidth := by
    rw [Int.add_mul, ← h.top_aligned]
  have hle := (line_le_iff (m := s.totalHeight) (l := s.topLine + d) hrw).mpr hd
  have hpos := Int.mul_pos hn hrw
  have hcopy : (s.bufferLines.copy (s.screenTop + d * s.realWidth) s.bufferLines
      (s.screenTop + k * s.realWidth) (n * s.realWidth) : Res _) = .error .outOfBounds := by
    apply if_neg
    rw [hdst, h.buffer_size]
    omega
  simp only [moveCells, hcopy, error_bind]

/-! ## The whole operations -/

theorem Wf.scrollAsserts_ok (h : s.Wf) : s.scrollAsserts = .ok () := by
  have hm := h.margins
  have h1 : 0 ≤ s.scrollTop ∧ s.scrollTop < s.height := by omega
  have h2 : 0 ≤ s.scrollBottom ∧ s.scrollBottom < s.height := by omega
  simp only [scrollAsserts, nsAssert_pos h1, nsAssert_pos h2, nsAssert_pos hm.2.1, ok_bind]

theorem dirtyRegion_spec (h : s.Wf) :
    ∃ s', s.dirtyRegion = .ok s' ∧ Draws s s' ∧ s'.bufferLines = s.bufferLines := by
  have hm := h.margins
  have hw := h.width_pos
  exact dirtyFill_spec true _ (Int.mul_nonneg (by omega) (by omega)) s

/-- A visible row becomes a default line and the region is marked dirty. -/
theorem blankRow_cells (h : s.Wf) (t : Terminal) {y : Int} (hy : 0 ≤ y) (hy' : y < s.height) :
    ∃ s', (do
        let targetLine ← s.getLineAtScreenIndex y
        let s ← s.setDefaultLine t targetLine
        s.dirtyRegion) = .ok s' ∧ Draws s s' ∧
      ∀ j x, 0 ≤ j → j < s.totalHeight → 0 ≤ x → x ≤ s.width →
        s'.cellAt j x =
          if j = s.currentScrollbackLines + y then (s.blankLine t).cell x else s.cellAt j x := by
  have hr := h.visible_range hy hy'
  obtain ⟨s₁, h₁, hd₁, hcells⟩ := setDefaultLine_cells h t hr.1 hr.2
  obtain ⟨s₂, h₂, hd₂, hb₂⟩ := dirtyRegion_spec (hd₁.wf h)
  refine ⟨s₂, by simp only [h.visibleLine hy hy', ok_bind, h₁, h₂], hd₁.trans hd₂, ?_⟩
  intro j x hj hj' hx hx'
  rw [hd₂.cellAt_of_eq (hd₁.wf h) hb₂]
  exact hcells j x hj hj' hx hx'

/-- Every row after `scrollUp`. -/
theorem scrollUp_cells (h : s.Wf) (t : Terminal) (hm : s.scrollTop < s.scrollBottom)
    (hfull : ¬s.FullMargins) (hfront : s.RegionInFront) :
    ∃ s', s.scrollUp t = .ok s' ∧ Draws s s' ∧
      ∀ j x, 0 ≤ j → j < s.totalHeight → 0 ≤ x → x ≤ s.width →
        s'.cellAt j x = if s.firstRow ≤ j ∧ j < s.lastRow then s.cellAt (j + 1) x
          else if j = s.lastRow then (s.blankLine t).cell x else s.cellAt j x := by
  have hmar := h.margins
  obtain ⟨s₁, h₁, hd₁, hcells₁⟩ := moveRegionUp_spec h hm hfront
  obtain ⟨s₂, h₂, hd₂, hcells₂⟩ := blankRow_cells (hd₁.wf h) t (y := s₁.scrollBottom)
    (by rw [hd₁.margins_eq.2]; omega) (by rw [hd₁.margins_eq.2, hd₁.height_eq]; exact hmar.2.2)
  rw [hd₁.margins_eq.2, hd₁.count_eq, hd₁.totalHeight_eq, hd₁.width_eq,
    (moveRegionUp_sameButBuffer h₁).blankLine_eq] at hcells₂
  refine ⟨s₂, ?_, hd₁.trans hd₂, fun j x hj hj' hx hx' => ?_⟩
  · simp only [scrollUp, h.scrollAsserts_ok, ok_bind, if_neg hfull, scrollUpRegion, if_pos hm, h₁]
    exact h₂
  · rw [hcells₂ j x hj hj' hx hx', hcells₁ j x hj hj' hx hx']
    unfold lastRow
    by_cases hlast : j = s.currentScrollbackLines + s.scrollBottom
    · rw [if_pos hlast, if_neg (by omega), if_pos hlast]
    · rw [if_neg hlast, if_neg hlast]

/-- The cells of a visible row in terms of rows, after a drawing step. -/
theorem Draws.visibleCell_eq (hd : Draws s s') (h : s.Wf) {y : Int} (hy : 0 ≤ y)
    (hy' : y < s.height) (x : Int) :
    s'.visibleCell y x = s'.cellAt (s.currentScrollbackLines + y) x := by
  rw [(hd.wf h).visibleCell_eq hy (by rw [hd.height_eq]; exact hy'), hd.count_eq]

theorem scrollUp_spec (h : s.Wf) (t : Terminal) (hm : s.scrollTop < s.scrollBottom)
    (hfull : ¬s.FullMargins) (hfront : s.RegionInFront) :
    ∃ s', s.scrollUp t = .ok s' ∧ ScrolledUp s s' := by
  have hmar := h.margins
  obtain ⟨s', hok, hd, hcells⟩ := scrollUp_cells h t hm hfull hfront
  unfold firstRow lastRow at hcells
  refine ⟨s', hok, ?_, ?_, ?_, ?_⟩
  · intro y x hy hy' hx hx'
    have hr := h.visible_range (y := y) (by omega) (by omega)
    rw [hd.visibleCell_eq h (by omega) (by omega), hcells _ x hr.1 hr.2 hx hx',
      if_pos (by omega), h.visibleCell_eq (by omega) (by omega), Int.add_assoc]
  · intro x hx hx'
    have hr := h.visible_range (y := s.scrollBottom) (by omega) hmar.2.2
    rw [hd.visibleCell_eq h (by omega) hmar.2.2, hcells _ x hr.1 hr.2 hx hx', if_neg (by omega),
      if_pos rfl]
    exact (h.blankLine_ok t).2 x
  · intro y x hy hy' hout hx hx'
    have hr := h.visible_range hy hy'
    rw [hd.visibleCell_eq h hy hy', hcells _ x hr.1 hr.2 hx hx', if_neg (by omega),
      if_neg (by omega), h.visibleCell_eq hy hy']
  · intro i x hi hi' hx hx'
    have hT : s.totalHeight = s.maxScrollbackLines + s.height := rfl
    have hc := h.count_range
    rw [hcells i x hi (by omega) hx hx', if_neg (by omega), if_neg (by omega)]

theorem scrollDown_spec (h : s.Wf) (t : Terminal) (hm : s.scrollTop < s.scrollBottom)
    (hfront : s.RegionInFront) :
    ∃ s', s.scrollDown t = .ok s' ∧ ScrolledDown s s' := by
  have hmar := h.margins
  obtain ⟨s₁, h₁, hd₁, hcells₁⟩ := moveRegionDown_spec h hm hfront
  obtain ⟨s₂, h₂, hd₂, hcells₂⟩ := blankRow_cells (hd₁.wf h) t (y := s₁.scrollTop)
    (by rw [hd₁.margins_eq.1]; omega) (by rw [hd₁.margins_eq.1, hd₁.height_eq]; omega)
  have hd := hd₁.trans hd₂
  rw [hd₁.margins_eq.1, hd₁.count_eq, hd₁.totalHeight_eq, hd₁.width_eq] at hcells₂
  unfold firstRow lastRow at hcells₁
  refine ⟨s₂, ?_, ?_, ?_, ?_, ?_⟩
  · simp only [scrollDown, h.scrollAsserts_ok, ok_bind, h₁]
    exact h₂
  · intro y x hy hy' hx hx'
    have hr := h.visible_range (y := y) (by omega) (by omega)
    rw [hd.visibleCell_eq h (by omega) (by omega), hcells₂ _ x hr.1 hr.2 hx hx',
      if_neg (by omega), hcells₁ _ x hr.1 hr.2 hx hx', if_pos (by omega),
      h.visibleCell_eq (by omega) (by omega), Int.add_sub_assoc]
  · intro x hx hx'
    have hr := h.visible_range (y := s.scrollTop) hmar.1 (by omega)
    rw [hd.visibleCell_eq h hmar.1 (by omega), hcells₂ _ x hr.1 hr.2 hx hx', if_pos rfl]
    exact ((hd₁.wf h).blankLine_ok t).2 x
  · intro y x hy hy' hout hx hx'
    have hr := h.visible_range hy hy'
    rw [hd.visibleCell_eq h hy hy', hcells₂ _ x hr.1 hr.2 hx hx', if_neg (by omega),
      hcells₁ _ x hr.1 hr.2 hx hx', if_neg (by omega), h.visibleCell_eq hy hy']
  · intro i x hi hi' hx hx'
    have hT : s.totalHeight = s.maxScrollbackLines + s.height := rfl
    have hc := h.count_range
    rw [hcells₂ i x hi (by omega) hx hx', if_neg (by omega), hcells₁ i x hi (by omega) hx hx',
      if_neg (by omega)]

theorem moveRegionUp_behind (h : s.Wf) (hm : s.scrollTop < s.scrollBottom)
    (hbehind : ¬s.RegionInFront) : s.moveRegionUp = .error .outOfBounds := by
  unfold RegionInFront at hbehind
  have hmove := moveCells_behind h (d := s.scrollTop) (k := s.scrollTop + 1)
    (n := s.scrollBottom - s.scrollTop) (by omega) (by omega)
  simp only [moveRegionUp, h.region_lines, ok_bind, h.lines_lt_iff hm]
  rw [if_pos (Or.inr (by omega)), hmove]

theorem moveRegionDown_behind (h : s.Wf) (hm : s.scrollTop < s.scrollBottom)
    (hbehind : ¬s.RegionInFront) : s.moveRegionDown = .error .outOfBounds := by
  unfold RegionInFront at hbehind
  have hmove := moveCells_behind h (d := s.scrollTop + 1) (k := s.scrollTop)
    (n := s.scrollBottom - s.scrollTop) (by omega) (by omega)
  simp only [moveRegionDown, if_pos hm, h.region_lines, ok_bind, h.lines_lt_iff hm]
  rw [if_pos (Or.inr (by omega)), hmove]

theorem scrollUp_behind (h : s.Wf) (t : Terminal) (hm : s.scrollTop < s.scrollBottom)
    (hfull : ¬s.FullMargins) (hbehind : ¬s.RegionInFront) :
    s.scrollUp t = .error .outOfBounds := by
  simp only [scrollUp, h.scrollAsserts_ok, ok_bind, if_neg hfull, scrollUpRegion, if_pos hm,
    moveRegionUp_behind h hm hbehind]
  rfl

theorem scrollDown_behind (h : s.Wf) (t : Terminal) (hm : s.scrollTop < s.scrollBottom)
    (hbehind : ¬s.RegionInFront) : s.scrollDown t = .error .outOfBounds := by
  simp only [scrollDown, h.scrollAsserts_ok, ok_bind, moveRegionDown_behind h hm hbehind]
  rfl

/-- Each of the two operations scrolls the region as it should exactly when the region does
not lie wholly behind the wrap point of the ring. The code moves all of its rows with one
`memmove` unless the address of its last row is smaller than that of its first, and
computes the address of the first without wrapping it. -/
theorem scroll_region_iff {F : Foundation} {c : VT100.Config} (hr : VT100.Reachable F c)
    (t : Terminal) (hm : c.2.screen.scrollTop < c.2.screen.scrollBottom)
    (hfull : ¬c.2.screen.FullMargins) :
    ((∃ s', c.2.screen.scrollUp t = .ok s' ∧ ScrolledUp c.2.screen s') ↔
      c.2.screen.topLine + c.2.screen.scrollTop < c.2.screen.totalHeight) ∧
    ((∃ s', c.2.screen.scrollDown t = .ok s' ∧ ScrolledDown c.2.screen s') ↔
      c.2.screen.topLine + c.2.screen.scrollTop < c.2.screen.totalHeight) := by
  have h := (VT100.reachable_wf hr).screen
  refine ⟨⟨?_, scrollUp_spec h t hm hfull⟩, ⟨?_, scrollDown_spec h t hm⟩⟩
  · rintro ⟨s', hup, -⟩
    by_contra hbehind
    rw [scrollUp_behind h t hm hfull hbehind] at hup
    cases hup
  · rintro ⟨s', hdown, -⟩
    by_contra hbehind
    rw [scrollDown_behind h t hm hbehind] at hdown
    cases hdown

/-- Two rows of text and margins on a new object, where the screen sits at the start of the
ring: the second row of text is the first one of the region. -/
theorem text_scroll_region : ∃ v v₁ v₂, VT100.init ⟨0, 0, 0⟩ = .ok v ∧
    v.readInputStream Foundation.latin1 VT100.textBytes = .ok v₁ ∧
    v₁.readInputStream Foundation.latin1 VT100.setMarginsBytes = .ok v₂ ∧
    (v₂.screen.scrollTop = 1 ∧ v₂.screen.scrollBottom = 2) ∧
    (∃ s', v₂.screen.scrollUp v₂.terminal = .ok s' ∧ ScrolledUp v₂.screen s') ∧
    ∃ s', v₂.screen.scrollDown v₂.terminal = .ok s' ∧ ScrolledDown v₂.screen s' := by
  obtain ⟨v, v₁, v₂, hv, h₁, h₂, -, hm, htop, htotal⟩ :=
    VT100.init_text_setMargins Foundation.latin1_asciiExact ⟨0, 0, 0⟩
  have hiff := scroll_region_iff
    (((VT100.init_reachable hv).readInputStream h₁).readInputStream h₂) v₂.terminal
    (by rw [hm.1, hm.2]; decide) (fun hfull => by have := hm.1.symm.trans hfull.1; omega)
  have hfront : v₂.screen.topLine + v₂.screen.scrollTop < v₂.screen.totalHeight := by
    rw [htop, htotal, hm.1]
    decide
  exact ⟨v, v₁, v₂, hv, h₁, h₂, hm, hiff.1.mpr hfront, hiff.2.mpr hfront⟩

/-- After 1048 line feeds on a new object the first row of the screen is the last
line of the ring, and the region of the rows 1 and 2 lies behind the wrap point. -/
theorem lineFeeds_scroll_outOfBounds : ∃ v v₁ v₂, VT100.init ⟨0, 0, 0⟩ = .ok v ∧
    v.readInputStream Foundation.latin1 (List.replicate 1048 0x0a) = .ok v₁ ∧
    v₁.readInputStream Foundation.latin1 VT100.setMarginsBytes = .ok v₂ ∧
    v₂.screen.scrollTop < v₂.screen.scrollBottom ∧ ¬v₂.screen.FullMargins ∧
    v₂.screen.scrollUp v₂.terminal = .error .outOfBounds ∧
    v₂.screen.scrollDown v₂.terminal = .error .outOfBounds := by
  obtain ⟨v, v₁, v₂, hv, h₁, h₂, hwf, htop, hheight, htotal, hm⟩ :=
    VT100.init_lineFeeds_setMargins Foundation.latin1_asciiExact ⟨0, 0, 0⟩ 1048
  have hlt : v₂.screen.scrollTop < v₂.screen.scrollBottom := by
    rw [hm.1, hm.2]
    decide
  have hfull : ¬v₂.screen.FullMargins := fun hfull => by
    have := hm.1.symm.trans hfull.1
    omega
  have hbehind : ¬v₂.screen.RegionInFront := by
    unfold RegionInFront
    rw [htop, hm.1, htotal]
    decide
  exact ⟨v, v₁, v₂, hv, h₁, h₂, hlt, hfull, scrollUp_behind hwf.screen _ hlt hfull hbehind,
    scrollDown_behind hwf.screen _ hlt hbehind⟩

end Screen

end MobileTerminal
