import MobileTerminal.Sequence

/-!
# The ring

The scrollback and the screen share one buffer. What its readers rely on is
`RingOk`: the pointers of the source stay in step, every row is a line of the
buffer, and no two rows are the same line.

`Wf` speaks of line numbers and serves the proofs; `RingOk` speaks of the
pointers `screen_top`, `scrollback_top` and `last_buffer_line` as the source has
them, and of the addresses that the lookups return, so that it can be compared
with the code directly. It follows from `Wf` by arithmetic alone
(`ringOk_of_wf`), and hence it holds in every reachable state, after every token
and between the calls (`reachable_ringOk`).
-/

namespace MobileTerminal

namespace VT100

variable {F : Foundation}

/-- The state of the ring in terms of the pointers of the source: `T` lines of
`WIDTH + 1` cells, two line-aligned pointers that are `current_scrollback_lines`
apart in the ring, and a dirty map of one flag for each visible cell. The rows
seen from the scrollback and from the screen agree, and different rows are
different lines of the buffer. -/
structure RingOk (s : Screen) : Prop where
  buffer_size : s.bufferLines.size = s.totalHeight * s.realWidth
  last_line : s.lastBufferLine = (s.totalHeight - 1) * s.realWidth
  top_line : ∃ l, 0 ≤ l ∧ l < s.totalHeight ∧ s.screenTop = l * s.realWidth
  scrollback_line : ∃ l, 0 ≤ l ∧ l < s.totalHeight ∧ s.scrollbackTop = l * s.realWidth
  count_le : s.currentScrollbackLines ≤ s.maxScrollbackLines
  top_eq : s.screenTop / s.realWidth =
    (s.scrollbackTop / s.realWidth + s.currentScrollbackLines) % s.totalHeight
  dirty_size : s.dirty.size = s.width * s.height
  rows_agree : ∀ i, 0 ≤ i → i < s.height →
    ∃ a, s.getLineAtIndex (s.currentScrollbackLines + i) = .ok a ∧
      s.getLineAtScreenIndex i = .ok a
  rows_in_buffer : ∀ i, 0 ≤ i → i < s.numberOfLines →
    ∃ l, 0 ≤ l ∧ l < s.totalHeight ∧ s.getLineAtIndex i = .ok (l * s.realWidth)
  rows_distinct : ∀ i j, 0 ≤ i → i < s.numberOfLines → 0 ≤ j → j < s.numberOfLines →
    s.getLineAtIndex i = s.getLineAtIndex j → i = j

theorem ringOk_of_wf {s : Screen} (h : s.Wf) : RingOk s := by
  have hs := h.scrollback_range
  have hc := h.count_range
  have hh := h.height_pos
  have hT : s.totalHeight = s.maxScrollbackLines + s.height := rfl
  have hn := h.numberOfLines_eq
  refine {
    buffer_size := h.buffer_size
    last_line := h.last_line
    top_line := ⟨s.topLine, h.top_range.1, h.top_range.2, h.top_aligned⟩
    scrollback_line := ⟨s.scrollbackLine, hs.1, hs.2, h.scrollback_aligned⟩
    count_le := hc.2
    top_eq := ?_
    dirty_size := h.dirty_size
    rows_agree := ?_
    rows_in_buffer := ?_
    rows_distinct := ?_ }
  · exact h.top_eq.trans (wrapLine_eq_emod (by omega) (by omega))
  · intro i hi hi'
    refine ⟨_, h.indexLine (by omega), ?_⟩
    rw [h.screenLine hi, h.wrap_top hi hi']
  · intro i hi hi'
    exact ⟨_, wrapLine_nonneg (by omega), wrapLine_lt (by omega), h.indexLine hi⟩
  · intro i j hi hi' hj hj' heq
    rw [h.indexLine hi, h.indexLine hj] at heq
    have hline := (line_inj h.realWidth_pos).mp (Except.ok.inj heq)
    have := wrapLine_inj (by omega) (by omega) hline
    omega

/-- The ring-buffer representation invariant holds in every state that a run from a new object
reaches, after every token and between the calls, with resizes and modes among the steps.
All of it follows from well-formedness, so no handler needs to know it. -/
theorem reachable_ringOk {c : Config} (h : Reachable F c) : RingOk c.2.screen :=
  ringOk_of_wf (reachable_wf h).screen

/-- After 1040 line feeds and a text on a new object: the scrollback is full, sixteen rows have
been dropped, and the screen lies across the end of the ring. -/
theorem lineFeeds_ringOk : ∃ v v', VT100.init ⟨0, 0, 0⟩ = .ok v ∧
    v.readInputStream Foundation.latin1 (List.replicate 1040 0x0a ++ [0x61, 0x62]) = .ok v' ∧
    v'.screen.currentScrollbackLines = 1000 ∧ v'.screen.topLine = 1016 ∧ RingOk v'.screen := by
  obtain ⟨v, v', done, row, hv, hok, -, -, hs, hdone, -⟩ :=
    init_lineFeeds Foundation.latin1_asciiExact ⟨0, 0, 0⟩ 1040 [0x61, 0x62]
      (by simp [IsPrintable]) (by decide)
  have hreach := (init_reachable (F := Foundation.latin1) hv).readInputStream hok
  refine ⟨v, v', hv, hok, ?_, ?_, reachable_ringOk hreach⟩
  · rw [hs.count_eq, hdone]
    rfl
  · rw [hs.top_eq, hdone]
    rfl

end VT100

end MobileTerminal
