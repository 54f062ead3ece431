import MobileTerminal.NewLine

/-!
# The scrollback and the visible rows

The rows a reader sees are the rows of the scrollback followed by the visible
ones. In the ring they are lines at consecutive positions, with the oldest row
of the scrollback `current_scrollback_lines` lines in front of `screen_top`, and
the position wraps around at the end of the buffer.

Both parts are lists here. The theorems about scrolling, the alternate screen
and the append-only scrollback are stated about these lists, so that none of
them mentions the ring: two screens agree on a part when they agree on its
cells, the wrap marks among them (`scrollbackRows_congr`, `visibleRows_congr`).
A line feed that rotates the ring moves the top visible row to the end of the
scrollback, and `scrollbackRows_append_take` is this fact with the position left
out.

Flags of the dirty map are not cells. The operations that only set flags leave
both lists alone by the frame lemmas at the end.
-/

namespace MobileTerminal

namespace Screen

variable {s s' : Screen}

/-- The rows that have left the screen, the oldest first. -/
def scrollbackRows (s : Screen) : List (List ScreenChar) :=
  s.rows.take s.currentScrollbackLines.toNat

def visibleRows (s : Screen) : List (List ScreenChar) :=
  s.rows.drop s.currentScrollbackLines.toNat

/-- The scrollback and the first rows of the screen. -/
theorem scrollbackRows_append_take (s : Screen) (n : Nat) :
    s.scrollbackRows ++ s.visibleRows.take n = s.rows.take (s.currentScrollbackLines.toNat + n) := by
  rw [scrollbackRows, visibleRows, ← List.take_add]

theorem Wf.scrollbackRows_length (h : s.Wf) :
    (s.scrollbackRows.length : Int) = s.currentScrollbackLines := by
  have hc := h.count_range
  have hlen := h.rows_length_eq
  have hh := h.height_pos
  rw [scrollbackRows, List.length_take]
  omega

theorem Wf.visibleRows_length (h : s.Wf) : (s.visibleRows.length : Int) = s.height := by
  have hc := h.count_range
  have hlen := h.rows_length_eq
  have hh := h.height_pos
  rw [visibleRows, List.length_drop]
  omega

theorem scrollbackRows_getElem (s : Screen) {i : Nat} (hi : i < s.scrollbackRows.length) :
    s.scrollbackRows[i] = s.row i := by
  simp only [scrollbackRows, List.getElem_take]
  rw [rows_getElem]

theorem visibleRows_getElem (s : Screen) {i : Nat} (hi : i < s.visibleRows.length) :
    s.visibleRows[i] = s.row (s.currentScrollbackLines.toNat + i) := by
  simp only [visibleRows, List.getElem_drop]
  rw [rows_getElem]

/-- A row of one screen is a row of the other when the cells are the same. -/
theorem row_congr {i j : Nat} (hwidth : s'.width = s.width)
    (hcell : ∀ x, 0 ≤ x → x ≤ s.width → s'.cellAt i x = s.cellAt j x) : s'.row i = s.row j := by
  have hrw : s'.realWidth = s.realWidth := congrArg (· + 1) hwidth
  refine row_ext (by rw [row_length, hrw]) fun k hk => ?_
  rw [row_length] at hk
  unfold realWidth at hk
  rw [row_getElem]
  exact hcell k (by omega) (by omega)

theorem Wf.scrollbackRows_congr (h : s.Wf) (h' : s'.Wf) (hwidth : s'.width = s.width)
    (hcount : s'.currentScrollbackLines = s.currentScrollbackLines)
    (hcell : ∀ i x, 0 ≤ i → i < s.currentScrollbackLines → 0 ≤ x → x ≤ s.width →
      s'.cellAt i x = s.cellAt i x) : s'.scrollbackRows = s.scrollbackRows := by
  have hlen := h.scrollbackRows_length
  have hlen' := h'.scrollbackRows_length
  apply List.ext_getElem
  · omega
  · intro i hi' hi
    rw [scrollbackRows_getElem s' hi', scrollbackRows_getElem s hi]
    exact row_congr hwidth (fun x => hcell i x (by omega) (by omega))

theorem Wf.visibleRows_congr (h : s.Wf) (h' : s'.Wf) (hwidth : s'.width = s.width)
    (hheight : s'.height = s.height)
    (hcell : ∀ y x, 0 ≤ y → y < s.height → 0 ≤ x → x ≤ s.width →
      s'.visibleCell y x = s.visibleCell y x) : s'.visibleRows = s.visibleRows := by
  have hlen := h.visibleRows_length
  have hlen' := h'.visibleRows_length
  have hc := h.count_range
  have hc' := h'.count_range
  apply List.ext_getElem
  · omega
  · intro i hi' hi
    rw [visibleRows_getElem s' hi', visibleRows_getElem s hi]
    refine row_congr hwidth fun x hx hx' => ?_
    have hsame := hcell i x (by omega) (by omega) hx hx'
    rw [h'.visibleCell_eq (by omega) (by omega), h.visibleCell_eq (by omega) (by omega)] at hsame
    rw [Int.natCast_add, Int.natCast_add, Int.toNat_of_nonneg hc.1, Int.toNat_of_nonneg hc'.1]
    exact hsame

/-! ## Dirty flags are not cells -/

theorem dirtyFill_bufferLines {v : Bool} {i n : Int} (hok : s.dirtyFill v i n = .ok s') :
    s'.bufferLines = s.bufferLines := by
  obtain ⟨d, -, hok⟩ := bind_eq_ok.mp hok
  cases hok
  rfl

theorem refresh_bufferLines (hok : s.refresh = .ok s') : s'.bufferLines = s.bufferLines := by
  unfold refresh at hok
  split at hok
  · exact dirtyFill_bufferLines hok
  · cases hok
    rfl

theorem setDirty_bufferLines (hok : s.setDirty = .ok s') : s'.bufferLines = s.bufferLines := by
  obtain ⟨s₁, h₁, hok⟩ := bind_eq_ok.mp hok
  exact (refresh_bufferLines hok).trans (dirtyFill_bufferLines h₁)

end Screen

end MobileTerminal
