import MobileTerminal.Sequence

/-!
# Resizing re-wraps the text

The result of `resizeWidth:height:` in terms of what a reader sees: in every
reachable state whose bottom row is not marked as wrapped, the rows after the
call are the last ones of the old logical lines laid out at the new width, with
blank rows below them when they do not fill the screen.

The bottom row matters because the copy loops follow marks. A mark on the last
row of the screen would lead them on into lines that are no rows, and with the
mark absent the last logical line ends on the screen (`Wf.closed_rows`).
Everything else is what `resizeWidth_spec` says for a reachable state, which is
well formed.

That the call completes is part of the statement, for every new size with at
least one row and one column.
-/

namespace MobileTerminal

open Wrap

namespace Screen

variable {s : Screen}

/-- When the bottom row is not marked, the last logical line ends on the screen. -/
theorem Wf.closed_rows (hwf : s.Wf) (hbottom : (s.visibleCell (s.height - 1) s.width).ch = 0) :
    Closed ScreenChar.isNul s.rows := by
  have hh := hwf.height_pos
  have hw := hwf.width_pos
  have hc := hwf.count_range
  have hlen : s.rows.length = (s.currentScrollbackLines + s.height).toNat := by
    rw [rows_length, hwf.numberOfLines_eq]
  intro row hrow
  rw [List.getLast?_eq_getElem?, List.getElem?_eq_getElem (by omega), Option.mem_some_iff] at hrow
  subst hrow
  have hline := hwf.line (i := s.rows.length - 1) (by omega)
  rw [hwf.visibleCell_eq (by omega) (by omega), hwf.cellAt_eq] at hbottom
  rw [hline.marked_eq, show ((s.rows.length - 1 : Nat) : Int) =
    s.currentScrollbackLines + (s.height - 1) by omega,
    show (s.width.toNat : Int) = s.width by omega]
  simp [ScreenChar.isNul, hbottom]

end Screen

namespace VT100

variable {F : Foundation} {c : Config}

/-- In every reachable state with the cursor on the screen and an unmarked bottom
row, a resize completes, produces the rows `out` (the rows without the blank ones
at the end, or the logical lines that start among them laid out again), and a
reader finds the last `max_scrollback_lines + h` of them, followed by blank rows
up to the height. -/
theorem resizeWidth_rewraps (hr : Reachable F c) (t : Terminal)
    (hcursor : 0 ≤ c.2.screen.cursorY ∧ c.2.screen.cursorY < c.2.screen.height)
    (hbottom : (c.2.screen.visibleCell (c.2.screen.height - 1) c.2.screen.width).ch = 0)
    {w h : Nat} (hw : 1 ≤ w) (hh : 1 ≤ h)
    (hne : ¬((w : Int) = c.2.screen.width ∧ (h : Int) = c.2.screen.height)) :
    ∃ s' out, c.2.screen.resizeWidth t w h = .ok s' ∧ c.2.screen.Produces w out ∧
      Screen.ShowsLast c.2.screen.maxScrollbackLines h out s' := by
  have hwf := (reachable_wf hr).screen
  obtain ⟨s', out, hok, hout, hres⟩ := Screen.resizeWidth_spec t hwf hcursor.1 hcursor.2
    (hwf.closed_rows hbottom) hw hh hne
  exact ⟨s', out, hok, hout, hres.shows⟩

/-- A line that fills a row and a part of the next, resized to 40 columns and 10 rows. -/
theorem line_resizeWidth_rewraps : ∃ v v' : VT100, VT100.init ⟨0, 0, 0⟩ = .ok v ∧
    v.readInputStream Foundation.latin1 (0x0a :: List.replicate 100 0x61) = .ok v' ∧
    ∃ s' out, v'.screen.resizeWidth v'.terminal 40 10 = .ok s' ∧ v'.screen.Produces 40 out ∧
      Screen.ShowsLast v'.screen.maxScrollbackLines 10 out s' := by
  have hline : ∀ b ∈ List.replicate 100 (0x61 : UInt8), IsPrintable b := by
    intro b hb
    rw [List.eq_of_mem_replicate hb]
    exact ⟨by decide, by decide⟩
  obtain ⟨v, v', done, full, row, hv, hok, -, -, hs, hdone, hfull, -⟩ :=
    init_line Foundation.latin1_asciiExact ⟨0, 0, 0⟩ 1 _ hline
  have hrows : (done ++ full).length = 2 := by
    rw [List.length_append, hdone, hfull, List.length_replicate]
    rfl
  have hheight : v'.screen.height = 25 := hs.height_eq
  have hwidth : v'.screen.width = 80 := hs.width_eq
  have hbottom : (v'.screen.visibleCell (v'.screen.height - 1) v'.screen.width).ch = 0 := by
    have hcell := hs.blank_below (y := 24) (k := 80) (by omega) (by decide) (by decide)
    rw [hheight, hwidth]
    exact hcell
  refine ⟨v, v', hv, hok, ?_⟩
  refine resizeWidth_rewraps (w := 40) (h := 10)
    ((init_reachable (F := Foundation.latin1) hv).readInputStream hok) v'.terminal
    hs.cursor_range hbottom (by decide) (by decide) ?_
  intro hc
  rw [hwidth] at hc
  exact absurd hc.1 (by decide)

end VT100

end MobileTerminal
