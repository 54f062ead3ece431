import MobileTerminal.ShowsPlain

/-!
# What is written is shown

A program writes texts, control characters and control sequences, and a terminal
without margins shows them piece by piece, however the stream of their bytes is
cut (`feed_written`). The right side of the result is a fold over the pieces;
neither bytes nor tokens occur in it.

Reading finds the pieces again, except that texts in a row are read as one text.
That makes no difference: on the display a text is placed character by
character, so two texts are one (`putString_append`), and whatever is shown of
pieces is shown of merged ones (`shows_merge`).
-/

namespace MobileTerminal

namespace Display

variable {F : Foundation} {d : Display} {w h : Int}

/-- What text is shown with. -/
def pen (d : Display) : Block Bool × Int × Bool := (d.charset, d.shift, d.printToAnsi)

theorem putChar_pen (d : Display) (c : UniChar) : (d.putChar c).pen = d.pen := by
  unfold putChar newLine
  split
  · rfl
  · split <;> rfl

theorem foldl_putChar_pen (d : Display) (cs : List UniChar) :
    (cs.foldl putChar d).pen = d.pen := by
  induction cs generalizing d with
  | nil => rfl
  | cons c cs ih => exact (ih _).trans (d.putChar_pen c)

theorem putString_append {a b : List UniChar} (ha : a ≠ []) (hb : b ≠ []) :
    d.putString F (a ++ b) true = (d.putString F a true).putString F b true := by
  have hab : a ++ b ≠ [] := List.append_ne_nil_of_left_ne_nil ha b
  by_cases hprint : d.printToAnsi = true
  · have hnext : (d.printString a).printToAnsi = true := hprint
    have hfirst : d.putString F a true = d.printString a := if_pos hprint
    rw [hfirst, putString, if_pos hprint, putString, if_pos hnext]
    simp only [printString, if_neg ha, if_neg hb, if_neg hab, Option.map_map]
    congr 3
    funext string
    exact (List.append_assoc string a b).symm
  · have hpen := d.foldl_putChar_pen (d.shownChars F a true)
    simp only [pen, Prod.mk.injEq] at hpen
    obtain ⟨hcharset, hshift, hansi⟩ := hpen
    have hfirst : d.putString F a true = (d.shownChars F a true).foldl putChar d := by
      rw [putString, if_neg hprint, if_neg ha]
    rw [hfirst, putString, if_neg hprint, if_neg hab, putString, hansi, if_neg hprint, if_neg hb,
      ← List.foldl_append]
    have hsecond : ((d.shownChars F a true).foldl putChar d).shownChars F b true =
        d.shownChars F b true := by
      simp only [shownChars, if_true] at hcharset hshift ⊢
      rw [hcharset, hshift]
    have hboth : d.shownChars F (a ++ b) true = d.shownChars F a true ++ d.shownChars F b true := by
      simp only [shownChars, if_true]
      split
      · exact List.map_append
      · rfl
    rw [hsecond, hboth]

def showPiece (F : Foundation) (h : Int) (d : Display) (p : Piece) : Display :=
  d.execute F (p.token h)

theorem shows_merge {pieces : List Piece} (hwell : ∀ p ∈ pieces, p.WellFormed) (d : Display) :
    (merge pieces).foldl (showPiece F h) d = pieces.foldl (showPiece F h) d := by
  refine foldl_merge (fun d a b ha hb => ?_) hwell d
  have happend := d.putString_append (F := F) (a := a.map UInt8.toUInt16)
    (b := b.map UInt8.toUInt16) (mt List.map_eq_nil_iff.mp ha.1) (mt List.map_eq_nil_iff.mp hb.1)
  rw [← List.map_append] at happend
  exact happend

end Display

namespace VT100

variable {F : Foundation} {v : VT100} {w h : Int}

/-- The tokens of merged pieces are tokens of the pieces, texts apart. -/
theorem merge_plain {pieces : List Piece}
    (hplain : ∀ p ∈ pieces, Display.Plain w h (p.token h)) :
    ∀ p ∈ merge pieces, Display.Plain w h (p.token h) :=
  merge_mem (fun _ _ _ _ => trivial) hplain

theorem stream_written (hwf : v.Wf) (hopen : v.display.Open w h) {pieces : List Piece}
    (hwell : ∀ p ∈ pieces, p.WellFormed) (hplain : ∀ p ∈ pieces, Display.Plain w h (p.token h)) :
    Guarded (execute F) (fun v tok => v.screen.Admits tok) v
        (tokensOf v.screen.height (written pieces)) ∧
      Legible (written pieces) ∧ unfinished v.screen.height (written pieces) = [] ∧
      (tokensOf v.screen.height (written pieces)).foldl (Display.execute F) v.display =
        pieces.foldl (Display.showPiece F h) v.display ∧
      Display.Open w h (pieces.foldl (Display.showPiece F h) v.display) := by
  have hheight : v.screen.height = h := hopen.height_eq
  obtain ⟨htokens, hrest, hlegible⟩ :=
    @lex_written h _ (merge_wellFormed hwell) (merge_apart pieces)
  rw [written_merge] at htokens hrest hlegible
  have hfold : (tokensOf h (written pieces)).foldl (Display.execute F) v.display =
      pieces.foldl (Display.showPiece F h) v.display := by
    rw [htokens, List.foldl_map, ← Display.shows_merge hwell]
    rfl
  have hplain' : ∀ tok ∈ tokensOf h (written pieces), Display.Plain w h tok := by
    rw [htokens]
    exact List.forall_mem_map.mpr (merge_plain hplain)
  obtain ⟨hguard, hstays⟩ := stream_plain (F := F) hwf hopen hlegible hplain'
  rw [hheight]
  rw [hfold] at hstays
  exact ⟨hguard, hlegible, hrest, hfold, hstays⟩

/-- Whatever a program writes is shown piece by piece, however its bytes are cut: the calls
complete, the display that is shown is a fold over the pieces, it is open as before, and
nothing is left pending. -/
theorem feed_written (hF : F.AsciiExact) (hwf : v.Wf) (hempty : v.terminal.pending = [])
    (hopen : v.display.Open w h) {pieces : List Piece} (hwell : ∀ p ∈ pieces, p.WellFormed)
    (hplain : ∀ p ∈ pieces, Display.Plain w h (p.token h)) {chunk : List UInt8}
    {chunks : List (List UInt8)} (hchunks : (chunk :: chunks).flatten = written pieces) :
    Refines (fun v d => v.Displays d ∧ d.Open w h ∧ v.terminal.pending = [])
      (feed F (chunk :: chunks) v) (pieces.foldl (Display.showPiece F h) v.display) := by
  obtain ⟨hguard, hlegible, hrest, hfold, hstays⟩ := stream_written (F := F) hwf hopen hwell hplain
  have hfeed := feed_display hF hwf hempty hlegible hguard hchunks
  rw [hfold, hrest] at hfeed
  exact hfeed.mono fun _ _ hv' => ⟨hv'.1, hstays, hv'.2⟩

/-- `ab`, a backspace and `c` on a new object of three columns and two rows. -/
theorem sized_feed_written : ∃ v v' u, VT100.init ⟨0, 0, 0⟩ = .ok v ∧
    v.setScreenSize 3 2 = .ok v' ∧
    feed Foundation.latin1 [[0x61], [0x62, 0x08, 0x63]] v' = .ok u ∧
    (u.screen.visibleCell 0 0).ch = 0x61 ∧ (u.screen.visibleCell 0 1).ch = 0x63 ∧
    u.screen.cursorX = 2 := by
  obtain ⟨v, v', hv, hsize, hwf, hempty, hopen, hs⟩ :=
    sized_open ⟨0, 0, 0⟩ (w := 3) (h := 2) (by decide) (by decide) (by decide)
  have hwell : ∀ p ∈ [Piece.text [0x61], .text [0x62], .control 0x08 [], .text [0x63]],
      p.WellFormed := by
    decide +kernel
  obtain ⟨u, hu, ⟨-, hshows⟩, hopen', -⟩ := feed_written Foundation.latin1_asciiExact hwf hempty
    hopen hwell (by decide +kernel) (show [[0x61], [0x62, 0x08, 0x63]].flatten = _ from rfl)
  have hwidth : v'.display.width = 3 := hopen.width_eq
  have hx : v'.display.cursorX = 0 := hs.cursor.1
  have hy : v'.display.cursorY = 0 := hs.cursor.2
  have hset : v'.display.charset = Block.alloc 4 false := hs.charset_eq
  have hprint : v'.display.printToAnsi = false := hs.print_eq
  have hrows : u.screen.height = 2 := hshows.height.symm.trans hopen'.height_eq
  have hcols : u.screen.width = 3 := hshows.width.symm.trans hopen'.width_eq
  have hcolumn := hshows.cursorX
  have hfirst := hshows.cells 0 0 (by decide) (by omega) (by decide) (by omega)
  have hlast := hshows.cells 0 1 (by decide) (by omega) (by decide) (by omega)
  simp [Display.showPiece, Display.execute, Display.setMode, Display.putToken, Piece.token,
    textToken, Display.putString, hprint, Display.shownChars, hset, Block.alloc, Display.putChar,
    Display.place, hx, hwidth, hy, Cells.put, decodePlain, escByte, Display.putControl]
    at hcolumn hfirst hlast
  exact ⟨v, v', u, hv, hsize, hu, hfirst, hlast, hcolumn.symm⟩

end VT100

end MobileTerminal
