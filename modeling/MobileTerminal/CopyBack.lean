import MobileTerminal.Coloured

/-!
# Text that is copied is the text that was printed

A selection counts rows from the oldest one of the scrollback, and so does the
text that `Printed` follows: a row that leaves the screen goes to the end of the
scrollback, so no cell changes its place until the scrollback is full. What a
program prints is therefore found again, without its colours (`print_copies`):
selecting from where the cursor was to where it is and copying gives back the
characters that were printed.

Two things stand between the cells and the bytes that are copied. A cell without
a character would be copied as a blank, but every cell in front of the cursor
has been printed. And the text is encoded as UTF-8, in which the characters of
ASCII are the bytes they came as (`utf8Data_ascii`).
-/

namespace MobileTerminal

/-- ASCII characters are copied as the bytes they are. -/
theorem utf8Data_ascii {bytes : List UInt8} (h : ∀ b ∈ bytes, b < 0x80) :
    utf8Data (bytes.map UInt8.toUInt16) = some bytes := by
  have hunit : ∀ b : UInt8, b < 0x80 →
      (isHighSurrogate b.toUInt16 || isLowSurrogate b.toUInt16) = false ∧
        String.utf8EncodeChar (Char.ofNat b.toUInt16.toNat) = [b] := by
    intro b hb
    have hlt : b.toNat < 128 := UInt8.lt_iff_toNat_lt.mp hb
    constructor
    · simp only [isHighSurrogate, isLowSurrogate, Bool.or_eq_false_iff, Bool.and_eq_false_iff,
        decide_eq_false_iff_not, UInt16.le_iff_toNat_le, UInt8.toNat_toUInt16, UInt16.reduceToNat]
      omega
    · have hval : (Char.ofNat b.toNat).val.toNat = b.toNat := by
        rw [Char.ofNat, dif_pos (.inl (by omega))]
        rfl
      rw [UInt8.toNat_toUInt16]
      simp [String.utf8EncodeChar, hval, show b.toNat ≤ 127 by omega]
  induction bytes with
  | nil => rfl
  | cons b bytes ih =>
      obtain ⟨hsingle, hbyte⟩ := hunit b (h b List.mem_cons_self)
      obtain ⟨hhigh, hlow⟩ := Bool.or_eq_false_iff.mp hsingle
      have hrest := ih fun c hc => h c (List.mem_cons_of_mem b hc)
      cases bytes with
      | nil => rw [List.map_singleton, utf8Data, hsingle, if_neg Bool.false_ne_true, hbyte]
      | cons c bytes =>
          rw [List.map_cons] at hrest
          rw [List.map_cons, List.map_cons, utf8Data, hhigh, hlow, if_neg Bool.false_ne_true,
            if_neg Bool.false_ne_true, hrest, hbyte]
          rfl

/-- The characters of a piece. -/
def Piece.plain : Piece → List UInt8
  | .text bytes => bytes
  | _ => []

theorem paint_shown {pieces : List Piece} (hwell : ∀ p ∈ pieces, p.WellFormed) (a : Attr → Int) :
    (paint a pieces).map ScreenChar.shown = (pieces.flatMap Piece.plain).map UInt8.toUInt16 := by
  induction pieces generalizing a with
  | nil => rfl
  | cons p pieces ih =>
      have hp := hwell p List.mem_cons_self
      rw [paint, List.map_append, ih (fun q hq => hwell q (List.mem_cons_of_mem p hq)),
        List.flatMap_cons, List.map_append]
      congr 1
      cases p with
      | text bytes =>
          rw [Piece.cells, Piece.plain, List.map_map]
          refine List.map_congr_left fun b hb => if_neg fun hnul => ?_
          have hascii := hp.2 b hb
          have hzero : b.toNat = 0 := by
            rw [← UInt8.toNat_toUInt16, show b.toUInt16 = 0 from hnul]
            rfl
          simp only [isAsciiText, Bool.and_eq_true, decide_eq_true_eq, UInt8.le_iff_toNat_le,
            hzero, UInt8.reduceToNat] at hascii
          omega
      | control c cs => rfl
      | sequence pre params final => rfl

theorem plain_ascii {pieces : List Piece} (hwell : ∀ p ∈ pieces, p.WellFormed) :
    ∀ b ∈ pieces.flatMap Piece.plain, b < 0x80 := by
  intro b hb
  obtain ⟨p, hp, hb⟩ := List.mem_flatMap.mp hb
  cases p with
  | text bytes =>
      have hascii := (hwell _ hp).2 b hb
      simp only [isAsciiText, Bool.and_eq_true, decide_eq_true_eq, UInt8.le_iff_toNat_le,
        UInt8.reduceToNat] at hascii
      simp only [UInt8.lt_iff_toNat_lt, UInt8.reduceToNat]
      omega
  | control c cs => cases hb
  | sequence pre params final => cases hb

namespace Screen

variable {s : Screen} {w h max : Int}

/-- The last part of what has been printed, as a selection finds it. -/
theorem Printed.textBetween {old new : List ScreenChar} (hp : s.Printed w h max (old ++ new)) :
    s.textBetween old.length (old ++ new).length = new.map ScreenChar.shown := by
  have hcells := congrArg (List.drop old.length) hp.cells
  rw [List.drop_left, cellsTo, ← List.map_drop, List.range_eq_range', List.drop_range'] at hcells
  rw [Screen.textBetween, ← hcells, List.map_map]
  simp

end Screen

namespace VT100

variable {F : Foundation} {v v' : VT100} {w h max : Int} {text : List ScreenChar}

theorem cursor_onRows (hopen : v.screen.Open w h max) : v.screen.OnRows v.cursorInBuffer := by
  have hcol := hopen.wf.column
  have hrow := (hopen.wf.cursorRow_range hopen.onScreen).1
  have hlast := hopen.onScreen.2
  rw [cursorInBuffer_eq hopen.wf]
  refine ⟨⟨hcol.1, hcol.2.le⟩, hrow, ?_⟩
  rw [hopen.wf.numberOfLines_eq]
  show v.screen.currentScrollbackLines + v.screen.cursorY < _
  omega

/-- A cursor that has more cells before it is behind the other one. -/
theorem cursor_before (hopen : v.screen.Open w h max) (hopen' : v'.screen.Open w h max)
    (hle : v.screen.place v.cursorInBuffer ≤ v'.screen.place v'.cursorInBuffer) :
    Before v.cursorInBuffer v'.cursorInBuffer := by
  have hplace := cursor_place hopen
  have hplace' := cursor_place hopen'
  have hcol := hopen.wf.column
  have hcol' := hopen'.wf.column
  rw [hopen.width_eq] at hcol
  rw [hopen'.width_eq] at hcol'
  have hrow : v.screen.cursorRow ≤ v'.screen.cursorRow :=
    (le_addr_iff hcol'.1 hcol'.2).mp (by omega)
  rw [cursorInBuffer_eq hopen.wf, cursorInBuffer_eq hopen'.wf]
  rcases Int.lt_or_eq_of_le hrow with hlt | heq
  · exact .inl hlt
  · rw [heq] at hplace
    exact .inr ⟨heq, show v.screen.cursorX ≤ v'.screen.cursorX by omega⟩

/-- Text that is printed, in whatever colours, in as many rows as it takes and with whatever
scrolls away, is copied by a selection from where the cursor was to where it is then. -/
theorem print_copies (hF : F.AsciiExact) (hwf : v.Wf) (hempty : v.terminal.pending = [])
    (hopen : v.screen.Open w h max)
    (hascii : (v.screen.charset.load v.terminal.charset : Res Bool) = .ok false)
    (hprint : v.screen.printToAnsi = false) (hw : w ≤ kMaxRowBufferSize) {pieces : List Piece}
    (hwell : ∀ p ∈ pieces, p.WellFormed) (hink : ∀ p ∈ pieces, p.IsInk)
    (hroom : v.screen.place v.cursorInBuffer + (pieces.flatMap Piece.plain).length < (max + h) * w)
    {chunk : List UInt8} {chunks : List (List UInt8)}
    (hchunks : (chunk :: chunks).flatten = written pieces) (data : List UInt8) :
    ∃ v', feed F (chunk :: chunks) v = .ok v' ∧
      v'.fillDataWithSelection v.cursorInBuffer v'.cursorInBuffer data =
        .ok (data ++ pieces.flatMap Piece.plain) := by
  have hshown := paint_shown hwell v.terminal.attr
  have hlen : (paint v.terminal.attr pieces).length = (pieces.flatMap Piece.plain).length := by
    simpa using congrArg List.length hshown
  obtain ⟨v', hfeed, hprinted, -⟩ :=
    feed_inks hF hwf hempty hopen hascii hprint hwell hink (by rwa [hlen]) hchunks
  have hopen' := hprinted.isOpen
  have hto := cursor_printed hprinted
  have hwidth : v'.screen.width = v.screen.width := hopen'.width_eq.trans hopen.width_eq.symm
  have hbefore : Before v.cursorInBuffer v'.cursorInBuffer := cursor_before hopen hopen' (by
    rw [hto, List.length_append, Screen.cellsTo_length]
    exact Nat.le_add_right _ _)
  have hrows := cursor_onRows hopen
  have hrows' := cursor_onRows hopen'
  have hstays : v'.screen.OnRows v.cursorInBuffer := by
    refine ⟨hwidth ▸ hrows.column, hrows.row.1, ?_⟩
    rcases hbefore with hlt | ⟨heq, -⟩
    · exact Int.lt_trans hlt hrows'.row.2
    · exact heq.trans_lt hrows'.row.2
  have hfit : RowsFit v'.screen.width v.cursorInBuffer v'.cursorInBuffer := by
    intro y _ _
    have hx := hrows.column.1
    have hx' := hrows'.column.2
    have hwide := hopen'.width_eq
    unfold rowSpan
    split <;> split <;> omega
  have hfrom : v'.screen.place v.cursorInBuffer =
      (v.screen.cellsTo (v.screen.place v.cursorInBuffer)).length := by
    rw [Screen.cellsTo_length, Screen.place, Screen.place, hwidth]
  refine ⟨v', hfeed, ?_⟩
  rw [fillDataWithSelection_forwards hbefore,
    selectionText_eq hopen'.wf hstays hrows' hbefore hfit, hfrom, hto, hprinted.textBetween, hshown,
    ok_bind, utf8Data_ascii (plain_ascii hwell)]
  rfl

/-- Seven characters, the last three in red, on a new object of three columns and two rows:
the first row scrolls away. -/
theorem sized_print_copies : ∃ v v' u, VT100.init ⟨0, 0, 0⟩ = .ok v ∧
    v.setScreenSize 3 2 = .ok v' ∧
    feed Foundation.latin1 [[0x61, 0x62, 0x63, 0x64, 0x1b], [0x5b, 0x33, 0x31, 0x6d, 0x65, 0x66, 0x67]]
      v' = .ok u ∧
    u.fillDataWithSelection ⟨0, 0⟩ u.cursorInBuffer [] =
      .ok [0x61, 0x62, 0x63, 0x64, 0x65, 0x66, 0x67] := by
  obtain ⟨v, v', hv, hsize, hempty, hwf, hopen, hascii, hprint, hposition, hplace, -⟩ := sized_ink
  have hwell : ∀ p ∈ [Piece.text [0x61, 0x62, 0x63, 0x64], .sequence [] [[0x33, 0x31]] sgrByte,
      .text [0x65, 0x66, 0x67]], p.WellFormed := by decide +kernel
  obtain ⟨u, hu, hcopied⟩ := print_copies Foundation.latin1_asciiExact hwf hempty hopen hascii
    hprint (by decide) hwell (by decide +kernel) (by rw [hplace]; decide +kernel)
    (show [[0x61, 0x62, 0x63, 0x64, 0x1b],
      [0x5b, 0x33, 0x31, 0x6d, 0x65, 0x66, 0x67]].flatten = _ from rfl) []
  exact ⟨v, v', u, hv, hsize, hu, hposition ▸ hcopied⟩

end VT100

end MobileTerminal
