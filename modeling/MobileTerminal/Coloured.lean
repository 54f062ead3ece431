import MobileTerminal.AttributedRow
import MobileTerminal.Selection
import MobileTerminal.SgrColour
import MobileTerminal.ShowsWritten

/-!
# Coloured text

A program colours what it prints with SGR sequences between its texts. `paint`
says which cells that should give: for each character of a text its cell, in the
colours of the sequences before it. They are what is drawn, each in its row and
its column, over any number of rows and whatever scrolls away, and however the
stream is cut (`feed_coloured`).

The cells in front of the cursor, row by row from the oldest one of the
scrollback, are the list `Printed` follows: a character that is placed is
appended to it, and so is nothing else. Counting from the oldest row has the
advantage that a line feed at the end of the screen changes no cell of the list,
although it turns the ring; the price is that the scrollback must have room for
what scrolls away.

`Inks` adds the attributes of the terminal, which the sequences set and the next
text is printed with. On the other side stands the string supplier: what it
answers for a row has for every column the colours of the cell there, or of the
cursor, and `DrawnAs` is that for one cell.
-/

namespace MobileTerminal

namespace Screen

variable {t : Terminal} {s s' : Screen} {w h max : Int} {text : List ScreenChar}

structure Open (w h max : Int) (s : Screen) : Prop where
  wf : s.Wf
  width_eq : s.width = w
  height_eq : s.height = h
  max_eq : s.maxScrollbackLines = max
  margins : s.FullMargins
  onScreen : s.OnScreen

/-- The first cells in reading order. -/
def cellsTo (s : Screen) (n : Nat) : List ScreenChar := (List.range n).map s.placedCell

/-- The cells before the cursor are those of the text. -/
structure Printed (w h max : Int) (text : List ScreenChar) (s : Screen) : Prop where
  isOpen : s.Open w h max
  place_eq : s.cursorRow * w + s.cursorX = text.length
  cells : s.cellsTo text.length = text

theorem Open.of_draws (hs : s.Open w h max) (hd : Draws s s') : s'.Open w h max := by
  have hwf := hd.wf hs.wf
  have hy := hd.onScreen hs.onScreen
  obtain ⟨⟨b, d, line, fg, bg, lw, -, -, rfl⟩, -⟩ := hd
  exact ⟨hwf, hs.width_eq, hs.height_eq, hs.max_eq, hs.margins, hy⟩

theorem Open.withCursorX (hs : s.Open w h max) {x : Int} (hx : 0 ≤ x) (hx' : x < w) :
    Open w h max { s with cursorX := x } :=
  ⟨hs.wf.withCursorX hx (hx'.trans_eq hs.width_eq.symm), hs.width_eq, hs.height_eq, hs.max_eq,
    hs.margins, hs.onScreen⟩

theorem Printed.of_draws (hp : s.Printed w h max text) (hd : Draws s s')
    (hcells : ∀ y x, s'.cellAt y x = s.cellAt y x) : s'.Printed w h max text := by
  refine ⟨hp.isOpen.of_draws hd, ?_, ?_⟩
  · rw [hd.cursorRow_eq, hd.cursor_eq.1]
    exact hp.place_eq
  · refine Eq.trans (List.map_congr_left fun k _ => ?_) hp.cells
    rw [placedCell, placedCell, hd.width_eq, hcells]

theorem Printed.sameButDirty (hp : s.Printed w h max text) (hs : s.SameButDirty s')
    (hwf : s'.Wf) : s'.Printed w h max text := by
  obtain ⟨dirty, rfl⟩ := hs
  have hopen := hp.isOpen
  exact ⟨⟨hwf, hopen.width_eq, hopen.height_eq, hopen.max_eq, hopen.margins, hopen.onScreen⟩,
    hp.place_eq, hp.cells⟩

@[simp] theorem cellsTo_length (s : Screen) (n : Nat) : (s.cellsTo n).length = n := by
  rw [cellsTo, List.length_map, List.length_range]

theorem Open.printed (hs : s.Open w h max) {n : Nat} (hn : s.cursorRow * w + s.cursorX = n) :
    s.Printed w h max (s.cellsTo n) :=
  ⟨hs, by rw [cellsTo_length, hn], by rw [cellsTo_length]⟩

/-- The rows up to the cursor's stay where they are. -/
def KeepsAbove (s s' : Screen) : Prop :=
  ∀ y x, 0 ≤ y → y ≤ s.cursorRow → 0 ≤ x → x < s.width → s'.cellAt y x = s.cellAt y x

/-- The ring may move under a screen without margins. -/
theorem Open.rotate (hs : s.Open w h max) :
    s.rotate.Open w h max ∧ s.rotate.cursorX = s.cursorX ∧ s.rotate.cursorY = s.cursorY := by
  have hrot : s.rotate.width = s.width ∧ s.rotate.height = s.height ∧
      s.rotate.maxScrollbackLines = s.maxScrollbackLines ∧ s.rotate.FullMargins ∧
      s.rotate.cursorX = s.cursorX ∧ s.rotate.cursorY = s.cursorY := by
    rw [hs.wf.rotate_eq]
    split <;> exact ⟨rfl, rfl, rfl, hs.margins, rfl, rfl⟩
  obtain ⟨hwidth, hheight, hmax, hmargins, hx, hy⟩ := hrot
  refine ⟨⟨hs.wf.rotate, hwidth.trans hs.width_eq, hheight.trans hs.height_eq,
    hmax.trans hs.max_eq, hmargins, ?_⟩, hx, hy⟩
  rw [OnScreen, hheight, hy]
  exact hs.onScreen

/-- A line feed, while there is room in the scrollback. -/
theorem Open.newLine (hs : s.Open w h max) (t : Terminal)
    (hroom : s.cursorY = h - 1 → s.currentScrollbackLines < max) :
    ∃ s', s.setNewLine t = .ok s' ∧ s'.Open w h max ∧ s'.cursorX = s.cursorX ∧
      s'.cursorRow = s.cursorRow + 1 ∧ KeepsAbove s s' := by
  have hy := hs.onScreen
  have hheight := hs.height_eq
  have hbottom := hs.margins.2
  unfold OnScreen at hy
  by_cases hmove : s.CanMoveDown
  · have hlt : s.cursorY < s.height - 1 := by
      unfold CanMoveDown at hmove
      omega
    have hnext : Open w h max { s with cursorY := s.cursorY + 1 } :=
      ⟨{ hs.wf with }, hs.width_eq, hs.height_eq, hs.max_eq, hs.margins,
        ⟨show 0 ≤ s.cursorY + 1 by omega, show s.cursorY + 1 < s.height by omega⟩⟩
    have hrow : cursorRow { s with cursorY := s.cursorY + 1 } = s.cursorRow + 1 :=
      (Int.add_assoc _ _ _).symm
    refine ⟨_, setNewLine_down t hmove, ?_⟩
    split
    · have hd := touch_draws ((s.cursorY + 1) * s.width + s.cursorX)
        { s with cursorY := s.cursorY + 1 }
      exact ⟨hnext.of_draws hd, hd.cursor_eq.1, hd.cursorRow_eq.trans hrow,
        fun _ _ _ _ _ _ => rfl⟩
    · exact ⟨hnext, rfl, hrow, fun _ _ _ _ _ _ => rfl⟩
  · have hlast : s.cursorY = s.height - 1 := by
      unfold CanMoveDown at hmove
      omega
    have hlt := hroom (by omega)
    have hcount := hs.wf.count_range
    have hlost : s.lostRows = 0 := by
      rw [lostRows, hs.max_eq]
      exact if_neg (by omega)
    obtain ⟨s', hok, hd, -, hcells⟩ := setNewLine_cells hs.wf t hs.margins (by omega)
    obtain ⟨hopen, hcolumn, hrow⟩ := hs.rotate
    have hnext := hs.wf.rotate_count
    refine ⟨s', hok, hopen.of_draws hd, hd.cursor_eq.1.trans hcolumn, ?_,
      fun y x hy hy' hx hx' => ?_⟩
    · rw [hd.cursorRow_eq, cursorRow, cursorRow, hrow, hnext, hlost]
      omega
    · have hT : s.totalHeight = s.maxScrollbackLines + s.height := rfl
      have hmax := hs.max_eq
      unfold cursorRow at hy'
      rw [hcells y x hy (by omega) hx (by omega), if_neg (by omega), hlost]
      exact congrArg (s.cellAt · x) (Int.add_zero y)

theorem cellsTo_succ (s : Screen) (n : Nat) :
    s.cellsTo (n + 1) = s.cellsTo n ++ [s.placedCell n] := by
  rw [cellsTo, List.range_succ, List.map_append, List.map_singleton, cellsTo]

/-- A place in reading order is a row and a column. -/
theorem place_split (hw : 0 < w) (k : Nat) :
    ((k / w.toNat : Nat) : Int) * w + ((k % w.toNat : Nat) : Int) = k ∧
      k % w.toNat < w.toNat := by
  have hcast : ((w.toNat : Nat) : Int) = w := by omega
  have hnat := Nat.div_add_mod' k w.toNat
  refine ⟨?_, Nat.mod_lt k (by omega)⟩
  rw [← hcast]
  exact_mod_cast hnat

/-- What writing at the cursor does to the cells in reading order. -/
theorem Printed.put (hp : s.Printed w h max text) {c : ScreenChar} (hwidth : s'.width = s.width)
    (hcells : ∀ y x, 0 ≤ y → y ≤ s.cursorRow → 0 ≤ x → x < s.width →
      s'.cellAt y x = if y = s.cursorRow ∧ x = s.cursorX then c else s.cellAt y x) :
    s'.cellsTo (text.length + 1) = text ++ [c] := by
  have hw := hp.isOpen.wf.width_pos
  have hcol := hp.isOpen.wf.column
  have hplace := hp.place_eq
  rw [← hp.isOpen.width_eq] at hplace
  have hrow := (hp.isOpen.wf.cursorRow_range hp.isOpen.onScreen).1
  -- the place of cell `k`, and that of the cursor
  have hcell : ∀ k : Nat, k ≤ text.length → s'.placedCell k =
      if k = text.length then c else s.placedCell k := by
    intro k hk
    obtain ⟨hsplit, hlt⟩ := place_split hw k
    have hmod : ((k % s.width.toNat : Nat) : Int) < s.width := by omega
    have hle : ((k / s.width.toNat : Nat) : Int) ≤ s.cursorRow :=
      (le_addr_iff hcol.1 hcol.2).mp (by omega)
    rw [placedCell, placedCell, hwidth,
      hcells _ _ (Int.natCast_nonneg _) hle (Int.natCast_nonneg _) hmod]
    refine if_congr ?_ rfl rfl
    have hinj : ((k / s.width.toNat : Nat) : Int) * s.width + ((k % s.width.toNat : Nat) : Int) =
        s.cursorRow * s.width + s.cursorX ↔ _ :=
      addr_inj (Int.natCast_nonneg _) hmod hcol.1 hcol.2
    rw [← hinj, hsplit, hplace]
    exact Int.natCast_inj
  rw [cellsTo_succ, hcell _ (Nat.le_refl _), if_pos rfl]
  congr 1
  refine Eq.trans (List.map_congr_left fun k hk => ?_) hp.cells
  have hlt := List.mem_range.mp hk
  rw [hcell k hlt.le, if_neg hlt.ne]

/-- The cell is stored; what follows depends on the column. -/
theorem Printed.store (hp : s.Printed w h max text) {c : ScreenChar} (hc : c.ch ≠ 0xffff)
    (t : Terminal) : ∃ s₁, Draws s s₁ ∧
      (∀ y x, 0 ≤ y → y ≤ s.cursorRow → 0 ≤ x → x ≤ s.width →
        s₁.cellAt y x = if y = s.cursorRow ∧ x = s.cursorX then c else s.cellAt y x) ∧
      s.putCell t c = if s.cursorX + 1 < s.width then .ok s₁.stepRight
        else s₁.stepRight.wrapToNextLine t := by
  have hwf := hp.isOpen.wf
  have hcol := hwf.column
  obtain ⟨hi, hi'⟩ := hwf.cursorRow_range hp.isOpen.onScreen
  obtain ⟨s₁, h₁, hd, hcells⟩ := storeCell_spec hwf c hi hi' hcol.1 hcol.2.le
  refine ⟨s₁, hd, fun y x hy hy' hx hx' => hcells y x hy (by omega) hx hx', ?_⟩
  have hend : s₁.stepRight.cursorX ≥ s₁.stepRight.width ↔ ¬s.cursorX + 1 < s.width := by
    change s₁.cursorX + 1 ≥ s₁.width ↔ _
    rw [hd.cursor_eq.1, hd.width_eq, Int.not_lt]
  rw [Screen.putCell, if_neg hc, hwf.cursorLine hp.isOpen.onScreen, ok_bind, h₁, ok_bind]
  simp only [hend, ite_not]

theorem Printed.putCell_next (hp : s.Printed w h max text) {c : ScreenChar} (hc : c.ch ≠ 0xffff)
    (t : Terminal) (hlt : s.cursorX + 1 < s.width) :
    ∃ s', s.putCell t c = .ok s' ∧ s'.Printed w h max (text ++ [c]) := by
  have hcol := hp.isOpen.wf.column
  obtain ⟨s₁, hd, hcells, hput⟩ := hp.store hc t
  have hstep : Draws { s with cursorX := s.cursorX + 1 } s₁.stepRight := by
    have hfrom := stepRight_draws s₁
    rw [hd.cursor_eq.1] at hfrom
    exact (hd.withCursorX (s.cursorX + 1)).trans hfrom
  have hopen : s₁.stepRight.Open w h max :=
    (hp.isOpen.withCursorX (by omega) (hlt.trans_eq hp.isOpen.width_eq)).of_draws hstep
  refine ⟨s₁.stepRight, hput.trans (if_pos hlt), hopen, ?_, ?_⟩
  · have hplace := hp.place_eq
    have hrow : s₁.stepRight.cursorRow = s.cursorRow := hstep.cursorRow_eq
    have hx : s₁.stepRight.cursorX = s.cursorX + 1 := hstep.cursor_eq.1
    rw [hrow, hx, List.length_append, List.length_singleton]
    omega
  · rw [List.length_append, List.length_singleton]
    exact hp.put hstep.width_eq fun y x hy hy' hx hx' => hcells y x hy hy' hx hx'.le

/-- A cell in the last column: the row is marked and the next one begun. -/
theorem Printed.putCell_wraps (hp : s.Printed w h max text) {c : ScreenChar} (hc : c.ch ≠ 0xffff)
    (t : Terminal) (hlt : ¬s.cursorX + 1 < s.width)
    (hroom : (text.length : Int) + 1 < (max + h) * w) :
    ∃ s', s.putCell t c = .ok s' ∧ s'.Printed w h max (text ++ [c]) := by
  have hcol := hp.isOpen.wf.column
  have hwidth := hp.isOpen.width_eq
  have hplace := hp.place_eq
  obtain ⟨s₁, hd, hcells, hput⟩ := hp.store hc t
  have hnext : s.cursorRow * w + w = text.length + 1 := by omega
  -- back in the first column, the row not yet marked
  have hback : Draws { s with cursorX := 0 } { s₁.stepRight with cursorX := 0 } :=
    (hd.withCursorX 0).trans ((stepRight_draws s₁).withCursorX 0)
  have hopen : Open w h max { s₁.stepRight with cursorX := 0 } :=
    (hp.isOpen.withCursorX (Int.le_refl 0) (by omega)).of_draws hback
  have hrow : cursorRow { s₁.stepRight with cursorX := 0 } = s.cursorRow := hback.cursorRow_eq
  have hsame : ∀ y x, cellAt { s₁.stepRight with cursorX := 0 } y x = s₁.cellAt y x :=
    fun _ _ => rfl
  rw [if_neg hlt, wrapToNextLine] at hput
  simp only at hput
  generalize hs₂ : ({ s₁.stepRight with cursorX := 0 } : Screen) = s₂ at hback hopen hrow hsame hput
  obtain ⟨hi, hi'⟩ := hopen.wf.cursorRow_range hopen.onScreen
  have hw := hopen.wf.width_pos
  obtain ⟨s₃, h₃, hd₃, hcells₃⟩ := storeCh_spec hopen.wf 1 hi hi' (by omega) (Int.le_refl _)
  have hopen₃ := hopen.of_draws hd₃
  have hlines : s₃.cursorY = h - 1 → s₃.currentScrollbackLines < max := by
    intro hy
    have hlast : s.cursorRow = s₃.currentScrollbackLines + (h - 1) := by
      rw [← hrow, ← hd₃.cursorRow_eq, cursorRow, hy]
    have hless : (s₃.currentScrollbackLines + h) * w < (max + h) * w := by
      rw [show s₃.currentScrollbackLines + h = s.cursorRow + 1 by omega, Int.add_mul, Int.one_mul]
      omega
    have := lt_of_mul_lt_mul_right hless (by omega)
    omega
  obtain ⟨s', hok, hopen', hx', hrow', hkeeps⟩ := hopen₃.newLine t hlines
  have hrow₃ : s₃.cursorRow = s.cursorRow := hd₃.cursorRow_eq.trans hrow
  have hline : s₂.getLineAtScreenIndex s₂.cursorY = .ok (s₂.rowLine s₂.cursorRow * s₂.realWidth) :=
    hopen.wf.cursorLine hopen.onScreen
  refine ⟨s', ?_, hopen', ?_, ?_⟩
  · have hy₂ : s₁.stepRight.cursorY = s₂.cursorY := by rw [← hs₂]
    have hw₂ : s₁.stepRight.width = s₂.width := by rw [← hs₂]
    rw [hput, hy₂, hline, ok_bind, hw₂, h₃, ok_bind, hok]
  · have hx₃ : s₃.cursorX = 0 := by rw [hd₃.cursor_eq.1, ← hs₂]
    rw [hrow', hrow₃, hx', hx₃, List.length_append, List.length_singleton, Int.add_mul]
    omega
  · rw [List.length_append, List.length_singleton]
    refine hp.put (hopen'.width_eq.trans hwidth.symm) fun y x hy hy' hx hx' => ?_
    have hws : s₂.width = s.width := hopen.width_eq.trans hwidth.symm
    have hws₃ : s₃.width = s.width := hopen₃.width_eq.trans hwidth.symm
    rw [hkeeps y x hy (by omega) hx (by omega),
      hcells₃ y x hy (by omega) hx (by omega), if_neg (by omega), hsame,
      hcells y x hy hy' hx hx'.le]

theorem Printed.putCell (hp : s.Printed w h max text) {c : ScreenChar} (hc : c.ch ≠ 0xffff)
    (t : Terminal) (hroom : (text.length : Int) + 1 < (max + h) * w) :
    ∃ s', s.putCell t c = .ok s' ∧ s'.Printed w h max (text ++ [c]) := by
  by_cases hlt : s.cursorX + 1 < s.width
  · exact hp.putCell_next hc t hlt
  · exact hp.putCell_wraps hc t hlt hroom

theorem Printed.putCells (hp : s.Printed w h max text) (t : Terminal) {cells : List ScreenChar}
    (hcells : ∀ c ∈ cells, c.ch ≠ 0xffff)
    (hroom : (text.length : Int) + cells.length < (max + h) * w) :
    ∃ s', cells.foldlM (fun s c => s.putCell t c) s = .ok s' ∧
      s'.Printed w h max (text ++ cells) := by
  induction cells generalizing s text with
  | nil => exact ⟨s, rfl, by rwa [List.append_nil]⟩
  | cons c cells ih =>
      rw [List.length_cons] at hroom
      obtain ⟨s₁, h₁, hp₁⟩ := hp.putCell (hcells c List.mem_cons_self) t (by omega)
      obtain ⟨s', hok, hp'⟩ := ih hp₁ (fun x hx => hcells x (List.mem_cons_of_mem c hx)) (by
        rw [List.length_append, List.length_singleton]
        omega)
      refine ⟨s', by rw [List.foldlM_cons, h₁, ok_bind, hok], ?_⟩
      rwa [List.append_assoc] at hp'

/-- A text token, in ASCII and not to a printer. -/
theorem Printed.putText (F : Foundation) (hp : s.Printed w h max text)
    (hascii : (s.charset.load t.charset : Res Bool) = .ok false) (hprint : s.printToAnsi = false)
    (bytes : List UInt8) (hroom : (text.length : Int) + bytes.length < (max + h) * w) :
    ∃ s', s.putToken F t (VT100.textToken bytes) = .ok s' ∧
      s'.Printed w h max (text ++ bytes.map t.printed) ∧ SamePrinter s s' := by
  obtain ⟨s₁, h₁, hp₁, hsame⟩ : ∃ s₁, s.setString F t (bytes.map UInt8.toUInt16) true = .ok s₁ ∧
      s₁.Printed w h max (text ++ bytes.map t.printed) ∧ SamePrinter s s₁ := by
    by_cases hnil : bytes = []
    · subst hnil
      exact ⟨s, rfl, by rwa [List.map_nil, List.append_nil], .refl s⟩
    · have hcells : s.stringCells F t (bytes.map UInt8.toUInt16) true =
          .ok (bytes.map t.printed) := by
        simp only [stringCells, if_true, hascii, ok_bind, Bool.false_eq_true, if_false]
        rw [List.map_map]
        rfl
      have hplain : ∀ c ∈ bytes.map t.printed, c.ch ≠ 0xffff :=
        List.forall_mem_map.mpr fun b _ => toUInt16_ne b
      obtain ⟨s₁, h₁, hp₁⟩ := hp.putCells t hplain (by rwa [List.length_map])
      refine ⟨s₁, ?_, hp₁, foldlM_inv (P := SamePrinter s)
        (fun _ _ _ hI hs => hI.trans (putCell_samePrinter hs)) (.refl s) h₁⟩
      have hpos := List.length_pos_iff.mpr hnil
      rw [setString, if_neg (by rw [List.length_map]; omega), hcells, ok_bind, h₁]
  have hdispatch : s.dispatch F t (VT100.textToken bytes) = .ok s₁ := by
    simp only [dispatch, VT100.textToken, putString, hprint, Bool.false_eq_true, if_false, h₁]
  refine ⟨_, by rw [putToken, hdispatch, ok_bind], ?_⟩
  split
  · have hd := touch_draws (s.cursorY * s₁.width + s.cursorX) s₁
    exact ⟨hp₁.of_draws hd fun _ _ => rfl, hsame.trans hd.samePrinter⟩
  · exact ⟨hp₁, hsame⟩

end Screen

/-! ## What is painted

The other side of the result: the cells as a fold over the pieces, with the
attributes as its accumulator. No screen is needed for it. -/

/-- The cell a character gives with these attributes. -/
def inked (a : Attr → Int) (b : UInt8) : ScreenChar where
  ch := b.toUInt16
  bgColor := cuint (if a .reversed ≠ 0 then a .fg else a .bg)
  fgColor := cuint (cint ((if a .reversed ≠ 0 then a .bg
    else if (a .fg).tmod 256 > 7 then a .fg
    else a .fg + (if a .highlight ≠ 0 then 1 else a .bold) * 8) +
    (a .bold * boldMask + a .under * underMask + a .blink * blinkMask)))

theorem printed_inked (t : Terminal) (b : UInt8) : t.printed b = inked t.attr b := by
  rw [Terminal.printed, Terminal.foregroundColorCode_of_attr fun _ => rfl]
  rfl

/-- A text, or an SGR sequence. -/
def Piece.IsInk : Piece → Prop
  | text _ => True
  | control _ _ => False
  | sequence pre params final => pre = [] ∧ params ≠ [] ∧ final = sgrByte

instance : ∀ p : Piece, Decidable p.IsInk
  | .text _ => .isTrue trivial
  | .control _ _ => .isFalse id
  | .sequence pre params final =>
      inferInstanceAs (Decidable (pre = [] ∧ params ≠ [] ∧ final = sgrByte))

/-- The attributes behind a piece. -/
def Piece.sets (a : Attr → Int) : Piece → Attr → Int
  | sequence _ params _ => overwrite (sgrWrites (sgrNumbers params)) a
  | _ => a

/-- The cells of a piece. -/
def Piece.cells (a : Attr → Int) : Piece → List ScreenChar
  | text bytes => bytes.map (inked a)
  | _ => []

def paint : (Attr → Int) → List Piece → List ScreenChar
  | _, [] => []
  | a, p :: pieces => p.cells a ++ paint (p.sets a) pieces

theorem paint_merge (a : Attr → Int) (pieces : List Piece) :
    paint a (merge pieces) = paint a pieces := by
  induction pieces generalizing a with
  | nil => rfl
  | cons p pieces ih =>
      rw [merge, List.foldr_cons, ← merge, paint, ← ih]
      rcases p.before_cases (merge pieces) with ⟨b, c, rest, rfl, heq, hbefore⟩ | ⟨hbefore, -⟩
      · rw [hbefore, heq, paint, paint]
        simp only [Piece.cells, Piece.sets, List.map_append, List.append_assoc]
      · rw [hbefore, paint]

theorem sets_merge {pieces : List Piece} (hwell : ∀ p ∈ pieces, p.WellFormed) (a : Attr → Int) :
    (merge pieces).foldl Piece.sets a = pieces.foldl Piece.sets a :=
  foldl_merge (fun _ _ _ _ _ => rfl) hwell a

theorem merge_isInk {pieces : List Piece} (hink : ∀ p ∈ pieces, p.IsInk) :
    ∀ p ∈ merge pieces, p.IsInk :=
  merge_mem (fun _ _ _ _ => trivial) hink

namespace VT100

variable {F : Foundation} {v v' : VT100} {w h max : Int} {a : Attr → Int}
  {text : List ScreenChar} {p : Piece} {pieces : List Piece}

/-- What has been printed is in front of the cursor, and what is printed next has these
attributes. -/
structure Inks (w h max : Int) (a : Attr → Int) (text : List ScreenChar) (v : VT100) : Prop where
  wf : v.Wf
  printed : v.screen.Printed w h max text
  ascii : (v.screen.charset.load v.terminal.charset : Res Bool) = .ok false
  print_eq : v.screen.printToAnsi = false
  attr_eq : v.terminal.attr = a

theorem Inks.putText (hv : Inks w h max a text v) (F : Foundation) (bytes : List UInt8)
    (hroom : (text.length : Int) + bytes.length < (max + h) * w) :
    ∃ v', execute F v (textToken bytes) = .ok v' ∧
      Inks w h max a (text ++ bytes.map (inked a)) v' := by
  obtain ⟨s', hok, hp, hsame⟩ := hv.printed.putText F hv.ascii hv.print_eq bytes hroom
  have hprocess : v.processToken F (textToken bytes) = .ok { v with screen := s' } := by
    rw [processToken, if_neg (by simp [textToken]), VT100.putToken, hok]
    rfl
  have hcells : bytes.map v.terminal.printed = bytes.map (inked a) := by
    rw [← hv.attr_eq]
    exact List.map_congr_left fun b _ => printed_inked v.terminal b
  rw [hcells] at hp
  exact ⟨_, hprocess, processToken_wf hv.wf hprocess, hp, hsame.charset_eq.symm ▸ hv.ascii,
    hsame.print_eq.trans hv.print_eq, hv.attr_eq⟩

theorem sgr_token {params : List (List UInt8)}
    (hwell : (Piece.sequence [] params sgrByte).WellFormed) (hne : params ≠ []) (v : VT100) :
    ((Piece.sequence [] params sgrByte).token v.screen.height).type = .sgr ∧
      ((Piece.sequence [] params sgrByte).token v.screen.height).csi.Lists (sgrNumbers params) := by
  have hfound : Found v.screen.height (.sequence [] params sgrByte) [] := found_sequence hwell []
  have hlegible := legible_written (List.forall_mem_singleton.mpr hwell)
  rw [written, List.flatMap_singleton] at hlegible
  have hlength := hfound.length_eq
  have htoken := hfound.token_eq
  rw [List.append_nil] at hlength htoken
  have hpos : tokenLength (Piece.sequence [] params sgrByte).bytes ≠ 0 := by
    rw [hlength]
    exact mt List.length_eq_zero_iff.mp hfound.bytes_ne
  obtain ⟨tok, hdecode, htype, hlists⟩ :=
    decodeCsi_sgr hwell.2.1 hne hwell.2.2.1 [] v.terminal v.screen
  have hfirst : decodeControl v.terminal (Piece.sequence [] params sgrByte).bytes v.screen =
      .ok (firstToken v.screen.height (Piece.sequence [] params sgrByte).bytes, _, v.screen) :=
    decodeControl_first hlegible (by decide) hpos v.terminal v.screen
  have hcontrol : decodeControl v.terminal (Piece.sequence [] params sgrByte).bytes v.screen =
      decodeCsi v.terminal (csiSequence [] params sgrByte) v.screen := decodeControl_csi rfl _ _
  rw [List.append_nil, ← hcontrol, hfirst, htoken] at hdecode
  obtain ⟨rfl, -⟩ := Prod.mk.inj (Except.ok.inj hdecode)
  exact ⟨htype, hlists⟩

theorem Inks.setAttr (hv : Inks w h max a text v) (F : Foundation) {params : List (List UInt8)}
    (hwell : (Piece.sequence [] params sgrByte).WellFormed) (hne : params ≠ []) :
    ∃ v', execute F v ((Piece.sequence [] params sgrByte).token v.screen.height) = .ok v' ∧
      Inks w h max (overwrite (sgrWrites (sgrNumbers params)) a) text v' := by
  obtain ⟨htype, hlists⟩ := sgr_token hwell hne v
  generalize (Piece.sequence [] params sgrByte).token v.screen.height = tok at htype hlists
  obtain ⟨t', hset, hattr⟩ := Terminal.setCharAttr_attr htype hlists v.terminal
  have hmode : v.setMode tok = .ok v := by simp [setMode, htype]
  have hchar : v.setCharAttr tok = .ok { v with terminal := t' } := by
    simp only [VT100.setCharAttr, hset, ok_bind]
  have hshift : t'.charset = v.terminal.charset :=
    congrArg Controls.shift (setCharAttr_controls v.screen hset)
  refine ⟨{ v with terminal := t' }, ?_, setCharAttr_wf hv.wf hchar, hv.printed, ?_, hv.print_eq,
    ?_⟩
  · rw [execute, hmode, ok_bind, hchar, ok_bind, processToken_sgr htype]
  · show (v.screen.charset.load t'.charset : Res Bool) = .ok false
    rw [hshift]
    exact hv.ascii
  · rw [hattr, hv.attr_eq]

theorem Inks.putPiece (hv : Inks w h max a text v) (F : Foundation) (hwell : p.WellFormed)
    (hink : p.IsInk) (hroom : (text.length : Int) + (p.cells a).length < (max + h) * w) :
    ∃ v', execute F v (p.token h) = .ok v' ∧ Inks w h max (p.sets a) (text ++ p.cells a) v' := by
  cases p with
  | text bytes =>
      rw [Piece.cells, List.length_map] at hroom
      exact hv.putText F bytes hroom
  | control c cs => exact hink.elim
  | sequence pre params final =>
      obtain ⟨rfl, hne, rfl⟩ := hink
      obtain ⟨v', hok, hv'⟩ := hv.setAttr F hwell hne
      rw [hv.printed.isOpen.height_eq] at hok
      have hnone : text ++ (Piece.sequence [] params sgrByte).cells a = text := List.append_nil text
      exact ⟨v', hok, hnone.symm ▸ hv'⟩

theorem Inks.putPieces (hv : Inks w h max a text v) (F : Foundation)
    (hwell : ∀ p ∈ pieces, p.WellFormed) (hink : ∀ p ∈ pieces, p.IsInk)
    (hroom : (text.length : Int) + (paint a pieces).length < (max + h) * w) :
    ∃ v', (pieces.map (Piece.token h)).foldlM (execute F) v = .ok v' ∧
      Inks w h max (pieces.foldl Piece.sets a) (text ++ paint a pieces) v' := by
  induction pieces generalizing v a text with
  | nil =>
      rw [paint, List.append_nil]
      exact ⟨v, rfl, hv⟩
  | cons p pieces ih =>
      rw [paint, List.length_append] at hroom
      obtain ⟨v₁, h₁, hv₁⟩ := hv.putPiece F (hwell p List.mem_cons_self) (hink p List.mem_cons_self)
        (by omega)
      obtain ⟨v', hok, hv'⟩ := ih hv₁ (fun q hq => hwell q (List.mem_cons_of_mem p hq))
        (fun q hq => hink q (List.mem_cons_of_mem p hq)) (by rw [List.length_append]; omega)
      refine ⟨v', by rw [List.map_cons, List.foldlM_cons, h₁, ok_bind, hok], ?_⟩
      rw [paint, List.foldl_cons, ← List.append_assoc]
      exact hv'

/-! ## What is drawn

A cell is drawn in the row and column of its place, as long as the row has not
left the scrollback. -/

/-- The runs give the column this colour. -/
structure Tinted (isEqual : UIColor → UIColor → Bool) (runs : List (Run (Option UIColor)))
    (j : Int) (color : UIColor) : Prop where
  covered : ∃ r ∈ runs, r.Covers j
  same : ∀ r ∈ runs, r.Covers j → SameColor isEqual r.value (some color)

/-- What a cell is drawn as in its column. -/
structure DrawnAs (isEqual : UIColor → UIColor → Bool) (str : AttributedString) (j : Nat)
    (c : ScreenChar) : Prop where
  char : str.string[j]? = some c.shown
  background : Tinted isEqual str.background j (ColorMap.color c.bgColor.toNat)
  foreground : Tinted isEqual str.foreground j (ColorMap.color c.fgColor.toNat)

variable {isEqual : UIColor → UIColor → Bool}

theorem Tinted.of_reproduces {runs : List (Run (Option UIColor))} {color : Int → UIColor}
    {n j : Int} (h : Run.Reproduces (SameColor isEqual) (fun j => some (color j)) n runs)
    (hj : 0 ≤ j) (hj' : j < n) : Tinted isEqual runs j (color j) :=
  ⟨(h.covers j).mpr ⟨hj, hj'⟩, fun r hr hcov => h.related r hr j hcov⟩

/-- Every cell in front of the cursor is drawn as it is. -/
theorem drawn (hv : v.screen.Printed w h max text) (heq : Equivalence fun a b => isEqual a b = true)
    (hw : v.screen.width ≤ kMaxRowBufferSize) {i : Nat} (hi : i < text.length) :
    ∃ str, v.newAttributedString isEqual ((i / v.screen.width.toNat : Nat) : Int) = .ok str ∧
      DrawnAs isEqual str (i % v.screen.width.toNat) text[i] := by
  have hwf := hv.isOpen.wf
  have hpos := hwf.width_pos
  have hcol := hwf.column
  have hplace := hv.place_eq
  rw [← hv.isOpen.width_eq] at hplace
  obtain ⟨hsplit, hmod⟩ := Screen.place_split hpos i
  have hcell : v.screen.cellAt ((i / v.screen.width.toNat : Nat) : Int)
      ((i % v.screen.width.toNat : Nat) : Int) = text[i] := by
    have hget : (v.screen.cellsTo text.length)[i]? = text[i]? := by rw [hv.cells]
    rw [Screen.cellsTo, List.getElem?_map, List.getElem?_range hi,
      List.getElem?_eq_getElem hi] at hget
    exact Option.some.inj hget
  generalize hr : ((i / v.screen.width.toNat : Nat) : Int) = r at hsplit hcell ⊢
  generalize i % v.screen.width.toNat = j at hsplit hmod hcell ⊢
  have hr0 : 0 ≤ r := hr ▸ Int.natCast_nonneg _
  have hle : r ≤ v.screen.cursorRow := (le_addr_iff hcol.1 hcol.2).mp (by omega)
  have hrow : r < v.numberOfRows := by
    rw [numberOfRows, hwf.numberOfLines_eq]
    have hy := hv.isOpen.onScreen.2
    unfold Screen.cursorRow at hle
    omega
  -- the cursor is behind the text
  have hcolor : ∀ cellColor cursorColor, v.screen.colorAt cellColor cursorColor r j =
      ColorMap.color (cellColor text[i]).toNat := by
    intro cellColor cursorColor
    rw [Screen.colorAt, hcell]
    refine if_neg fun hat => ?_
    rw [hat.1, hat.2, ← Screen.cursorRow, hplace] at hsplit
    omega
  obtain ⟨background, foreground, hok, hbackground, hforeground⟩ :=
    newAttributedString_eq hwf heq hr0 hrow hw
  refine ⟨_, hok, ?_, ?_, ?_⟩
  · simp only [List.getElem?_map, List.getElem?_range hmod, Option.map_some, hcell]
  · rw [← hcolor ScreenChar.bgColor .backgroundCursor]
    exact Tinted.of_reproduces hbackground (Int.natCast_nonneg j) (by omega)
  · rw [← hcolor ScreenChar.fgColor .foregroundCursor]
    exact Tinted.of_reproduces hforeground (Int.natCast_nonneg j) (by omega)

theorem cursor_place (hopen : v.screen.Open w h max) :
    v.screen.cursorRow * w + v.screen.cursorX = v.screen.place v.cursorInBuffer := by
  have hrow := (hopen.wf.cursorRow_range hopen.onScreen).1
  have hcol := hopen.wf.column
  have hpos : 0 ≤ v.screen.cursorRow * v.screen.width := Int.mul_nonneg hrow (by omega)
  rw [cursorInBuffer_eq hopen.wf, Screen.place, ← hopen.width_eq, ← Screen.cursorRow]
  exact (Int.toNat_of_nonneg (by omega)).symm

theorem cursor_printed (hv : v.screen.Printed w h max text) :
    v.screen.place v.cursorInBuffer = text.length :=
  Int.natCast_inj.mp ((cursor_place hv.isOpen).symm.trans hv.place_eq)

/-- Texts and SGR sequences paint the cells from the cursor on, however they are cut. -/
theorem feed_inks (hF : F.AsciiExact) (hwf : v.Wf) (hempty : v.terminal.pending = [])
    (hopen : v.screen.Open w h max)
    (hascii : (v.screen.charset.load v.terminal.charset : Res Bool) = .ok false)
    (hprint : v.screen.printToAnsi = false)
    (hwell : ∀ p ∈ pieces, p.WellFormed) (hink : ∀ p ∈ pieces, p.IsInk)
    (hroom : v.screen.place v.cursorInBuffer + (paint v.terminal.attr pieces).length <
      (max + h) * w)
    {chunk : List UInt8} {chunks : List (List UInt8)}
    (hchunks : (chunk :: chunks).flatten = written pieces) :
    ∃ v', feed F (chunk :: chunks) v = .ok v' ∧
      v'.screen.Printed w h max (v.screen.cellsTo (v.screen.place v.cursorInBuffer) ++
        paint v.terminal.attr pieces) ∧
      v'.terminal.attr = pieces.foldl Piece.sets v.terminal.attr := by
  have hstart :
      Inks w h max v.terminal.attr (v.screen.cellsTo (v.screen.place v.cursorInBuffer)) v :=
    ⟨hwf, hopen.printed (cursor_place hopen), hascii, hprint, rfl⟩
  obtain ⟨u, hu, hinks⟩ := hstart.putPieces F (merge_wellFormed hwell) (merge_isInk hink) (by
    rw [Screen.cellsTo_length, paint_merge]
    exact hroom)
  obtain ⟨htokens, -, hlegible⟩ := @lex_written h _ (merge_wellFormed hwell) (merge_apart pieces)
  rw [written_merge] at htokens hlegible
  rw [← htokens, ← hopen.height_eq] at hu
  obtain ⟨v', hfeed, hrest⟩ := feed_executes hF hwf hempty hlegible hu hchunks
  refine ⟨v', hfeed, ?_, ?_⟩
  · rw [← paint_merge]
    exact hinks.printed.sameButDirty hrest.screen hrest.right.screen
  · rw [hrest.modes.attr_eq, hinks.attr_eq, sets_merge hwell]

/-- Each text is drawn in the colours of the sequences before it, from the cursor on and
over as many rows as it takes, and what was there before is drawn as it was. -/
theorem feed_coloured (hF : F.AsciiExact) (hwf : v.Wf) (hempty : v.terminal.pending = [])
    (hopen : v.screen.Open w h max)
    (hascii : (v.screen.charset.load v.terminal.charset : Res Bool) = .ok false)
    (hprint : v.screen.printToAnsi = false) (hw : w ≤ kMaxRowBufferSize)
    (hwell : ∀ p ∈ pieces, p.WellFormed) (hink : ∀ p ∈ pieces, p.IsInk)
    (hroom : v.screen.place v.cursorInBuffer + (paint v.terminal.attr pieces).length <
      (max + h) * w)
    {chunk : List UInt8} {chunks : List (List UInt8)}
    (hchunks : (chunk :: chunks).flatten = written pieces) :
    ∃ v' text, feed F (chunk :: chunks) v = .ok v' ∧
      text = v.screen.cellsTo (v.screen.place v.cursorInBuffer) ++ paint v.terminal.attr pieces ∧
      v'.screen.place v'.cursorInBuffer = text.length ∧
      v'.terminal.attr = pieces.foldl Piece.sets v.terminal.attr ∧
      ∀ isEqual, (Equivalence fun a b => isEqual a b = true) → ∀ i (hi : i < text.length),
        ∃ str, v'.newAttributedString isEqual ((i / w.toNat : Nat) : Int) = .ok str ∧
          DrawnAs isEqual str (i % w.toNat) text[i] := by
  obtain ⟨v', hfeed, hprinted, hattr⟩ :=
    feed_inks hF hwf hempty hopen hascii hprint hwell hink hroom hchunks
  refine ⟨v', _, hfeed, rfl, cursor_printed hprinted, hattr, fun isEqual heq i hi => ?_⟩
  have hwidth := hprinted.isOpen.width_eq
  have hdrawn := drawn hprinted heq (hwidth.trans_le hw) hi
  rwa [hwidth] at hdrawn

/-- A new object of three columns and two rows. -/
theorem sized_ink : ∃ v v', VT100.init ⟨0, 0, 0⟩ = .ok v ∧ v.setScreenSize 3 2 = .ok v' ∧
    v'.terminal.pending = [] ∧ v'.Wf ∧ v'.screen.Open 3 2 defaultScrollback ∧
    (v'.screen.charset.load v'.terminal.charset : Res Bool) = .ok false ∧
    v'.screen.printToAnsi = false ∧ v'.cursorInBuffer = ⟨0, 0⟩ ∧
    v'.screen.place v'.cursorInBuffer = 0 ∧ v'.terminal.attr = attrOff := by
  obtain ⟨v, v', hv, hsize, ht, hs⟩ :=
    sized_fresh ⟨0, 0, 0⟩ (w := 3) (h := 2) (by decide) (by decide)
  have hy : v'.screen.OnScreen := by
    rw [Screen.OnScreen, hs.cursor.2, hs.height_eq]
    decide
  refine ⟨v, v', hv, hsize, by rw [ht]; rfl, ⟨ht ▸ { Terminal.init_wf with }, hs.wf⟩,
    ⟨hs.wf, hs.width_eq, hs.height_eq, hs.max_eq, hs.margins, hy⟩, by rw [hs.charset_eq, ht]; rfl,
    hs.print_eq, ?_, ?_, ?_⟩
  · rw [cursorInBuffer_eq hs.wf, hs.count_eq, hs.cursor.1, hs.cursor.2]
    rfl
  · rw [cursorInBuffer_eq hs.wf, hs.count_eq, hs.cursor.1, hs.cursor.2, Screen.place, hs.width_eq]
    rfl
  · rw [ht]
    funext k
    cases k <;> rfl

/-- An `a`, and a red `b` in the next column. -/
theorem sized_feed_coloured : ∃ v v' u str, VT100.init ⟨0, 0, 0⟩ = .ok v ∧
    v.setScreenSize 3 2 = .ok v' ∧
    feed Foundation.latin1 [[0x61, 0x1b, 0x5b], [0x33, 0x31, 0x6d, 0x62]] v' = .ok u ∧
    u.newAttributedString (fun a b => decide (a = b)) 0 = .ok str ∧ str.string[1]? = some 0x62 ∧
    Tinted (fun a b => decide (a = b)) str.foreground 1 (ColorMap.color 1) := by
  obtain ⟨v, v', hv, hsize, hempty, hwf, hopen, hascii, hprint, -, hplace, hattr⟩ := sized_ink
  have hwell : ∀ p ∈ [Piece.text [0x61], .sequence [] [[0x33, 0x31]] sgrByte, .text [0x62]],
      p.WellFormed := by decide +kernel
  obtain ⟨u, text, hfeed, htext, -, -, hdrawn⟩ := feed_coloured Foundation.latin1_asciiExact hwf
    hempty hopen hascii hprint (by decide) hwell (by decide +kernel)
    (by rw [hplace, hattr]; decide +kernel)
    (show [[0x61, 0x1b, 0x5b], [0x33, 0x31, 0x6d, 0x62]].flatten = _ from rfl)
  rw [hplace, hattr] at htext
  obtain rfl : text = paint attrOff [.text [0x61], .sequence [] [[0x33, 0x31]] sgrByte,
    .text [0x62]] := htext
  obtain ⟨str, hok, hchar, -, hfore⟩ := hdrawn _ decide_equivalence 1 (by decide +kernel)
  exact ⟨v, v', u, str, hv, hsize, hfeed, hok, hchar, hfore⟩

end VT100

end MobileTerminal
