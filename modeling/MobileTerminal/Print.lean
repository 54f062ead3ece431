import MobileTerminal.Fresh
import MobileTerminal.NewLine

/-!
# Printing

`Shown` relates a screen without margins to all rows that have been printed on
it: those above the cursor's row, the cursor's row, and the column. The screen
shows the last of them. Placing a cell and a line feed are then steps on this
list (`putCell_shown`, `setNewLine_shown`), and `Printing` follows a text
through them.

The list keeps rows that have long left the ring. Where the ring stands, how
many rows are in the scrollback, and which row the cursor is in are functions of
its length, so that one relation covers the screen that is still filling, the
one that scrolls, and the one whose scrollback is full. A reader finds the last
`max + h` rows (`keptAbove`).

A row that becomes full is marked at once and the next one begun, before another
character arrives. So the text of a line is full rows and a part of the next
one, and the column is the length of the text modulo the width
(`Printing.position`), never the width itself.
-/

namespace MobileTerminal

open Wrap

namespace Screen

variable {t : Terminal} {s s' : Screen} {max : Int} {w h x : Nat}
  {done : List (List ScreenChar)} {row : List ScreenChar}

/-- The rows `done` have been printed, the cursor is in column `x` of the row `row` below
them, and the text is ASCII. `max` is the size of the scrollback; what a reader finds is
the end of `done ++ [row]` with blank rows below it when the screen is not full. -/
structure Shown (max : Int) (w h : Nat) (done : List (List ScreenChar)) (row : List ScreenChar)
    (x : Nat) (s : Screen) : Prop where
  wf : s.Wf
  width_eq : s.width = w
  height_eq : s.height = h
  max_eq : s.maxScrollbackLines = max
  margins : s.FullMargins
  charset_eq : s.charset = Block.alloc 4 false
  print_eq : s.printToAnsi = false
  count_eq : s.currentScrollbackLines = min ((done.length + 1 - h : Nat) : Int) max
  top_eq : s.topLine = ((done.length + 1 - h : Nat) : Int) % (max + h)
  cursorX_eq : s.cursorX = x
  cursorY_eq : s.cursorY = ((min (done.length + 1) h : Nat) : Int) - 1
  row_length : row.length = w + 1
  shows : ShowsLast max h (done ++ [row]) s

/-- The rows above the cursor's that a reader still finds. -/
def keptAbove (max : Int) (h : Nat) (done : List (List ScreenChar)) : List (List ScreenChar) :=
  done.rtake ((max + h).toNat - 1)

theorem rtake_concat {n : Nat} (hn : 0 < n) (row : List ScreenChar) :
    (done ++ [row]).rtake n = done.rtake (n - 1) ++ [row] := by
  obtain ⟨m, rfl⟩ : ∃ m, n = m + 1 := ⟨n - 1, by omega⟩
  rw [List.rtake_concat_succ, Nat.add_sub_cancel]

theorem rtake_rtake (l : List (List ScreenChar)) (m n : Nat) :
    (l.rtake m).rtake n = l.rtake (min m n) := by
  simp only [List.rtake, List.length_drop, List.drop_drop]
  congr 1
  omega

theorem showsLast_concat (hpos : 0 < max + h) :
    ShowsLast max h (done ++ [row]) s ↔ ∃ blank, s.rows = keptAbove max h done ++ row :: blank ∧
      blank.length = h - (done.length + 1) ∧ ∀ row ∈ blank, ∀ c ∈ row, c.isNul = true := by
  unfold ShowsLast keptAbove
  rw [rtake_concat (by omega)]
  simp

namespace Shown

theorem height_pos (hs : Shown max w h done row x s) : 0 < h := by
  have hh := hs.wf.height_pos
  rw [hs.height_eq] at hh
  omega

theorem max_pos (hs : Shown max w h done row x s) : 0 < max := hs.max_eq ▸ hs.wf.max_pos

theorem total_eq (hs : Shown max w h done row x s) : s.totalHeight = max + h := by
  rw [totalHeight, hs.max_eq, hs.height_eq]

/-- Where the cursor's row stands among the rows a reader finds. -/
theorem cursor_index (hs : Shown max w h done row x s) :
    s.currentScrollbackLines + s.cursorY = (keptAbove max h done).length := by
  have hh := hs.height_pos
  have hm := hs.max_pos
  rw [hs.count_eq, hs.cursorY_eq, keptAbove, List.rtake, List.length_drop]
  omega

theorem cursor_range (hs : Shown max w h done row x s) :
    0 ≤ s.cursorY ∧ s.cursorY < s.height := by
  have hh := hs.height_pos
  rw [hs.cursorY_eq, hs.height_eq]
  omega

theorem cursor_line (hs : Shown max w h done row x s) :
    s.getLineAtScreenIndex s.cursorY =
      .ok (s.rowLine (keptAbove max h done).length * s.realWidth) := by
  rw [hs.wf.visibleLine hs.cursor_range.1 hs.cursor_range.2, hs.cursor_index]

theorem row_eq (hs : Shown max w h done row x s) :
    ∃ hlt : (keptAbove max h done).length < s.rows.length,
      s.rows[(keptAbove max h done).length] = row := by
  have hm := hs.max_pos
  obtain ⟨blank, hrows, -, -⟩ := (showsLast_concat (by omega)).mp hs.shows
  refine ⟨by rw [hrows]; simp, ?_⟩
  simp [hrows]

theorem draws {row' : List ScreenChar} (hs : Shown max w h done row x s) (hd : Draws s s')
    (hlen : row'.length = w + 1)
    (hrows : s'.rows = s.rows.set (keptAbove max h done).length row') :
    Shown max w h done row' x s' := by
  have hm := hs.max_pos
  have hwf := hd.wf hs.wf
  have hshows : ShowsLast max h (done ++ [row']) s' := by
    obtain ⟨blank, hr, hb, hnul⟩ := (showsLast_concat (by omega)).mp hs.shows
    refine (showsLast_concat (by omega)).mpr ⟨blank, ?_, hb, hnul⟩
    rw [hrows, hr]
    simp
  obtain ⟨⟨b, d, line, fg, bg, lw, -, -, rfl⟩, -⟩ := hd
  exact { hs with wf := hwf, row_length := hlen, shows := hshows }

theorem draws_of_eq (hs : Shown max w h done row x s) (hd : Draws s s')
    (hb : s'.bufferLines = s.bufferLines) : Shown max w h done row x s' := by
  obtain ⟨hlt, hrow⟩ := hs.row_eq
  refine hs.draws hd hs.row_length ?_
  rw [hd.rows_of_eq hb]
  conv_lhs => rw [← List.set_getElem_self hlt]
  rw [hrow]

theorem withCursorX (hs : Shown max w h done row x s) (x' : Nat) (hx' : x' < w) :
    Shown max w h done row x' { s with cursorX := x' } :=
  { hs with
    wf := hs.wf.withCursorX (by omega) (by rw [hs.width_eq]; omega)
    cursorX_eq := rfl }

theorem withTemp (hs : Shown max w h done row x s) {temp : Option (Block ScreenChar)}
    (hwf : Wf { s with tempBuffer := temp }) :
    Shown max w h done row x { s with tempBuffer := temp } :=
  { hs with
    wf := hwf
    shows := hs.shows }

theorem store (hs : Shown max w h done row x s) (c : ScreenChar) {k : Nat} (hk : k ≤ w) :
    ∃ s', s.storeCell (s.rowLine (keptAbove max h done).length * s.realWidth + k) c = .ok s' ∧
      Draws s s' ∧ Shown max w h done (row.set k c) x s' := by
  obtain ⟨hlt, hrow⟩ := hs.row_eq
  obtain ⟨s', hok, hd, hrows⟩ := storeCell_rows hs.wf c hlt (x := k)
    (by rw [hs.width_eq]; omega)
  rw [hrow] at hrows
  exact ⟨s', hok, hd, hs.draws hd (by rw [List.length_set, hs.row_length]) hrows⟩

theorem mark (hs : Shown max w h done row x s) :
    ∃ s' row', s.storeCh (s.rowLine (keptAbove max h done).length * s.realWidth + w) 1 = .ok s' ∧
      row'.dropLast = row.dropLast ∧ marked ScreenChar.isNul row' = true ∧
      Shown max w h done row' x s' := by
  obtain ⟨hlt, hrow⟩ := hs.row_eq
  obtain ⟨s', hok, hd, hrows⟩ := storeCh_rows hs.wf 1 hlt (x := w) (by rw [hs.width_eq])
  rw [hrow] at hrows
  refine ⟨s', _, hok, ?_, ?_, hs.draws hd (by rw [List.length_set, hs.row_length]) hrows⟩
  · rw [List.dropLast_eq_take, List.dropLast_eq_take, List.length_set, hs.row_length,
      Nat.add_sub_cancel, List.take_set_of_le (Nat.le_refl w)]
  · rw [Reflow.marked_set_last _ hs.row_length]
    rfl

end Shown

/-! ## A line feed -/

/-- Every row a reader finds has `w` cells and a mark. -/
theorem Shown.length_of_mem (hs : Shown max w h done row x s) {row' : List ScreenChar}
    (hmem : row' ∈ s.rows) : row'.length = w + 1 := by
  obtain ⟨i, hi, rfl⟩ := List.getElem_of_mem hmem
  rw [rows_getElem, Screen.row_length, realWidth, hs.width_eq]
  omega

/-- While there are rows left below the cursor, a line feed moves down. -/
theorem setNewLine_below (hs : Shown max w h done row x s) (t : Terminal)
    (hroom : done.length + 1 < h) :
    ∃ s' new, s.setNewLine t = .ok s' ∧ Shown max w h (done ++ [row]) new x s' ∧
      ∀ c ∈ new, c.isNul = true := by
  have hm := hs.max_pos
  have hy := hs.cursorY_eq
  obtain ⟨blank, hrows, hlen, hnul⟩ := (showsLast_concat (by omega)).mp hs.shows
  obtain ⟨new, blank, rfl⟩ : ∃ new blank', blank = new :: blank' := by
    cases blank with
    | nil => simp only [List.length_nil] at hlen; omega
    | cons new blank' => exact ⟨new, blank', rfl⟩
  have hdown : s.cursorY < s.scrollBottom := by
    rw [hs.margins.2, hs.height_eq]
    omega
  have hdone : (done ++ [row]).length = done.length + 1 := by simp
  have hnext : Shown max w h (done ++ [row]) new x { s with cursorY := s.cursorY + 1 } := by
    refine { hs with
      wf := { hs.wf with }, count_eq := ?_, top_eq := ?_, cursorY_eq := ?_
      row_length := hs.length_of_mem (by simp [hrows]), shows := ?_ }
    · rw [hs.count_eq, hdone]
      omega
    · rw [hdone, Nat.sub_eq_zero_of_le (by omega), ← Nat.sub_eq_zero_of_le hroom.le]
      exact hs.top_eq
    · simp only
      rw [hy, hdone]
      omega
    · refine (showsLast_concat (by omega)).mpr ⟨blank, ?_, ?_, ?_⟩
      · have hkept : ∀ l : List (List ScreenChar), l.length ≤ (max + h).toNat - 1 →
            keptAbove max h l = l := by
          intro l hl
          rw [keptAbove, List.rtake, Nat.sub_eq_zero_of_le hl, List.drop_zero]
        change s.rows = _
        rw [hrows, hkept done (by omega), hkept (done ++ [row]) (by omega)]
        simp
      · rw [List.length_cons] at hlen
        rw [hdone]
        omega
      · exact fun row' hrow' => hnul row' (List.mem_cons_of_mem new hrow')
  refine ⟨_, new, by rw [setNewLine, if_pos (Or.inl hdown)], ?_, hnul new (by simp)⟩
  split
  · exact hnext.draws_of_eq (touch_draws _ _) rfl
  · exact hnext

/-- In the bottom row a line feed scrolls: the row the cursor was in is complete, and it
stands in a new blank one. -/
theorem setNewLine_scrolls (hs : Shown max w h done row x s) (t : Terminal)
    (hroom : h ≤ done.length + 1) :
    ∃ s' new, s.setNewLine t = .ok s' ∧ Shown max w h (done ++ [row]) new x s' ∧
      ∀ c ∈ new, c.isNul = true := by
  have hm := hs.max_pos
  have hy := hs.cursorY_eq
  have hh := hs.height_pos
  obtain ⟨blank, hrows, hlen, -⟩ := hs.shows
  obtain rfl : blank = [] := by
    rw [List.length_append, List.length_singleton] at hlen
    exact List.length_eq_zero_iff.mp (by omega)
  rw [List.append_nil] at hrows
  obtain ⟨s', new, hok, hd, hrows', hnew, hnul⟩ := setNewLine_bottom hs.wf t hs.margins
    (by rw [hs.height_eq]; omega)
  have hdone : (done ++ [row]).length = done.length + 1 := by simp
  have hcount := hs.wf.rotate_count
  have hlost : (s.lostRows : Int) = if s.currentScrollbackLines = max then 1 else 0 := by
    rw [lostRows, hs.max_eq]
    split <;> rfl
  refine ⟨s', new, hok, ?_, hnul⟩
  have hwf := hd.wf hs.wf.rotate
  have hrot : s.rotate.width = s.width ∧ s.rotate.height = s.height ∧
      s.rotate.maxScrollbackLines = s.maxScrollbackLines ∧ s.rotate.FullMargins ∧
      s.rotate.charset = s.charset ∧ s.rotate.printToAnsi = s.printToAnsi ∧
      s.rotate.cursorX = s.cursorX ∧ s.rotate.cursorY = s.cursorY := by
    rw [hs.wf.rotate_eq]
    split <;> exact ⟨rfl, rfl, rfl, hs.margins, rfl, rfl, rfl, rfl⟩
  have hcount' : s'.currentScrollbackLines = min (((done ++ [row]).length + 1 - h : Nat) : Int)
      max := by
    rw [hd.count_eq, hcount, hlost, hs.count_eq, hdone]
    split <;> omega
  have htop : s'.topLine = (((done ++ [row]).length + 1 - h : Nat) : Int) % (max + h) := by
    rw [hd.topLine_eq, hs.wf.rotate_top, hs.top_eq, hs.total_eq, wrapLine_emod_succ (by omega),
      hdone]
    congr 1
    omega
  have hshows : ShowsLast max h ((done ++ [row]) ++ [new]) s' := by
    refine ⟨[], ?_, by simp; omega, by simp⟩
    rw [hrows', hs.total_eq, hrows, rtake_concat (by omega) new, rtake_concat (by omega) new,
      List.append_nil, rtake_rtake, Nat.min_eq_right (by omega)]
  obtain ⟨⟨b, d, line, fg, bg, lw, -, -, rfl⟩, -⟩ := hd
  refine {
    wf := hwf, width_eq := hrot.1.trans hs.width_eq, height_eq := hrot.2.1.trans hs.height_eq
    max_eq := hrot.2.2.1.trans hs.max_eq, margins := hrot.2.2.2.1
    charset_eq := hrot.2.2.2.2.1.trans hs.charset_eq
    print_eq := hrot.2.2.2.2.2.1.trans hs.print_eq, count_eq := hcount', top_eq := htop
    cursorX_eq := hrot.2.2.2.2.2.2.1.trans hs.cursorX_eq, cursorY_eq := ?_
    row_length := ?_, shows := hshows }
  · rw [hdone]
    have hcur : s.rotate.cursorY = ((min (done.length + 1 + 1) h : Nat) : Int) - 1 := by
      rw [hrot.2.2.2.2.2.2.2, hy]
      omega
    exact hcur
  · rw [hnew, realWidth, hs.width_eq]
    omega

theorem setNewLine_shown (hs : Shown max w h done row x s) (t : Terminal) :
    ∃ s' new, s.setNewLine t = .ok s' ∧ Shown max w h (done ++ [row]) new x s' ∧
      ∀ c ∈ new, c.isNul = true := by
  by_cases hroom : done.length + 1 < h
  · exact setNewLine_below hs t hroom
  · exact setNewLine_scrolls hs t (by omega)

/-! ## Placing a cell -/

/-- The cell is stored; what follows depends on the column. -/
theorem putCell_stores (hs : Shown max w h done row x s) (hx : x < w) {c : ScreenChar}
    (hc : c.ch ≠ 0xffff) (t : Terminal) :
    ∃ s₁, Shown max w h done (row.set x c) x s₁ ∧ s.putCell t c =
      if x + 1 < w then .ok s₁.stepRight else s₁.stepRight.wrapToNextLine t := by
  obtain ⟨s₁, h₁, hd, hs₁⟩ := hs.store c (Nat.le_of_lt hx)
  refine ⟨s₁, hs₁, ?_⟩
  have hcol : s₁.stepRight.cursorX = x + 1 := congrArg (· + 1) hs₁.cursorX_eq
  have hwidth : s₁.stepRight.width = w := hs₁.width_eq
  rw [putCell, if_neg hc, hs.cursor_line, ok_bind, hs.cursorX_eq, h₁, ok_bind, hcol, hwidth]
  by_cases hroom : x + 1 < w
  · rw [if_neg (by omega), if_pos hroom]
  · rw [if_pos (by omega), if_neg hroom]

theorem putCell_room (hs : Shown max w h done row x s) (hx : x + 1 < w) {c : ScreenChar}
    (hc : c.ch ≠ 0xffff) (t : Terminal) :
    ∃ s', s.putCell t c = .ok s' ∧ Shown max w h done (row.set x c) (x + 1) s' := by
  obtain ⟨s₁, hs₁, heq⟩ := putCell_stores hs (by omega) hc t
  refine ⟨s₁.stepRight, by rw [heq, if_pos hx], ?_⟩
  have hd := stepRight_draws s₁
  rw [hs₁.cursorX_eq] at hd
  exact (hs₁.withCursorX (x + 1) hx).draws_of_eq hd rfl

/-- The row is marked and a new one begun. -/
theorem wrapToNextLine_shown (hs : Shown max w h done row 0 { s with cursorX := 0 })
    (t : Terminal) :
    ∃ s' full new, s.wrapToNextLine t = .ok s' ∧ full.length = w + 1 ∧
      full.dropLast = row.dropLast ∧ marked ScreenChar.isNul full = true ∧
      Shown max w h (done ++ [full]) new 0 s' ∧ ∀ c ∈ new, c.isNul = true := by
  simp only [wrapToNextLine]
  generalize hs₁ : ({ s with cursorX := 0 } : Screen) = s₁ at hs ⊢
  obtain ⟨s₂, full, h₂, hfull, hmark, hs₂⟩ := hs.mark
  obtain ⟨s₃, new, h₃, hs₃, hnul⟩ := setNewLine_shown hs₂ t
  refine ⟨s₃, full, new, ?_, hs₂.row_length, hfull, hmark, hs₃, hnul⟩
  rw [show s.cursorY = s₁.cursorY by rw [← hs₁], hs.cursor_line, ok_bind,
    show s.width = w by rw [← hs.width_eq, ← hs₁], h₂, ok_bind, h₃]

theorem putCell_wraps (hs : Shown max w h done row x s) (hx : x + 1 = w) {c : ScreenChar}
    (hc : c.ch ≠ 0xffff) (t : Terminal) :
    ∃ s' full new, s.putCell t c = .ok s' ∧ full.length = w + 1 ∧
      full.dropLast = (row.set x c).dropLast ∧ marked ScreenChar.isNul full = true ∧
      Shown max w h (done ++ [full]) new 0 s' ∧ ∀ c ∈ new, c.isNul = true := by
  obtain ⟨s₁, hs₁, heq⟩ := putCell_stores hs (by omega) hc t
  have hs₂ : Shown max w h done (row.set x c) 0 { s₁.stepRight with cursorX := 0 } :=
    (hs₁.withCursorX 0 (by omega)).draws_of_eq ((stepRight_draws s₁).withCursorX 0) rfl
  obtain ⟨s', full, new, hok, hfull⟩ := wrapToNextLine_shown hs₂ t
  exact ⟨s', full, new, by rw [heq, if_neg (by omega), hok], hfull⟩

/-! ## Printing a text -/

/-- The text written since the rows `out` were complete: some full rows, then the
cells left of the cursor. `tail` is the row the text was begun in; as long as the
cursor is in it, the cells from the cursor on are still those of `tail`. -/
structure Printing (max : Int) (w h : Nat) (out : List (List ScreenChar))
    (tail text : List ScreenChar) (s : Screen) : Prop where
  rows : ∃ full row x, text = full.flatMap List.dropLast ++ row.take x ∧ x < w ∧
    (∀ r ∈ full, r.length = w + 1 ∧ marked ScreenChar.isNul r = true) ∧
    (full = [] → row.drop x = tail.drop x) ∧
    (full ≠ [] → ∀ c ∈ row.drop x, c.isNul = true) ∧
    Shown max w h (out ++ full) row x s

theorem Printing.start (hs : Shown max w h done row x s) (hx : x < w) :
    Printing max w h done row (row.take x) s :=
  ⟨[], row, x, by simp, hx, by simp, fun _ => rfl, by simp, by simpa using hs⟩

/-- Full rows and the column, from the length of the text. -/
theorem Printing.position {out : List (List ScreenChar)} {tail text : List ScreenChar}
    (hp : Printing max w h out tail text s) :
    ∃ full row, text = full.flatMap List.dropLast ++ row.take (text.length % w) ∧
      full.length = text.length / w ∧
      (∀ r ∈ full, r.length = w + 1 ∧ marked ScreenChar.isNul r = true) ∧
      (full = [] → row.drop (text.length % w) = tail.drop (text.length % w)) ∧
      (full ≠ [] → ∀ c ∈ row.drop (text.length % w), c.isNul = true) ∧
      Shown max w h (out ++ full) row (text.length % w) s := by
  obtain ⟨full, row, x, htext, hx, hfull, htail, hnul, hs⟩ := hp
  have hlen : text.length = x + w * full.length := by
    rw [htext, List.length_append, length_of_full fun r hr => (hfull r hr).1, List.length_take,
      hs.row_length, Nat.mul_comm]
    omega
  have hmod : text.length % w = x := by
    rw [hlen, Nat.add_mul_mod_self_left, Nat.mod_eq_of_lt hx]
  have hdiv : text.length / w = full.length := by
    rw [hlen, Nat.add_mul_div_left _ _ (by omega), Nat.div_eq_of_lt hx, Nat.zero_add]
  refine ⟨full, row, ?_, hdiv.symm, hfull, ?_⟩
  · rw [hmod]
    exact htext
  · rw [hmod]
    exact ⟨htail, hnul, hs⟩

theorem Printing.putCell {out : List (List ScreenChar)} {tail text : List ScreenChar}
    (hp : Printing max w h out tail text s) {c : ScreenChar} (hc : c.ch ≠ 0xffff)
    (t : Terminal) :
    ∃ s', s.putCell t c = .ok s' ∧ Printing max w h out tail (text ++ [c]) s' := by
  obtain ⟨full, row, x, rfl, hx, hfull, htail, hnul, hs⟩ := hp
  have hlen := hs.row_length
  have htake : (row.set x c).take (x + 1) = row.take x ++ [c] := by
    rw [List.take_add_one, List.take_set_of_le (Nat.le_refl _),
      List.getElem?_set_self (by omega)]
    rfl
  by_cases hroom : x + 1 < w
  · obtain ⟨s', hok, hs'⟩ := putCell_room hs hroom hc t
    have hdrop : (row.set x c).drop (x + 1) = row.drop (x + 1) :=
      List.drop_set_of_lt (by omega)
    refine ⟨s', hok, full, row.set x c, x + 1, by rw [htake, List.append_assoc], hroom, hfull,
      ?_, ?_, hs'⟩
    · intro hnil
      rw [hdrop, ← List.drop_drop, htail hnil, List.drop_drop]
    · intro hne c' hc'
      rw [hdrop, ← List.drop_drop] at hc'
      exact hnul hne c' (List.mem_of_mem_drop hc')
  · obtain ⟨s', last, new, hok, hlen', hlast, hmark, hs', hnew⟩ :=
      putCell_wraps hs (by omega) hc t
    refine ⟨s', hok, full ++ [last], new, 0, ?_, by omega, ?_, by simp, ?_, ?_⟩
    · rw [List.flatMap_append, List.flatMap_singleton, hlast, List.dropLast_eq_take,
        List.length_set, hlen, Nat.add_sub_cancel, show w = x + 1 by omega, htake]
      simp
    · intro r hr
      rw [List.mem_append, List.mem_singleton] at hr
      exact hr.elim (hfull r) fun heq => heq ▸ ⟨hlen', hmark⟩
    · exact fun _ => hnew
    · rwa [← List.append_assoc]

theorem Printing.foldlM {out : List (List ScreenChar)} {tail text : List ScreenChar}
    (hp : Printing max w h out tail text s) (t : Terminal) {cells : List ScreenChar}
    (hcells : ∀ c ∈ cells, c.ch ≠ 0xffff) :
    ∃ s', cells.foldlM (fun s c => s.putCell t c) s = .ok s' ∧
      Printing max w h out tail (text ++ cells) s' := by
  induction cells generalizing s text with
  | nil => exact ⟨s, rfl, by simpa using hp⟩
  | cons c cells ih =>
      obtain ⟨s₁, h₁, hp₁⟩ := hp.putCell (hcells c (by simp)) t
      obtain ⟨s₂, h₂, hp₂⟩ := ih hp₁ fun c' hc' => hcells c' (by simp [hc'])
      refine ⟨s₂, by rw [List.foldlM_cons, h₁, ok_bind, h₂], by simpa using hp₂⟩

end Screen

end MobileTerminal
