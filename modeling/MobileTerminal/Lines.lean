import MobileTerminal.Asserts
import MobileTerminal.Confine
import MobileTerminal.LastSize
import MobileTerminal.Sequence

/-!
# Inserting and deleting lines

Between the row of the cursor and the bottom margin `insertLines:` and
`deleteLines:` splice rows: the rows that stay move by whole rows, and as many
default lines come in as rows go out. The code moves one row at a time and looks
up both addresses for each, so it does not matter where the rows lie in the
ring. `insertRows` and `deleteRows` are the same operation on a list, and the
main result says that the list of visible rows is spliced (`lines_splice`), with
the cursor and the scrollback as they were. That the calls complete is part of
it.

Each of the two is a loop that moves rows followed by a loop that clears rows.
Their specifications speak of single cells (`moveRowsDown_spec`,
`clearRows_spec`); only the whole operation is turned into a statement about
rows, and `splice_getElem?` is where the indices of the two views meet.

Below the bottom margin there is nothing to splice, and the two only mark the
rows in between as dirty. They compute the length for this as if the cursor were
above the margin, so it is zero in the row right below it, where the call does
no harm, and negative further down (`lines_below_iff`).
-/

namespace MobileTerminal

/-! ## Splicing a list -/

section

variable {α : Type}

/-- The elements from `y` to `b` give way to `mid`. -/
def splice (y b : Nat) (mid rows : List α) : List α := rows.take y ++ mid ++ rows.drop (b + 1)

/-- `m` copies of `blank` come in at `y`, and as many elements go out before `b + 1`. -/
def insertRows (blank : α) (y b m : Nat) (rows : List α) : List α :=
  splice y b (List.replicate m blank ++ (rows.drop y).take (b + 1 - y - m)) rows

/-- `m` elements go out at `y`, and as many copies of `blank` come in before `b + 1`. -/
def deleteRows (blank : α) (y b m : Nat) (rows : List α) : List α :=
  splice y b ((rows.drop (y + m)).take (b + 1 - y - m) ++ List.replicate m blank) rows

variable {blank : α} {y b m : Nat} {rows : List α}

theorem splice_getElem? {mid : List α} (hy : y ≤ b + 1) (hb : b < rows.length)
    (hmid : mid.length = b + 1 - y) (i : Nat) :
    (splice y b mid rows)[i]? = if y ≤ i ∧ i ≤ b then mid[i - y]? else rows[i]? := by
  have htake : (rows.take y).length = y := by
    rw [List.length_take]
    omega
  have hfront : (rows.take y ++ mid).length = b + 1 := by
    rw [List.length_append, htake]
    omega
  rw [splice]
  rcases Nat.lt_or_ge i (b + 1) with hi | hi
  · rw [List.getElem?_append_left (by omega)]
    rcases Nat.lt_or_ge i y with hiy | hiy
    · rw [if_neg (by omega), List.getElem?_append_left (by omega), List.getElem?_take_of_lt hiy]
    · rw [if_pos ⟨hiy, by omega⟩, List.getElem?_append_right (by omega), htake]
  · rw [if_neg (by omega), List.getElem?_append_right (by omega), hfront, List.getElem?_drop]
    congr 1
    omega

theorem insertRows_getElem? (hm : y + m ≤ b + 1) (hb : b < rows.length) (i : Nat) :
    (insertRows blank y b m rows)[i]? =
      if y ≤ i ∧ i < y + m then some blank
      else if y + m ≤ i ∧ i ≤ b then rows[i - m]? else rows[i]? := by
  rw [insertRows, splice_getElem? (by omega) hb
    (by rw [List.length_append, List.length_replicate, List.length_take, List.length_drop]; omega)]
  by_cases hin : y ≤ i ∧ i ≤ b
  · rw [if_pos hin]
    rcases Nat.lt_or_ge i (y + m) with him | him
    · rw [if_pos ⟨hin.1, him⟩, List.getElem?_append_left (by rw [List.length_replicate]; omega),
        List.getElem?_replicate_of_lt (by omega)]
    · rw [if_neg (by omega), if_pos ⟨him, hin.2⟩,
        List.getElem?_append_right (by rw [List.length_replicate]; omega),
        List.length_replicate, List.getElem?_take_of_lt (by omega), List.getElem?_drop]
      congr 1
      omega
  · rw [if_neg hin, if_neg (by omega), if_neg (by omega)]

theorem deleteRows_getElem? (hm : y + m ≤ b + 1) (hb : b < rows.length) (i : Nat) :
    (deleteRows blank y b m rows)[i]? =
      if y ≤ i ∧ i + m ≤ b then rows[i + m]?
      else if y ≤ i ∧ i ≤ b then some blank else rows[i]? := by
  have hkept : ((rows.drop (y + m)).take (b + 1 - y - m)).length = b + 1 - y - m := by
    rw [List.length_take, List.length_drop]
    omega
  rw [deleteRows, splice_getElem? (by omega) hb
    (by rw [List.length_append, List.length_replicate, hkept]; omega)]
  by_cases hin : y ≤ i ∧ i ≤ b
  · rw [if_pos hin]
    rcases Nat.lt_or_ge b (i + m) with him | him
    · rw [if_neg (by omega), if_pos hin, List.getElem?_append_right (by omega),
        List.getElem?_replicate_of_lt (by omega)]
    · rw [if_pos ⟨hin.1, him⟩, List.getElem?_append_left (by omega),
        List.getElem?_take_of_lt (by omega), List.getElem?_drop]
      congr 1
      omega
  · rw [if_neg hin, if_neg (by omega), if_neg hin]

end

namespace Screen

variable {t : Terminal} {s s' : Screen} {n : Int}

/-! ## Moving and clearing rows -/

theorem moveRowsDown_spec (h : s.Wf) (hn : s.LinesFit n) (hle : n + s.cursorY ≤ s.scrollBottom) :
    ∃ s', s.moveRowsDown n = .ok s' ∧ Draws s s' ∧
      ∀ j x, 0 ≤ j → j < s.totalHeight → 0 ≤ x → x ≤ s.width →
        s'.cellAt j x =
          if s.currentScrollbackLines + s.cursorY + n ≤ j ∧
              j ≤ s.currentScrollbackLines + s.scrollBottom
          then s.cellAt (j - n) x else s.cellAt j x := by
  have hm := h.margins
  rw [moveRowsDown, hn.cint_sum, if_pos hle, hn.numLinesMoved_eq h]
  obtain ⟨hy, hH, hpos, -⟩ := hn
  unfold OnScreen at hy
  -- rows below `cursorY + i + n` have moved, the others have not been touched
  have hloop := forDown_total (s.scrollBottom - s.cursorY - n)
    (s.scrollBottom - s.cursorY - n + 1).toNat
    (f := fun i s => do
      let sourceLine ← s.getLineAtScreenIndex (cint (s.cursorY + i))
      let targetLine ← s.getLineAtScreenIndex (cint (s.cursorY + i + n))
      s.copyLine targetLine sourceLine)
    (P := fun i s' => Draws s s' ∧ ∀ j x, 0 ≤ j → j < s.totalHeight → 0 ≤ x → x ≤ s.width →
      s'.cellAt j x = if s.currentScrollbackLines + s.cursorY + i + n < j ∧
          j ≤ s.currentScrollbackLines + s.scrollBottom
        then s.cellAt (j - n) x else s.cellAt j x)
    ?_ (s := s) ⟨.refl s, fun j x _ _ _ _ => by rw [if_neg (by omega)]⟩
  · obtain ⟨s', hok, hd, hcells⟩ := hloop
    refine ⟨s', hok, hd, fun j x hj hj' hx hx' => ?_⟩
    rw [hcells j x hj hj' hx hx']
    congr 1
    apply propext
    omega
  · rintro i s₁ hi hi' ⟨hd, hcells⟩
    rw [hd.cursor_eq.2, cint_of_isInt (n := s.cursorY + i) ⟨by omega, by omega⟩,
      cint_of_isInt (n := s.cursorY + i + n) ⟨by omega, by omega⟩]
    exact hd.moveRow h (k := -n) (by omega) (by omega) (by omega) (by omega) (by omega) hcells
      (by omega) fun j => by omega

theorem moveRowsUp_spec (h : s.Wf) (hn : s.LinesFit n) (hle : n + s.cursorY ≤ s.scrollBottom) :
    ∃ s', s.moveRowsUp n = .ok s' ∧ Draws s s' ∧
      ∀ j x, 0 ≤ j → j < s.totalHeight → 0 ≤ x → x ≤ s.width →
        s'.cellAt j x =
          if s.currentScrollbackLines + s.cursorY ≤ j ∧
              j + n ≤ s.currentScrollbackLines + s.scrollBottom
          then s.cellAt (j + n) x else s.cellAt j x := by
  have hm := h.margins
  rw [moveRowsUp, hn.cint_sum, if_pos hle, hn.numLinesMoved_eq h]
  obtain ⟨hy, hH, hpos, -⟩ := hn
  unfold OnScreen at hy
  -- rows above `cursorY + i` have moved, the others have not been touched
  have hloop := forUp_total 0 (s.scrollBottom - s.cursorY - n + 1).toNat
    (f := fun i s => do
      let sourceLine ← s.getLineAtScreenIndex (cint (s.cursorY + i + n))
      let targetLine ← s.getLineAtScreenIndex (cint (s.cursorY + i))
      s.copyLine targetLine sourceLine)
    (P := fun i s' => Draws s s' ∧ ∀ j x, 0 ≤ j → j < s.totalHeight → 0 ≤ x → x ≤ s.width →
      s'.cellAt j x = if s.currentScrollbackLines + s.cursorY ≤ j ∧
          j < s.currentScrollbackLines + s.cursorY + i
        then s.cellAt (j + n) x else s.cellAt j x)
    ?_ (s := s) ⟨.refl s, fun j x _ _ _ _ => by rw [if_neg (by omega)]⟩
  · obtain ⟨s', hok, hd, hcells⟩ := hloop
    refine ⟨s', hok, hd, fun j x hj hj' hx hx' => ?_⟩
    rw [hcells j x hj hj' hx hx']
    congr 1
    apply propext
    omega
  · rintro i s₁ hi hi' ⟨hd, hcells⟩
    rw [hd.cursor_eq.2, cint_of_isInt (n := s.cursorY + i) ⟨by omega, by omega⟩,
      cint_of_isInt (n := s.cursorY + i + n) ⟨by omega, by omega⟩]
    exact hd.moveRow h (by omega) (by omega) (by omega) (by omega) rfl hcells (by omega)
      fun j => by omega

theorem clearRows_spec (h : s.Wf) (hH : s.height < 2 ^ 31) {line : Block ScreenChar}
    (hl : s.realWidth ≤ line.size) {y : Int} (hy : 0 ≤ y) {m : Nat} (hm : y + m ≤ s.height) :
    ∃ s', s.clearRows line y m = .ok s' ∧ Draws s s' ∧
      ∀ j x, 0 ≤ j → j < s.totalHeight → 0 ≤ x → x ≤ s.width →
        s'.cellAt j x =
          if s.currentScrollbackLines + y ≤ j ∧ j < s.currentScrollbackLines + y + m
          then line.cell x else s.cellAt j x := by
  have hloop := forUp_total 0 m
    (f := fun i s => do
      let aLine ← s.getLineAtScreenIndex (cint (y + i))
      s.clearLine aLine line)
    (P := fun i s' => Draws s s' ∧ ∀ j x, 0 ≤ j → j < s.totalHeight → 0 ≤ x → x ≤ s.width →
      s'.cellAt j x = if s.currentScrollbackLines + y ≤ j ∧ j < s.currentScrollbackLines + y + i
        then line.cell x else s.cellAt j x)
    ?_ (s := s) ⟨.refl s, fun j x _ _ _ _ => by rw [if_neg (by omega)]⟩
  · obtain ⟨s', hok, hd, hcells⟩ := hloop
    rw [Int.zero_add] at hcells
    exact ⟨s', hok, hd, hcells⟩
  · rintro i s₁ hi hi' ⟨hd, hcells⟩
    have hwf := hd.wf h
    have hr := h.visible_range (y := y + i) (by omega) (by omega)
    obtain ⟨s₂, hok, hd₂, hcells₂⟩ := clearLine_spec hwf (by rw [hd.realWidth_eq]; exact hl)
      hr.1 (by rw [hd.totalHeight_eq]; exact hr.2)
    rw [hd.totalHeight_eq, hd.width_eq] at hcells₂
    refine ⟨s₂, ?_, hd.trans hd₂, fun j x hj hj' hx hx' => ?_⟩
    · rw [cint_of_isInt (n := y + i) ⟨by omega, by omega⟩,
        hwf.visibleLine (by omega) (by rw [hd.height_eq]; omega), ok_bind, hd.count_eq]
      exact hok
    · rw [hcells₂ j x hj hj' hx hx', hcells j x hj hj' hx hx']
      by_cases hji : j = s.currentScrollbackLines + (y + i)
      · rw [if_pos hji, if_pos (by omega)]
      · rw [if_neg hji]
        congr 1
        apply propext
        omega

/-! ## The whole operations -/

theorem moveRowsDown_sameButBuffer (hok : s.moveRowsDown n = .ok s') : SameButBuffer s s' := by
  unfold moveRowsDown at hok
  split at hok
  · exact forDown_inv (P := fun _ s' => SameButBuffer s s')
      (fun _ _ _ _ _ h hs => h.trans (copyLineAt_sameButBuffer hs)) (.refl s) hok
  · cases hok
    exact .refl s

theorem moveRowsUp_sameButBuffer (hok : s.moveRowsUp n = .ok s') : SameButBuffer s s' := by
  unfold moveRowsUp at hok
  split at hok
  · exact forUp_inv (P := fun _ s' => SameButBuffer s s')
      (fun _ _ _ _ _ h hs => h.trans (copyLineAt_sameButBuffer hs)) (.refl s) hok
  · cases hok
    exact .refl s

/-- The number of rows the two operations exchange. -/
def linesSpliced (n : Int) (s : Screen) : Int := min n (s.scrollBottom - s.cursorY + 1)

theorem LinesFit.clampLines_eq (hn : s.LinesFit n) : s.clampLines n = s.linesSpliced n := by
  rw [clampLines, hn.cint_sum, linesSpliced]
  split <;> omega

/-- The end of both operations: rows become default lines and the region is marked dirty. -/
theorem clearDefault_spec {s₁ : Screen} (h : s.Wf) (hH : s.height < 2 ^ 31)
    (hle : s.cursorY ≤ s.scrollBottom) (hd : Draws s s₁) (hsame : SameButBuffer s s₁) {y : Int}
    (hy : 0 ≤ y) {m : Nat} (hm : y + m ≤ s.height) :
    ∃ s', (do
        let aDefaultLine := s₁.getDefaultLineWithWidth t s₁.width
        let s ← aDefaultLine.1.clearRows aDefaultLine.2 y m
        s.dirtyFill true (s.cursorY * s.width) ((s.scrollBottom - s.cursorY + 1) * s.width)) =
          .ok s' ∧ Draws s s' ∧
      ∀ j x, 0 ≤ j → j < s.totalHeight → 0 ≤ x → x ≤ s.width →
        s'.cellAt j x =
          if s.currentScrollbackLines + y ≤ j ∧ j < s.currentScrollbackLines + y + m
          then (s.blankLine t).cell x else s₁.cellAt j x := by
  have hwf₁ := hd.wf h
  have hw := h.width_pos
  have hline := getDefaultLine_draws t.foregroundColorCode t.backgroundColorCode s₁.width s₁
  have hdl := hd.trans hline
  have hbuf : (s₁.getDefaultLineWithWidth t s₁.width).1.bufferLines = s₁.bufferLines :=
    getDefaultLine_bufferLines _ _ _ s₁
  obtain ⟨s₂, h₂, hd₂, hcells⟩ := clearRows_spec (hdl.wf h) (by rw [hdl.height_eq]; exact hH)
    (by rw [hline.realWidth_eq]; exact (hwf₁.blankLine_ok t).1) hy
    (by rw [hdl.height_eq]; exact hm)
  have hds := hdl.trans hd₂
  have hlen : 0 ≤ (s₂.scrollBottom - s₂.cursorY + 1) * s₂.width := by
    rw [hds.margins_eq.2, hds.cursor_eq.2, hds.width_eq]
    exact Int.mul_nonneg (by omega) (by omega)
  obtain ⟨s₃, h₃, hd₃, hb₃⟩ := dirtyFill_spec true (s₂.cursorY * s₂.width) hlen s₂
  refine ⟨s₃, bind_eq_ok.mpr ⟨s₂, h₂, h₃⟩, hds.trans hd₃, ?_⟩
  intro j x hj hj' hx hx'
  rw [hd₃.cellAt_of_eq (hd₂.wf (hdl.wf h)) hb₃,
    hcells j x hj (by rw [hdl.totalHeight_eq]; exact hj') hx (by rw [hdl.width_eq]; exact hx'),
    hdl.count_eq, hline.cellAt_of_eq hwf₁ hbuf, ← hsame.blankLine_eq, blankLine]

theorem insertLines_cells (h : s.Wf) (t : Terminal) (hn : s.LinesFit n)
    (hle : s.cursorY ≤ s.scrollBottom) :
    ∃ s', s.insertLines t n = .ok s' ∧ Draws s s' ∧
      ∀ j x, 0 ≤ j → j < s.totalHeight → 0 ≤ x → x ≤ s.width →
        s'.cellAt j x =
          if s.currentScrollbackLines + s.cursorY ≤ j ∧
              j < s.currentScrollbackLines + s.cursorY + s.linesSpliced n
          then (s.blankLine t).cell x
          else if s.currentScrollbackLines + s.cursorY + s.linesSpliced n ≤ j ∧
              j ≤ s.currentScrollbackLines + s.scrollBottom
          then s.cellAt (j - s.linesSpliced n) x else s.cellAt j x := by
  have hm := h.margins
  have hclamp := hn.clampLines_eq
  have hmin : s.linesSpliced n = min n (s.scrollBottom - s.cursorY + 1) := rfl
  have hmoved : ∃ s₁, s.moveRowsDown n = .ok s₁ ∧ Draws s s₁ ∧
      ∀ j x, 0 ≤ j → j < s.totalHeight → 0 ≤ x → x ≤ s.width →
        s₁.cellAt j x =
          if s.currentScrollbackLines + s.cursorY + s.linesSpliced n ≤ j ∧
              j ≤ s.currentScrollbackLines + s.scrollBottom
          then s.cellAt (j - s.linesSpliced n) x else s.cellAt j x := by
    by_cases hfit : n + s.cursorY ≤ s.scrollBottom
    · rw [show s.linesSpliced n = n by omega]
      exact moveRowsDown_spec h hn hfit
    · refine ⟨s, ?_, .refl s, fun j x _ _ _ _ => by rw [if_neg (by omega)]⟩
      rw [moveRowsDown, hn.cint_sum, if_neg hfit]
  obtain ⟨s₁, h₁, hd₁, hcells₁⟩ := hmoved
  obtain ⟨hy, hH, hpos, -⟩ := hn
  unfold OnScreen at hy
  obtain ⟨s₂, h₂, hd₂, hcells₂⟩ := clearDefault_spec (t := t) h hH hle hd₁
    (moveRowsDown_sameButBuffer h₁) hy.1 (m := (s.linesSpliced n).toNat) (by omega)
  refine ⟨s₂, ?_, hd₂, fun j x hj hj' hx hx' => ?_⟩
  · simp only [insertLines, h₁, ok_bind, hd₁.clampLines_eq, hclamp, hd₁.cursor_eq.2]
    exact h₂
  · rw [hcells₂ j x hj hj' hx hx', hcells₁ j x hj hj' hx hx',
      Int.toNat_of_nonneg (show 0 ≤ s.linesSpliced n by omega)]

theorem deleteLines_cells (h : s.Wf) (t : Terminal) (hn : s.LinesFit n)
    (hle : s.cursorY ≤ s.scrollBottom) :
    ∃ s', s.deleteLines t n = .ok s' ∧ Draws s s' ∧
      ∀ j x, 0 ≤ j → j < s.totalHeight → 0 ≤ x → x ≤ s.width →
        s'.cellAt j x =
          if s.currentScrollbackLines + s.cursorY ≤ j ∧
              j + s.linesSpliced n ≤ s.currentScrollbackLines + s.scrollBottom
          then s.cellAt (j + s.linesSpliced n) x
          else if s.currentScrollbackLines + s.cursorY ≤ j ∧
              j ≤ s.currentScrollbackLines + s.scrollBottom
          then (s.blankLine t).cell x else s.cellAt j x := by
  have hm := h.margins
  have hclamp := hn.clampLines_eq
  have hmin : s.linesSpliced n = min n (s.scrollBottom - s.cursorY + 1) := rfl
  have hmoved : ∃ s₁, s.moveRowsUp n = .ok s₁ ∧ Draws s s₁ ∧
      ∀ j x, 0 ≤ j → j < s.totalHeight → 0 ≤ x → x ≤ s.width →
        s₁.cellAt j x =
          if s.currentScrollbackLines + s.cursorY ≤ j ∧
              j + s.linesSpliced n ≤ s.currentScrollbackLines + s.scrollBottom
          then s.cellAt (j + s.linesSpliced n) x else s.cellAt j x := by
    by_cases hfit : n + s.cursorY ≤ s.scrollBottom
    · rw [show s.linesSpliced n = n by omega]
      exact moveRowsUp_spec h hn hfit
    · refine ⟨s, ?_, .refl s, fun j x _ _ _ _ => by rw [if_neg (by omega)]⟩
      rw [moveRowsUp, hn.cint_sum, if_neg hfit]
  obtain ⟨s₁, h₁, hd₁, hcells₁⟩ := hmoved
  obtain ⟨hy, hH, hpos, -⟩ := hn
  unfold OnScreen at hy
  obtain ⟨s₂, h₂, hd₂, hcells₂⟩ := clearDefault_spec (t := t) h hH hle hd₁
    (moveRowsUp_sameButBuffer h₁) (y := s.scrollBottom - s.linesSpliced n + 1) (by omega)
    (m := (s.linesSpliced n).toNat) (by omega)
  refine ⟨s₂, ?_, hd₂, fun j x hj hj' hx hx' => ?_⟩
  · simp only [deleteLines, h₁, ok_bind, hd₁.clampLines_eq, hclamp, hd₁.margins_eq.2]
    exact h₂
  · rw [hcells₂ j x hj hj' hx hx', hcells₁ j x hj hj' hx hx',
      Int.toNat_of_nonneg (show 0 ≤ s.linesSpliced n by omega)]
    by_cases hkept : s.currentScrollbackLines + s.cursorY ≤ j ∧
        j + s.linesSpliced n ≤ s.currentScrollbackLines + s.scrollBottom
    · rw [if_neg (by omega), if_pos hkept, if_pos hkept]
    · rw [if_neg hkept, if_neg hkept]
      congr 1
      apply propext
      omega

/-! ## Rows -/

theorem Wf.visibleRows_getElem? (h : s.Wf) (i : Nat) :
    s.visibleRows[i]? =
      if (i : Int) < s.height then some (s.row (s.currentScrollbackLines.toNat + i)) else none := by
  have hlen := h.visibleRows_length
  by_cases hi : (i : Int) < s.height
  · rw [if_pos hi, List.getElem?_eq_getElem (by omega), visibleRows_getElem]
  · rw [if_neg hi, List.getElem?_eq_none (by omega)]

/-- The screen shows the rows `rows`; cursor and scrollback are as before. -/
structure ShowsRows (s s' : Screen) (rows : List (List ScreenChar)) : Prop where
  visible : s'.visibleRows = rows
  scrollback : s'.scrollbackRows = s.scrollbackRows
  cursor : s'.cursorX = s.cursorX ∧ s'.cursorY = s.cursorY

theorem insertLines_rows (h : s.Wf) (t : Terminal) (hn : s.LinesFit n)
    (hle : s.cursorY ≤ s.scrollBottom) :
    ∃ s', s.insertLines t n = .ok s' ∧ s.ShowsRows s' (insertRows (s.blankRow t) s.cursorY.toNat
      s.scrollBottom.toNat (s.linesSpliced n).toNat s.visibleRows) := by
  have hm := h.margins
  have hc := h.count_range
  have hT : s.totalHeight = s.maxScrollbackLines + s.height := rfl
  have hlen := h.visibleRows_length
  have hmin : s.linesSpliced n = min n (s.scrollBottom - s.cursorY + 1) := rfl
  obtain ⟨s', hok, hd, hcells⟩ := insertLines_cells h t hn hle
  obtain ⟨hy, -, hpos, -⟩ := hn
  unfold OnScreen at hy
  have hwf := hd.wf h
  refine ⟨s', hok, ?_, ?_, hd.cursor_eq⟩
  · apply List.ext_getElem?
    intro i
    rw [hwf.visibleRows_getElem?, insertRows_getElem? (by omega) (by omega),
      h.visibleRows_getElem?, h.visibleRows_getElem?, hd.height_eq, hd.count_eq]
    by_cases hi : (i : Int) < s.height
    · rw [if_pos hi, if_pos hi]
      have hcell := fun x => hcells (s.currentScrollbackLines.toNat + i : Nat) x (by omega) (by omega)
      by_cases hin : s.cursorY.toNat ≤ i ∧ i < s.cursorY.toNat + (s.linesSpliced n).toNat
      · rw [if_pos hin, row_eq_blankRow hd.width_eq]
        intro x hx hx'
        rw [hcell x hx hx', if_pos (by omega)]
      · rw [if_neg hin]
        by_cases hmoved : s.cursorY.toNat + (s.linesSpliced n).toNat ≤ i ∧
            i ≤ s.scrollBottom.toNat
        · rw [if_pos hmoved, if_pos (by omega), row_congr hd.width_eq]
          intro x hx hx'
          rw [hcell x hx hx', if_neg (by omega), if_pos (by omega)]
          congr 1
          omega
        · rw [if_neg hmoved, row_congr hd.width_eq]
          intro x hx hx'
          rw [hcell x hx hx', if_neg (by omega), if_neg (by omega)]
    · rw [if_neg hi, if_neg (by omega), if_neg (by omega), if_neg hi]
  · refine h.scrollbackRows_congr hwf hd.width_eq hd.count_eq fun i x hi hi' hx hx' => ?_
    rw [hcells i x hi (by omega) hx hx', if_neg (by omega), if_neg (by omega)]

/-- Rows that have moved up by `m` between `y` and `b`, with default lines below them. -/
theorem Draws.showsRows_delete (hd : Draws s s') (h : s.Wf) {y b m : Int} (hy : 0 ≤ y)
    (hyb : y ≤ b) (hm : 0 ≤ m) (hle : y + m ≤ b + 1) (hb : b < s.height)
    (hcells : ∀ j x, 0 ≤ j → j < s.totalHeight → 0 ≤ x → x ≤ s.width →
      s'.cellAt j x =
        if s.currentScrollbackLines + y ≤ j ∧ j + m ≤ s.currentScrollbackLines + b
        then s.cellAt (j + m) x
        else if s.currentScrollbackLines + y ≤ j ∧ j ≤ s.currentScrollbackLines + b
        then (s.blankLine t).cell x else s.cellAt j x) :
    s.ShowsRows s' (deleteRows (s.blankRow t) y.toNat b.toNat m.toNat s.visibleRows) := by
  have hc := h.count_range
  have hT : s.totalHeight = s.maxScrollbackLines + s.height := rfl
  have hlen := h.visibleRows_length
  have hwf := hd.wf h
  refine ⟨?_, ?_, hd.cursor_eq⟩
  · apply List.ext_getElem?
    intro i
    rw [hwf.visibleRows_getElem?, deleteRows_getElem? (by omega) (by omega),
      h.visibleRows_getElem?, h.visibleRows_getElem?, hd.height_eq, hd.count_eq]
    by_cases hi : (i : Int) < s.height
    · rw [if_pos hi, if_pos hi]
      have hcell := fun x => hcells (s.currentScrollbackLines.toNat + i : Nat) x (by omega) (by omega)
      by_cases hmoved : y.toNat ≤ i ∧ i + m.toNat ≤ b.toNat
      · rw [if_pos hmoved, if_pos (by omega), row_congr hd.width_eq]
        intro x hx hx'
        rw [hcell x hx hx', if_pos (by omega)]
        congr 1
        omega
      · rw [if_neg hmoved]
        by_cases hin : y.toNat ≤ i ∧ i ≤ b.toNat
        · rw [if_pos hin, row_eq_blankRow hd.width_eq]
          intro x hx hx'
          rw [hcell x hx hx', if_neg (by omega), if_pos (by omega)]
        · rw [if_neg hin, row_congr hd.width_eq]
          intro x hx hx'
          rw [hcell x hx hx', if_neg (by omega), if_neg (by omega)]
    · rw [if_neg hi, if_neg (by omega), if_neg (by omega), if_neg hi]
  · refine h.scrollbackRows_congr hwf hd.width_eq hd.count_eq fun i x hi hi' hx hx' => ?_
    rw [hcells i x hi (by omega) hx hx', if_neg (by omega), if_neg (by omega)]

theorem deleteLines_rows (h : s.Wf) (t : Terminal) (hn : s.LinesFit n)
    (hle : s.cursorY ≤ s.scrollBottom) :
    ∃ s', s.deleteLines t n = .ok s' ∧ s.ShowsRows s' (deleteRows (s.blankRow t) s.cursorY.toNat
      s.scrollBottom.toNat (s.linesSpliced n).toNat s.visibleRows) := by
  have hm := h.margins
  have hmin : s.linesSpliced n = min n (s.scrollBottom - s.cursorY + 1) := rfl
  obtain ⟨s', hok, hd, hcells⟩ := deleteLines_cells h t hn hle
  obtain ⟨hy, -, hpos, -⟩ := hn
  unfold OnScreen at hy
  exact ⟨s', hok, hd.showsRows_delete h hy.1 hle (by omega) (by omega) hm.2.2 hcells⟩

/-- Inserting and deleting lines is a splice of the visible rows, wherever the screen lies in
the ring. Both operations complete from any row above or at the bottom margin, exchange as
many rows as `n` and the rest of the region allow, and leave the rows outside, the
scrollback and the cursor as they were. -/
theorem lines_splice {F : Foundation} {c : VT100.Config} (hr : VT100.Reachable F c) (t : Terminal)
    (hy : 0 ≤ c.2.screen.cursorY) (hle : c.2.screen.cursorY ≤ c.2.screen.scrollBottom)
    (hn : 0 ≤ n) (hsum : n + c.2.screen.cursorY < 2 ^ 31) :
    let s := c.2.screen
    let y := s.cursorY.toNat
    let b := s.scrollBottom.toNat
    let m := min n.toNat (b - y + 1)
    (∃ s', s.insertLines t n = .ok s' ∧
        s.ShowsRows s' (insertRows (s.blankRow t) y b m s.visibleRows)) ∧
      (∃ s', s.deleteLines t n = .ok s' ∧
        s.ShowsRows s' (deleteRows (s.blankRow t) y b m s.visibleRows)) ∧
      ∀ cell ∈ s.blankRow t, cell.ch = 0 := by
  have h := (VT100.reachable_wf hr).screen
  have hH : c.2.screen.height < 2 ^ 31 := (VT100.reachable_intSize hr).2.2
  generalize c.2.screen = s at *
  have hm := h.margins
  have hfit : s.LinesFit n := ⟨⟨hy, by omega⟩, hH, hn, by omega⟩
  have hspliced : (s.linesSpliced n).toNat =
      min n.toNat (s.scrollBottom.toNat - s.cursorY.toNat + 1) := by
    rw [linesSpliced]
    omega
  have hinsert := insertLines_rows h t hfit hle
  have hdelete := deleteLines_rows h t hfit hle
  rw [hspliced] at hinsert hdelete
  exact ⟨hinsert, hdelete, h.blankRow_nul t⟩

/-- Two lines inserted and deleted in the second of two rows of text on a new object. -/
theorem text_lines_splice : ∃ v v', VT100.init ⟨0, 0, 0⟩ = .ok v ∧
    v.readInputStream Foundation.latin1 VT100.textBytes = .ok v' ∧
    (∃ s', v'.screen.insertLines v'.terminal 2 = .ok s' ∧ v'.screen.ShowsRows s'
      (insertRows (v'.screen.blankRow v'.terminal) 1 24 2 v'.screen.visibleRows)) ∧
    ∃ s', v'.screen.deleteLines v'.terminal 2 = .ok s' ∧ v'.screen.ShowsRows s'
      (deleteRows (v'.screen.blankRow v'.terminal) 1 24 2 v'.screen.visibleRows) := by
  obtain ⟨v, v', first, row, hv, hok, -, -, hs, -⟩ :=
    VT100.init_text Foundation.latin1_asciiExact ⟨0, 0, 0⟩
  have hy : v'.screen.cursorY = 1 := hs.cursorY_eq
  have hb : v'.screen.scrollBottom = 24 := by
    rw [hs.margins.2, hs.height_eq]
    rfl
  have hsplice := lines_splice (n := 2) ((VT100.init_reachable hv).readInputStream hok)
    v'.terminal (by rw [hy]; decide) (by rw [hy, hb]; decide) (by decide) (by rw [hy]; decide)
  simp only [hy, hb] at hsplice
  exact ⟨v, v', hv, hok, hsplice.1, hsplice.2.1⟩

/-! ## Below the bottom margin -/

/-- The screen is as before, up to dirty flags and the kept default line. -/
def Harmless (s s' : Screen) : Prop := s.ShowsRows s' s.visibleRows

theorem dirtyFill_negative {v : Bool} {k d : Int} (hd : d < 0) (s : Screen) :
    s.dirtyFill v k d = .error .badLength := by
  have hfill : s.dirty.fill v k d = .error .badLength := if_pos hd
  rw [dirtyFill, hfill]
  rfl

/-- Both operations come down to marking rows as dirty. -/
theorem lines_below (t : Terminal) (hn : s.LinesFit n)
    (hlt : s.scrollBottom < s.cursorY) :
    s.insertLines t n = (s.getDefaultLineWithWidth t s.width).1.dirtyFill true
        (s.cursorY * s.width) ((s.scrollBottom - s.cursorY + 1) * s.width) ∧
      s.deleteLines t n = (s.getDefaultLineWithWidth t s.width).1.dirtyFill true
        (s.cursorY * s.width) ((s.scrollBottom - s.cursorY + 1) * s.width) := by
  have hline := getDefaultLine_draws t.foregroundColorCode t.backgroundColorCode s.width s
  have hsum := hn.cint_sum
  have hpos := hn.2.2.1
  have hdown : s.moveRowsDown n = .ok s := by
    rw [moveRowsDown, hsum, if_neg (by omega)]
  have hup : s.moveRowsUp n = .ok s := by
    rw [moveRowsUp, hsum, if_neg (by omega)]
  have hclamp : (s.clampLines n).toNat = 0 := by
    rw [clampLines, hsum, if_pos (by omega)]
    omega
  have hnone : ∀ line y, clearRows line y 0 (s.getDefaultLineWithWidth t s.width).1 =
      .ok (s.getDefaultLineWithWidth t s.width).1 := fun _ _ => rfl
  have hcursor := hline.cursor_eq.2
  have hmargin := hline.margins_eq.2
  have hwidth := hline.width_eq
  constructor
  · simp only [insertLines, hdown, ok_bind, hclamp, hnone]
    rw [getDefaultLineWithWidth, hcursor, hmargin, hwidth]
  · simp only [deleteLines, hup, ok_bind, hclamp, hnone]
    rw [getDefaultLineWithWidth, hcursor, hmargin, hwidth]

/-- Below the bottom margin, marking rows as dirty completes exactly when there is
no row in between: the length is negative else. -/
theorem dirtyBelow_iff (h : s.Wf) (t : Terminal) (hlt : s.scrollBottom < s.cursorY) :
    (∃ s', (s.getDefaultLineWithWidth t s.width).1.dirtyFill true (s.cursorY * s.width)
        ((s.scrollBottom - s.cursorY + 1) * s.width) = .ok s' ∧ Harmless s s') ↔
      s.cursorY = s.scrollBottom + 1 := by
  have hw := h.width_pos
  have hline := getDefaultLine_draws t.foregroundColorCode t.backgroundColorCode s.width s
  have hbuf : (s.getDefaultLineWithWidth t s.width).1.bufferLines = s.bufferLines :=
    getDefaultLine_bufferLines _ _ _ s
  constructor
  · rintro ⟨s', hok, -⟩
    by_contra hne
    have hneg : (s.scrollBottom - s.cursorY + 1) * s.width < 0 :=
      Int.mul_neg_of_neg_of_pos (by omega) (by omega)
    rw [dirtyFill_negative hneg] at hok
    cases hok
  · intro heq
    have hzero : 0 ≤ (s.scrollBottom - s.cursorY + 1) * s.width := by
      rw [heq, show s.scrollBottom - (s.scrollBottom + 1) + 1 = 0 by omega, Int.zero_mul]
    obtain ⟨s', hok, hd, hb⟩ := dirtyFill_spec true (s.cursorY * s.width) hzero
      (s.getDefaultLineWithWidth t s.width).1
    have hds := hline.trans hd
    have hcell := hds.cellAt_of_eq h (hb.trans hbuf)
    refine ⟨s', hok, ?_, ?_, hds.cursor_eq⟩
    · refine h.visibleRows_congr (hds.wf h) hds.width_eq hds.height_eq fun y x hy hy' hx hx' => ?_
      rw [(hds.wf h).visibleCell_eq hy (by rw [hds.height_eq]; exact hy'),
        h.visibleCell_eq hy hy', hds.count_eq, hcell]
    · exact h.scrollbackRows_congr (hds.wf h) hds.width_eq hds.count_eq
        fun i x _ _ _ _ => hcell i x

/-- Inserting and deleting lines below the bottom margin is harmless exactly in the row right
below it. There the length that is marked as dirty is zero; in every row further down it
is negative, whatever the parameter is. -/
theorem lines_below_iff {F : Foundation} {c : VT100.Config} (hr : VT100.Reachable F c)
    (t : Terminal) (hlt : c.2.screen.scrollBottom < c.2.screen.cursorY)
    (hlt' : c.2.screen.cursorY < c.2.screen.height) (hn : 0 ≤ n)
    (hsmall : n < 2 ^ 31 - c.2.screen.height) :
    ((∃ s', c.2.screen.insertLines t n = .ok s' ∧ Harmless c.2.screen s') ↔
      c.2.screen.cursorY = c.2.screen.scrollBottom + 1) ∧
    ((∃ s', c.2.screen.deleteLines t n = .ok s' ∧ Harmless c.2.screen s') ↔
      c.2.screen.cursorY = c.2.screen.scrollBottom + 1) := by
  have h := (VT100.reachable_wf hr).screen
  have hH : c.2.screen.height < 2 ^ 31 := (VT100.reachable_intSize hr).2.2
  have hm := h.margins
  have hfit : c.2.screen.LinesFit n := ⟨⟨by omega, hlt'⟩, hH, hn, by omega⟩
  obtain ⟨hinsert, hdelete⟩ := lines_below t hfit hlt
  rw [hinsert, hdelete]
  exact ⟨dirtyBelow_iff h t hlt, dirtyBelow_iff h t hlt⟩

/-- Margins in the rows 1 and 2 of a new screen and the cursor in row 24: a
negative length is passed to `memset`. -/
theorem lastRow_lines_badLength : ∃ v v₁ v₂, VT100.init ⟨0, 0, 0⟩ = .ok v ∧
    v.readInputStream Foundation.latin1 VT100.setMarginsBytes = .ok v₁ ∧
    v₁.readInputStream Foundation.latin1 VT100.lastRowBytes = .ok v₂ ∧
    v₂.screen.scrollBottom < v₂.screen.cursorY ∧ v₂.screen.cursorY < v₂.screen.height ∧
    v₂.screen.insertLines v₂.terminal 1 = .error .badLength ∧
    v₂.screen.deleteLines v₂.terminal 1 = .error .badLength := by
  obtain ⟨v, v₁, v₂, hv, h₁, h₂, -, hheight, -, -, hbottom, hy⟩ :=
    VT100.init_margins_lastRow (F := Foundation.latin1) ⟨0, 0, 0⟩
  have hwf := (VT100.reachable_wf
    (((VT100.init_reachable hv).readInputStream h₁).readInputStream h₂)).screen
  have hw : 1 ≤ v₂.screen.width := hwf.width_pos
  have hfit : v₂.screen.LinesFit 1 := by
    unfold LinesFit OnScreen
    omega
  have hneg : (v₂.screen.scrollBottom - v₂.screen.cursorY + 1) * v₂.screen.width < 0 :=
    Int.mul_neg_of_neg_of_pos (by omega) (by omega)
  obtain ⟨hinsert, hdelete⟩ := lines_below v₂.terminal hfit (by omega)
  refine ⟨v, v₁, v₂, hv, h₁, h₂, by omega, by omega, ?_, ?_⟩
  · rw [hinsert, dirtyFill_negative hneg]
  · rw [hdelete, dirtyFill_negative hneg]

/-- The same screen: the cursor is not in the row right below the margin. -/
theorem lastRow_lines_not_harmless : ∃ v v₁ v₂, VT100.init ⟨0, 0, 0⟩ = .ok v ∧
    v.readInputStream Foundation.latin1 VT100.setMarginsBytes = .ok v₁ ∧
    v₁.readInputStream Foundation.latin1 VT100.lastRowBytes = .ok v₂ ∧
    (¬∃ s', v₂.screen.insertLines v₂.terminal 1 = .ok s' ∧ Harmless v₂.screen s') ∧
    ¬∃ s', v₂.screen.deleteLines v₂.terminal 1 = .ok s' ∧ Harmless v₂.screen s' := by
  obtain ⟨v, v₁, v₂, hv, h₁, h₂, -, hheight, -, -, hbottom, hy⟩ :=
    VT100.init_margins_lastRow (F := Foundation.latin1) ⟨0, 0, 0⟩
  have hr := ((VT100.init_reachable hv).readInputStream h₁).readInputStream h₂
  have hiff := lines_below_iff (n := 1) hr v₂.terminal (by simp only; omega)
    (by simp only; omega) (by decide) (by simp only; omega)
  refine ⟨v, v₁, v₂, hv, h₁, h₂, fun h => ?_, fun h => ?_⟩
  · have := hiff.1.mp h
    simp only at this
    omega
  · have := hiff.2.mp h
    simp only at this
    omega

end Screen

end MobileTerminal
