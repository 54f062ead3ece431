import MobileTerminal.ReflowRows

/-!
# The text a reflow copies

The copy loops read rows through `getLineAtIndex:` and follow their wrap marks.
`Source` is what they find there. One round of the outer loop reads one logical
line of the old rows and lays its text out in new rows
(`copyLogicalLine_rewraps`); all rounds together do so for every logical line
that starts before the row at which the loop ends (`copyRows_rewraps`). At the
same width rows are copied one by one (`copyRows_same`).

The two branches find the end of a text in different ways: one counts NULs up to
and with the mark, the other up to the mark only. `TextEnds` is the common
meaning, and `Line.wider_ends` and `Line.narrower_ends` say that each loop
decides it. After that the two column loops have the same specification, and so
have the loops along the marks.

The inductions follow the loops. A loop over columns is by the columns still to
go, with the text written so far; a loop along the marks is by the rows of the
logical line (`firstLine`), which is finite because the last row read is not
marked; the outer loop is by the rows that are left below its bound.
-/

namespace MobileTerminal

open Wrap

namespace Screen

variable {s : Screen} {W w : Nat} {T : Int} {rows out : List (List ScreenChar)}
  {row text : List ScreenChar} {r : Reflow} {a x2 : Int}

/-! ## Reading -/

theorem countNul_eq {b : Block ScreenChar} {n : Nat} (h0 : 0 ≤ a) (h1 : a + n ≤ b.size) :
    countNul b a n = .ok ((b.slice a n).takeWhile ScreenChar.isNul).length := by
  induction n generalizing a with
  | zero => rfl
  | succ n ih =>
      rw [countNul, Block.load_of_lt h0 (by omega), ok_bind, Block.slice, List.takeWhile_cons]
      by_cases hc : (b.cell a).ch = 0
      · rw [if_pos hc, ih (by omega) (by omega), if_pos (by simp [ScreenChar.isNul, hc])]
        rfl
      · rw [if_neg hc, if_neg (by simp [ScreenChar.isNul, hc])]
        rfl

/-- The line at address `a` of the buffer holds `row`. -/
structure Line (s : Screen) (W : Nat) (a : Int) (row : List ScreenChar) : Prop where
  width_eq : s.width = W
  nonneg : 0 ≤ a
  le_size : a + (W + 1) ≤ s.bufferLines.size
  eq : s.bufferLines.slice a (W + 1) = row

/-- Row number `i` of the rows that are copied is `rows[i]`. -/
def Source (s : Screen) (W : Nat) (rows : List (List ScreenChar)) : Prop :=
  ∀ i (h : i < rows.length), ∃ a, s.getLineAtIndex i = .ok a ∧ Line s W a rows[i]

theorem Line.dropLast_eq (h : Line s W a row) : row.dropLast = s.bufferLines.slice a W := by
  rw [← h.eq, Block.slice_add, Block.slice, Block.slice, List.dropLast_concat]

theorem Line.marked_eq (h : Line s W a row) :
    marked ScreenChar.isNul row = !(s.bufferLines.cell (a + W)).isNul := by
  rw [← h.eq, Block.slice_add, marked, Block.slice, Block.slice, List.getLast?_concat]
  rfl

theorem Line.load (h : Line s W a row) {x : Int} (h0 : 0 ≤ x) (h1 : x ≤ W) :
    (s.bufferLines.load (a + x) : Res ScreenChar) = .ok (s.bufferLines.cell (a + x)) := by
  have := h.nonneg
  have := h.le_size
  exact Block.load_of_lt (by omega) (by omega)

theorem takeWhile_length_lt {l : List ScreenChar} :
    (l.takeWhile ScreenChar.isNul).length < l.length ↔ l.all ScreenChar.isNul = false := by
  induction l with
  | nil => simp
  | cons c l ih =>
      rw [List.takeWhile_cons]
      cases hc : c.isNul with
      | true => simpa [hc] using ih
      | false => simp [hc]

/-! ## Copying the cells of one row -/

/-- From column `x1` on, with `k` columns to go, a row holds no more text. -/
def TextEnds (s : Screen) (a : Int) (row : List ScreenChar) (x1 : Int) (k : Nat) : Prop :=
  marked ScreenChar.isNul row = false ∧
    (s.bufferLines.slice (a + x1) k).all ScreenChar.isNul = true

instance (s : Screen) (a : Int) (row : List ScreenChar) (x1 : Int) (k : Nat) :
    Decidable (TextEnds s a row x1 k) :=
  inferInstanceAs (Decidable (_ ∧ _))

/-- What a row adds to the text from column `x1` on. -/
def textFrom (s : Screen) (a : Int) (row : List ScreenChar) (x1 : Int) (k : Nat) :
    List ScreenChar :=
  keepText ScreenChar.isNul (marked ScreenChar.isNul row) (s.bufferLines.slice (a + x1) k)

theorem textFrom_of_ends {x1 : Int} {k : Nat} (h : TextEnds s a row x1 k) :
    s.textFrom a row x1 k = [] := by
  rw [textFrom, h.1]
  exact List.rdropWhile_eq_nil_iff.mpr (by simpa using h.2)

theorem textFrom_succ {x1 : Int} {k : Nat} (h : ¬TextEnds s a row x1 (k + 1)) :
    s.textFrom a row x1 (k + 1) =
      s.bufferLines.cell (a + x1) :: s.textFrom a row (x1 + 1) k := by
  rw [TextEnds, Block.slice] at h
  rw [textFrom, Block.slice, keepText_cons, if_neg h, textFrom, ← Int.add_assoc]

/-- The widening branch counts NULs up to and with the mark. -/
theorem Line.wider_ends (h : Line s W a row) {k : Nat} {x1 : Int} (h0 : 0 ≤ x1)
    (hk : x1 + k = W) :
    ∃ n : Nat, countNul s.bufferLines (a + x1) (s.width + 1 - x1).toNat = .ok n ∧
      (x1 + n > s.width ↔ TextEnds s a row x1 k) := by
  have hn0 := h.nonneg
  have hle := h.le_size
  have hlt := takeWhile_length_lt (l := s.bufferLines.slice (a + x1) (k + 1))
  have hall : (s.bufferLines.slice (a + x1) (k + 1)).all ScreenChar.isNul =
      ((s.bufferLines.slice (a + x1) k).all ScreenChar.isNul &&
        !marked ScreenChar.isNul row) := by
    rw [Block.slice_add, List.all_append, h.marked_eq, show a + x1 + (k : Int) = a + W by omega]
    simp [Block.slice]
  rw [hall, Block.slice_length] at hlt
  rw [h.width_eq, show ((W : Int) + 1 - x1).toNat = k + 1 by omega]
  refine ⟨_, countNul_eq (by omega) (by omega), ?_⟩
  have hends : ¬((s.bufferLines.slice (a + x1) k).all ScreenChar.isNul &&
      !marked ScreenChar.isNul row) = false ↔ TextEnds s a row x1 k := by
    simp [TextEnds, and_comm]
  rw [← hends, ← hlt]
  omega

/-- The narrowing branch counts NULs up to the mark. -/
theorem Line.narrower_ends (h : Line s W a row) {k : Nat} {x1 : Int} (h0 : 0 ≤ x1)
    (hk : x1 + k = W) :
    ∃ n : Nat, countNul s.bufferLines (a + x1) (s.width - x1).toNat = .ok n ∧
      (x1 + n ≥ s.width ↔ (s.bufferLines.slice (a + x1) k).all ScreenChar.isNul = true) := by
  have hn0 := h.nonneg
  have hle := h.le_size
  have hlt := takeWhile_length_lt (l := s.bufferLines.slice (a + x1) k)
  rw [Block.slice_length] at hlt
  rw [h.width_eq, show ((W : Int) - x1).toNat = k by omega]
  refine ⟨_, countNul_eq (by omega) (by omega), ?_⟩
  rw [← Bool.not_eq_false, ← hlt]
  omega

theorem copyWider_spec (h : Line s W a row) (hw : 0 < w) (x1 : Int) {k : Nat} (h0 : 0 ≤ x1)
    (hk : x1 + k = W) (hwr : Reflow.Writing T w out text x2 r) :
    ∃ r' x2', copyWider s T w a k x1 r x2 = .ok (r', x2') ∧
      Reflow.Writing T w out (text ++ s.textFrom a row x1 k) x2' r' := by
  induction k generalizing x1 text x2 r with
  | zero =>
      refine ⟨r, x2, rfl, ?_⟩
      simpa [Block.slice, keepText, textFrom] using hwr
  | succ k ih =>
      obtain ⟨n, hn, hends⟩ := h.wider_ends h0 hk
      rw [copyWider, hn, ok_bind]
      by_cases hend : TextEnds s a row x1 (k + 1)
      · rw [if_pos (hends.mpr hend), textFrom_of_ends hend, List.append_nil]
        exact ⟨r, x2, rfl, hwr⟩
      · obtain ⟨r₁, x₁, h₁, hwr₁⟩ := hwr.placeCell hw (s.bufferLines.cell (a + x1))
        obtain ⟨r₂, x₂, h₂, hwr₂⟩ := ih (x1 + 1) (by omega) (by omega) hwr₁
        rw [if_neg (fun hc => hend (hends.mp hc)), h.load h0 (by omega), ok_bind, h₁,
          textFrom_succ hend]
        refine ⟨r₂, x₂, h₂, ?_⟩
        rwa [List.append_assoc] at hwr₂

theorem copyNarrower_spec (h : Line s W a row) (hw : 0 < w) (x1 : Int) {k : Nat} (h0 : 0 ≤ x1)
    (hk : x1 + k = W) (hwr : Reflow.Writing T w out text x2 r) :
    ∃ r' x2', copyNarrower s T w a k x1 r x2 = .ok (r', x2') ∧
      Reflow.Writing T w out (text ++ s.textFrom a row x1 k) x2' r' := by
  induction k generalizing x1 text x2 r with
  | zero =>
      refine ⟨r, x2, rfl, ?_⟩
      simpa [Block.slice, keepText, textFrom] using hwr
  | succ k ih =>
      obtain ⟨n, hn, hall⟩ := h.narrower_ends h0 hk
      have hmark : (s.bufferLines.cell (a + s.width)).ch = 0 ↔
          marked ScreenChar.isNul row = false := by
        rw [h.marked_eq, h.width_eq]
        simp [ScreenChar.isNul]
      have hload := h.load (x := s.width) (by rw [h.width_eq]; omega) (by rw [h.width_eq])
      -- the test reads the mark only when the columns are used up
      have hends : (if x1 + (n : Int) ≥ s.width then do
            let mark ← s.bufferLines.load (a + s.width)
            .ok (decide (mark.ch = 0))
          else .ok false : Res Bool) = .ok (decide (TextEnds s a row x1 (k + 1))) := by
        by_cases hc : x1 + (n : Int) ≥ s.width
        · rw [if_pos hc, hload, ok_bind]
          simp only [TextEnds, hmark, hall.mp hc, and_true]
        · rw [if_neg hc, decide_eq_false (fun h' => hc (hall.mpr h'.2))]
      rw [copyNarrower, hn, ok_bind, hends, ok_bind]
      by_cases hend : TextEnds s a row x1 (k + 1)
      · rw [if_pos (by simpa using hend), textFrom_of_ends hend, List.append_nil]
        exact ⟨r, x2, rfl, hwr⟩
      · obtain ⟨r₁, x₁, h₁, hwr₁⟩ := hwr.placeCell hw (s.bufferLines.cell (a + x1))
        obtain ⟨r₂, x₂, h₂, hwr₂⟩ := ih (x1 + 1) (by omega) (by omega) hwr₁
        rw [if_neg (by simpa using hend), h.load h0 (by omega), ok_bind, h₁, textFrom_succ hend]
        refine ⟨r₂, x₂, h₂, ?_⟩
        rwa [List.append_assoc] at hwr₂

/-! ## Following the wrap marks

A logical line is a row and the rows its marks lead to. The inner loops go from
row to row as long as there is a mark, and what they have copied so far is a
prefix of the text of the line. -/

theorem Line.textFrom_zero (h : Line s W a row) :
    s.textFrom a row 0 W = rowText ScreenChar.isNul row := by
  rw [textFrom, Int.add_zero, rowText, h.dropLast_eq]

theorem Line.load_mark (h : Line s W a row) :
    ∃ c, (s.bufferLines.load (a + s.width) : Res ScreenChar) = .ok c ∧
      (c.ch ≠ 0 ↔ marked ScreenChar.isNul row = true) := by
  refine ⟨_, h.load (x := s.width) (by rw [h.width_eq]; omega) (by rw [h.width_eq]), ?_⟩
  rw [h.marked_eq, h.width_eq]
  simp [ScreenChar.isNul]

theorem Source.head {rest : List (List ScreenChar)} {y1 : Nat} (hsrc : Source s W rows)
    (hdrop : rows.drop y1 = row :: rest) :
    ∃ a, s.getLineAtIndex y1 = .ok a ∧ Line s W a row := by
  have hlt : y1 < rows.length := by
    by_contra hc
    rw [List.drop_eq_nil_of_le (by omega)] at hdrop
    cases hdrop
  rw [List.drop_eq_getElem_cons hlt] at hdrop
  obtain ⟨a, ha, hline⟩ := hsrc y1 hlt
  exact ⟨a, ha, (List.cons.inj hdrop).1 ▸ hline⟩

theorem Source.tail {row' : List ScreenChar} {rest : List (List ScreenChar)} {y1 : Nat}
    (hsrc : Source s W rows) (hdrop : rows.drop y1 = row :: row' :: rest) :
    rows.drop (y1 + 1) = row' :: rest ∧
      ∃ a, s.getLineAtIndex ((y1 : Int) + 1) = .ok a ∧ Line s W a row' := by
  have htail : rows.drop (y1 + 1) = row' :: rest := by
    rw [← List.drop_drop, hdrop]
    rfl
  obtain ⟨a, ha, hline⟩ := hsrc.head htail
  exact ⟨htail, a, by exact_mod_cast ha, hline⟩

/-- `while (c1[WIDTH].ch)` copies the rows of the logical line after the first. -/
theorem widerRows_spec (hsrc : Source s W rows) (hw : 0 < w)
    {rest : List (List ScreenChar)} {y1 : Nat} (fuel : Nat)
    (hdrop : rows.drop y1 = row :: rest) (hclosed : Closed ScreenChar.isNul (row :: rest))
    (hline : Line s W a row) (hfuel : rest.length < fuel)
    (hwr : Reflow.Writing T w out text x2 r) :
    ∃ r' x2', widerRows s T w fuel y1 a r x2 =
        .ok (r', y1 + (firstLine ScreenChar.isNul (row :: rest)).tail.length, x2') ∧
      Reflow.Writing T w out (text ++ lineText ScreenChar.isNul
        (firstLine ScreenChar.isNul (row :: rest)).tail) x2' r' := by
  obtain ⟨c, hc, hmark⟩ := hline.load_mark
  induction rest generalizing row y1 a fuel text x2 r c with
  | nil =>
      obtain ⟨fuel, rfl⟩ : ∃ n, fuel = n + 1 := ⟨fuel - 1, by omega⟩
      have hm := hclosed.unmarked
      rw [widerRows, hc, ok_bind, if_neg (by simp [hmark, hm]), firstLine_of_unmarked hm]
      exact ⟨r, x2, by simp, by simpa [lineText] using hwr⟩
  | cons row' rest ih =>
      obtain ⟨fuel, rfl⟩ : ∃ n, fuel = n + 1 := ⟨fuel - 1, by omega⟩
      rw [widerRows, hc, ok_bind]
      cases hm : marked ScreenChar.isNul row with
      | false =>
          rw [if_neg (by simp [hmark, hm]), firstLine_of_unmarked hm]
          exact ⟨r, x2, by simp, by simpa [lineText] using hwr⟩
      | true =>
          obtain ⟨htail, a', ha', hline'⟩ := hsrc.tail hdrop
          obtain ⟨c', hc', hmark'⟩ := hline'.load_mark
          obtain ⟨r₁, x₁, h₁, hwr₁⟩ := copyWider_spec hline' hw 0 (k := W) (Int.le_refl 0)
            (by omega) hwr
          obtain ⟨r₂, x₂, h₂, hwr₂⟩ := ih fuel htail (hclosed.drop 1) hline'
            (by simp only [List.length_cons] at hfuel; omega) hwr₁ c' hc' hmark'
          have hwidth : s.width.toNat = W := by
            rw [hline.width_eq]
            rfl
          rw [if_pos (hmark.mpr hm), ha', ok_bind, hwidth, h₁, firstLine_of_marked hm]
          rw [List.tail_cons, firstLine_cons]
          refine ⟨r₂, x₂, ?_, ?_⟩
          · rw [ok_bind, List.length_cons, Nat.add_comm, Int.natCast_add, ← Int.add_assoc]
            exact h₂
          · rwa [hline'.textFrom_zero, List.append_assoc] at hwr₂

/-- `do .. while (1)` copies the logical line from column `x1` of its first row on. -/
theorem narrowerRows_spec (hsrc : Source s W rows) (hw : 0 < w)
    {rest : List (List ScreenChar)} {y1 k : Nat} (fuel : Nat) (x1 : Int)
    (hdrop : rows.drop y1 = row :: rest) (hclosed : Closed ScreenChar.isNul (row :: rest))
    (hline : Line s W a row) (hfuel : rest.length < fuel) (h0 : 0 ≤ x1) (hk : x1 + k = W)
    (hwr : Reflow.Writing T w out text x2 r) :
    ∃ r' x2', narrowerRows s T w fuel y1 a x1 r x2 =
        .ok (r', y1 + (firstLine ScreenChar.isNul (row :: rest)).tail.length, x2') ∧
      Reflow.Writing T w out (text ++ s.textFrom a row x1 k ++ lineText ScreenChar.isNul
        (firstLine ScreenChar.isNul (row :: rest)).tail) x2' r' := by
  induction rest generalizing row y1 a fuel text x1 x2 r k with
  | nil =>
      obtain ⟨fuel, rfl⟩ : ∃ n, fuel = n + 1 := ⟨fuel - 1, by omega⟩
      obtain ⟨c, hc, hmark⟩ := hline.load_mark
      obtain ⟨r₁, x₁, h₁, hwr₁⟩ := copyNarrower_spec hline hw x1 h0 hk hwr
      have hm := hclosed.unmarked
      have hcols : (s.width - x1).toNat = k := by rw [hline.width_eq]; omega
      simp only [narrowerRows, hcols, h₁, hc, ok_bind]
      rw [if_neg (by simp [hmark, hm]), firstLine_of_unmarked hm]
      exact ⟨r₁, x₁, by simp, by simpa [lineText] using hwr₁⟩
  | cons row' rest ih =>
      obtain ⟨fuel, rfl⟩ : ∃ n, fuel = n + 1 := ⟨fuel - 1, by omega⟩
      obtain ⟨c, hc, hmark⟩ := hline.load_mark
      obtain ⟨r₁, x₁, h₁, hwr₁⟩ := copyNarrower_spec hline hw x1 h0 hk hwr
      have hcols : (s.width - x1).toNat = k := by rw [hline.width_eq]; omega
      simp only [narrowerRows, hcols, h₁, hc, ok_bind]
      cases hm : marked ScreenChar.isNul row with
      | false =>
          rw [if_neg (by simp [hmark, hm]), firstLine_of_unmarked hm]
          exact ⟨r₁, x₁, by simp, by simpa [lineText] using hwr₁⟩
      | true =>
          obtain ⟨htail, a', ha', hline'⟩ := hsrc.tail hdrop
          obtain ⟨r₂, x₂, h₂, hwr₂⟩ := ih fuel 0 (k := W) htail (hclosed.drop 1) hline'
            (by simp only [List.length_cons] at hfuel; omega) (Int.le_refl 0) (by omega) hwr₁
          rw [if_pos (hmark.mpr hm), ha', ok_bind, firstLine_of_marked hm, List.tail_cons,
            firstLine_cons]
          refine ⟨r₂, x₂, ?_, ?_⟩
          · rw [List.length_cons, Nat.add_comm, Int.natCast_add, ← Int.add_assoc]
            exact h₂
          · rwa [hline'.textFrom_zero, List.append_assoc _ (rowText _ _)] at hwr₂

/-! ## One logical line -/

section

variable {defaultLine : Block ScreenChar} {rest : List (List ScreenChar)} {y1 fuel : Nat}

theorem copyLineWider_spec (hsrc : Source s W rows) (hW : 0 < W) (hlt : W < w)
    (hsize : (w : Int) + 1 ≤ defaultLine.size) (hnul : ∀ i, (defaultLine.cell i).ch = 0)
    (hdrop : rows.drop y1 = row :: rest) (hclosed : Closed ScreenChar.isNul (row :: rest))
    (hline : Line s W a row) (hfuel : rest.length < fuel) (hrep : r.Rep T w out) :
    ∃ r' new, copyLineWider s T w defaultLine fuel y1 a r =
        .ok (r', y1 + (firstLine ScreenChar.isNul (row :: rest)).tail.length) ∧
      Rewraps ScreenChar.isNul w
        (lineText ScreenChar.isNul (firstLine ScreenChar.isNul (row :: rest))) new ∧
      (r'.nextRow T w).Filled T w (out ++ new) := by
  have hle := hline.le_size
  obtain ⟨r₁, r₂, h₁, h₂, hwr₂⟩ := Reflow.Writing.start hrep s.bufferLines hW
    (Nat.le_of_lt hlt) hline.nonneg (by omega)
  obtain ⟨r₃, x₃, h₃, hwr₃⟩ := widerRows_spec hsrc (by omega) fuel hdrop hclosed hline hfuel hwr₂
  obtain ⟨r₄, new, h₄, hnew, hfilled⟩ := hwr₃.finish hsize hnul
  refine ⟨r₄, new, ?_, ?_, hfilled⟩
  · simp only [copyLineWider, hline.width_eq, h₁, h₂, h₃, h₄, ok_bind]
  · rw [← hline.dropLast_eq] at hnew
    have hlen : row.dropLast.length = W := by rw [hline.dropLast_eq, Block.slice_length]
    refine .of_head (n := W) (Nat.le_of_lt hlt) ?_
    rw [List.take_of_length_le (Nat.le_of_eq hlen), List.drop_eq_nil_of_le (Nat.le_of_eq hlen)]
    simpa [keepText] using hnew

theorem copyLineNarrower_spec (hsrc : Source s W rows) (hw : 0 < w) (hlt : w < W)
    (hsize : (w : Int) + 1 ≤ defaultLine.size) (hnul : ∀ i, (defaultLine.cell i).ch = 0)
    (hdrop : rows.drop y1 = row :: rest) (hclosed : Closed ScreenChar.isNul (row :: rest))
    (hline : Line s W a row) (hfuel : rest.length < fuel) (hrep : r.Rep T w out) :
    ∃ r' new, copyLineNarrower s T w defaultLine fuel y1 a r =
        .ok (r', y1 + (firstLine ScreenChar.isNul (row :: rest)).tail.length) ∧
      Rewraps ScreenChar.isNul w
        (lineText ScreenChar.isNul (firstLine ScreenChar.isNul (row :: rest))) new ∧
      (r'.nextRow T w).Filled T w (out ++ new) := by
  have hle := hline.le_size
  obtain ⟨r₁, r₂, h₁, h₂, hwr₂⟩ := Reflow.Writing.start hrep s.bufferLines hw
    (Nat.le_refl w) hline.nonneg (by omega)
  obtain ⟨r₃, x₃, h₃, hwr₃⟩ := narrowerRows_spec hsrc hw fuel w hdrop hclosed hline
    hfuel (k := W - w) (by omega) (by omega) hwr₂
  obtain ⟨r₄, new, h₄, hnew, hfilled⟩ := hwr₃.finish hsize hnul
  refine ⟨r₄, new, ?_, ?_, hfilled⟩
  · simp only [copyLineNarrower, h₁, h₂, h₃, h₄, ok_bind]
  · have hcells : row.dropLast = s.bufferLines.slice a w ++ s.bufferLines.slice (a + w) (W - w) := by
      rw [hline.dropLast_eq, ← Block.slice_add, Nat.add_sub_cancel' (Nat.le_of_lt hlt)]
    refine .of_head (n := w) (Nat.le_refl w) ?_
    rw [hcells, List.take_left' (by simp), List.drop_left' (by simp)]
    exact hnew

/-- One round of the outer loop at another width: the logical line that starts at
row `y1` is laid out again. -/
theorem copyLogicalLine_rewraps (hsrc : Source s W rows) (hW : 0 < W) (hw : 0 < w)
    (hne : W ≠ w) (hsize : (w : Int) + 1 ≤ defaultLine.size)
    (hnul : ∀ i, (defaultLine.cell i).ch = 0) (hdrop : rows.drop y1 = row :: rest)
    (hclosed : Closed ScreenChar.isNul (row :: rest)) (hfuel : rest.length < fuel)
    (hrep : r.Rep T w out) :
    ∃ r' new, copyLogicalLine s T w defaultLine fuel y1 r =
        .ok (r', y1 + (firstLine ScreenChar.isNul (row :: rest)).tail.length) ∧
      Rewraps ScreenChar.isNul w
        (lineText ScreenChar.isNul (firstLine ScreenChar.isNul (row :: rest))) new ∧
      r'.Filled T w (out ++ new) := by
  obtain ⟨a, ha, hline⟩ := hsrc.head hdrop
  have hwidth : ¬s.width = (w : Int) := by rw [hline.width_eq]; omega
  by_cases hlt : W < w
  · obtain ⟨r', new, hok, hnew, hfilled⟩ :=
      copyLineWider_spec hsrc hW hlt hsize hnul hdrop hclosed hline hfuel hrep
    refine ⟨_, new, ?_, hnew, hfilled⟩
    simp only [copyLogicalLine, ha, ok_bind, if_neg hwidth,
      if_pos (show s.width < (w : Int) by rw [hline.width_eq]; omega), hok]
  · obtain ⟨r', new, hok, hnew, hfilled⟩ :=
      copyLineNarrower_spec hsrc hw (by omega) hsize hnul hdrop hclosed hline hfuel hrep
    refine ⟨_, new, ?_, hnew, hfilled⟩
    simp only [copyLogicalLine, ha, ok_bind, if_neg hwidth,
      if_neg (show ¬s.width < (w : Int) by rw [hline.width_eq]; omega), hok]

/-- One round of the outer loop at the same width: row `y1` is copied. -/
theorem copyLogicalLine_same (defaultLine : Block ScreenChar) (fuel : Nat) (hsrc : Source s w rows)
    (hdrop : rows.drop y1 = row :: rest) (hrep : r.Rep T w out) :
    ∃ r', copyLogicalLine s T w defaultLine fuel y1 r = .ok (r', y1) ∧
      r'.Filled T w (out ++ [row]) := by
  obtain ⟨a, ha, hline⟩ := hsrc.head hdrop
  have hle := hline.le_size
  obtain ⟨r₁, h₁, hrep₁, htake⟩ := Reflow.copyFrom_spec hrep s.bufferLines (m := w + 1)
    (by omega) (Nat.le_refl _) hline.nonneg (by omega)
  have hrow : r₁.line w = row := by
    rw [List.take_of_length_le (by simp)] at htake
    rw [htake, hline.eq]
  refine ⟨_, ?_, hrow ▸ hrep₁.nextRow⟩
  simp only [copyLogicalLine, ha, ok_bind, realWidth, hline.width_eq]
  rw [show (w : Int) + 1 = ((w + 1 : Nat) : Int) by omega, h₁]
  rfl

/-! ## All rows

The outer loop takes one logical line per round and starts the next one in a new
row. -/

/-- The outer loop at the same width copies the rows below its bound. -/
theorem copyRows_same (defaultLine : Block ScreenChar) (fuel y1 : Nat) (hsrc : Source s w rows)
    {k n : Nat}
    (hn : s.currentScrollbackLines + s.height = n) (hle : n ≤ rows.length) (hk : n - y1 < k)
    (hfilled : r.Filled T w out) :
    ∃ r', copyRows s T w defaultLine fuel k y1 r = .ok r' ∧
      r'.Filled T w (out ++ (rows.take n).drop y1) := by
  induction k generalizing y1 r out with
  | zero => omega
  | succ k ih =>
      rw [copyRows, hn]
      by_cases hlt : y1 < n
      · have hdrop := List.drop_eq_getElem_cons (show y1 < rows.length by omega)
        obtain ⟨r₁, h₁, hfilled₁⟩ :=
          copyLogicalLine_same defaultLine fuel hsrc hdrop hfilled.toRep
        obtain ⟨r₂, h₂, hfilled₂⟩ := ih (y1 + 1) (by omega) hfilled₁
        refine ⟨r₂, ?_, ?_⟩
        · rw [if_pos (by omega), h₁]
          exact_mod_cast h₂
        · have htake : y1 < (rows.take n).length := by
            rw [List.length_take]
            omega
          rw [List.drop_eq_getElem_cons htake, List.getElem_take]
          rwa [List.append_assoc] at hfilled₂
      · refine ⟨r, if_neg (by omega), ?_⟩
        rwa [List.drop_eq_nil_of_le (by simp; omega), List.append_nil]

/-- The outer loop at another width lays out every logical line that starts below
its bound. -/
theorem copyRows_rewraps (y1 : Nat) (hsrc : Source s W rows) (hW : 0 < W) (hw : 0 < w) (hne : W ≠ w)
    (hsize : (w : Int) + 1 ≤ defaultLine.size) (hnul : ∀ i, (defaultLine.cell i).ch = 0)
    (hclosed : Closed ScreenChar.isNul rows) (hfuel : rows.length ≤ fuel) {k n : Nat}
    (hn : s.currentScrollbackLines + s.height = n) (hle : n ≤ rows.length) (hk : n - y1 < k)
    (hfilled : r.Filled T w out) :
    ∃ r' new, copyRows s T w defaultLine fuel k y1 r = .ok r' ∧
      List.Forall₂ (Rewraps ScreenChar.isNul w)
        ((linesBefore (n - y1) (logicalLines ScreenChar.isNul (rows.drop y1))).map
          (lineText ScreenChar.isNul)) new ∧
      r'.Filled T w (out ++ new.flatten) := by
  induction k generalizing y1 r out with
  | zero => omega
  | succ k ih =>
      rw [copyRows, hn]
      by_cases hlt : y1 < n
      · have hdrop := List.drop_eq_getElem_cons (show y1 < rows.length by omega)
        have hlen : (rows.drop (y1 + 1)).length < fuel := by
          rw [List.length_drop]
          omega
        obtain ⟨r₁, new₁, h₁, hnew₁, hfilled₁⟩ := copyLogicalLine_rewraps hsrc hW hw hne hsize
          hnul hdrop (hdrop ▸ hclosed.drop y1) hlen hfilled.toRep
        rw [← hdrop] at h₁ hnew₁
        have hnext : y1 + (firstLine ScreenChar.isNul (rows.drop y1)).tail.length + 1 =
            y1 + (firstLine ScreenChar.isNul (rows.drop y1)).length := by
          rw [hdrop, firstLine_cons]
          simp only [List.tail_cons, List.length_cons]
          omega
        obtain ⟨r₂, new₂, h₂, hnew₂, hfilled₂⟩ :=
          ih (y1 + (firstLine ScreenChar.isNul (rows.drop y1)).tail.length + 1)
            (by omega) hfilled₁
        refine ⟨r₂, new₁ :: new₂, ?_, ?_, ?_⟩
        · rw [if_pos (by omega), h₁]
          exact_mod_cast h₂
        · rw [hnext, ← List.drop_drop, ← Nat.sub_sub] at hnew₂
          have hrows : rows.drop y1 ≠ [] := by
            rw [hdrop]
            exact List.cons_ne_nil _ _
          rw [logicalLines_eq hrows, linesBefore_cons (by omega), List.map_cons]
          exact .cons hnew₁ hnew₂
        · rwa [List.flatten_cons, ← List.append_assoc]
      · refine ⟨r, [], if_neg (by omega), ?_, by simpa using hfilled⟩
        rw [show n - y1 = 0 by omega, linesBefore_zero]
        exact .nil

end

end Screen

end MobileTerminal
