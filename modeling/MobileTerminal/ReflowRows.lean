import MobileTerminal.ReflowInv
import MobileTerminal.Rows
import MobileTerminal.Wrap

/-!
# The rows a reflow produces

The copy loops write one row after the other into the new ring. `Reflow.Rep`
relates the ring to the list of all rows produced so far, including those that
have been overwritten: row number `j` lies on line `j` modulo the number of
lines, as long as it is one of the last ones.

Each step of the loops is then a step on lists: a cell is appended to the row
being filled, or a full row is marked and a new one begun. `Reflow.Writing`
follows the text of one logical line through these steps; it says of the text so
far that some full rows and the cells of the current row hold it, which is the
left half of `Rewraps`.

Between two rows the line that comes next still holds an old row, or one that
was never written (`Filled`). The mark of that line is not cleared before the
row is, and a row that is begun by copying cells gets its mark from the copy;
`Writing.start` and `Filling.padRow` are the two ways in which it is settled.
-/

namespace MobileTerminal

open Wrap

namespace Reflow

variable {T : Int} {w : Nat} {out : List (List ScreenChar)} {cur text : List ScreenChar}
  {r : Reflow} {x2 : Int}

/-- The line that is being written. -/
def line (w : Nat) (r : Reflow) : List ScreenChar := r.bl.line (w + 1) r.y2

/-- The ring while row number `out.length` is being written: the rows before it,
as far as their lines have not been taken again. -/
structure Rep (T : Int) (w : Nat) (out : List (List ScreenChar)) (r : Reflow) : Prop where
  ok : r.Ok T w
  row_eq : r.y2 = (out.length : Int) % T
  wrapped_iff : r.wrapped = true ↔ T ≤ out.length
  done : ∀ j (h : j < out.length), (out.length : Int) - j < T →
    r.bl.line (w + 1) ((j : Int) % T) = out[j]

/-- The ring between two rows: the line that comes next still holds its old row. -/
structure Filled (T : Int) (w : Nat) (out : List (List ScreenChar)) (r : Reflow) : Prop extends
    Rep T w out r where
  kept : ∀ j (h : j < out.length), (out.length : Int) - j ≤ T →
    r.bl.line (w + 1) ((j : Int) % T) = out[j]

/-- The ring while the row being written holds the cells `cur` and is not marked. -/
structure Filling (T : Int) (w : Nat) (out : List (List ScreenChar)) (cur : List ScreenChar)
    (r : Reflow) : Prop extends Rep T w out r where
  cur_le : cur.length ≤ w
  cur_eq : (r.line w).take cur.length = cur
  unmarked : marked ScreenChar.isNul (r.line w) = false

@[simp] theorem line_length (w : Nat) (r : Reflow) : (r.line w).length = w + 1 :=
  Block.line_length _ _ _

theorem Rep.total_pos (h : Rep T w out r) : 0 < T := by
  have := h.ok.row_range
  omega

/-- Writing to the current line leaves the rows before it alone. -/
theorem Rep.withBl (h : Rep T w out r) {bl : Block ScreenChar} (hsize : bl.size = r.bl.size)
    (hline : ∀ l, l ≠ r.y2 → bl.line (w + 1) l = r.bl.line (w + 1) l) :
    Rep T w out { r with bl := bl } := by
  refine ⟨h.ok.withBl hsize, h.row_eq, h.wrapped_iff, ?_⟩
  intro j hj hlt
  rw [hline _ (by rw [h.row_eq]; exact emod_ne_of_lt (by omega) hlt)]
  exact h.done j hj hlt

/-- The line that has been written becomes the last row. -/
theorem Rep.nextRow (h : Rep T w out r) : Filled T w (out ++ [r.line w]) (r.nextRow T w) := by
  have hT := h.total_pos
  have hw : (0 : Int) < w + 1 := by omega
  have hnext := h.ok.nextRow_eq hw
  have hlen : ((out ++ [r.line w]).length : Int) = out.length + 1 := by simp
  have hkept : ∀ j (hj : j < (out ++ [r.line w]).length),
      ((out ++ [r.line w]).length : Int) - j ≤ T →
      (r.nextRow T w).bl.line (w + 1) ((j : Int) % T) = (out ++ [r.line w])[j] := by
    intro j hj hle
    rw [hnext]
    by_cases hlast : j < out.length
    · rw [List.getElem_append_left hlast]
      exact h.done j hlast (by omega)
    · obtain rfl : j = out.length := by
        simp only [List.length_append, List.length_cons, List.length_nil] at hj
        omega
      rw [List.getElem_append_right (Nat.le_refl _), ← h.row_eq]
      simp [line]
  refine ⟨⟨h.ok.nextRow hw, ?_, ?_, fun j hj hlt => hkept j hj (by omega)⟩, hkept⟩
  · rw [hnext, hlen]
    simp only
    rw [h.row_eq, wrapLine_emod_succ hT]
  · rw [hnext, hlen]
    simp only [Bool.or_eq_true, decide_eq_true_eq, h.wrapped_iff]
    by_cases hfull : T ≤ out.length
    · exact ⟨fun _ => by omega, fun _ => Or.inl hfull⟩
    · rw [h.row_eq, Int.emod_eq_of_lt (by omega) (by omega)]
      exact ⟨fun hor => hor.resolve_left hfull, Or.inr⟩

/-! ## Writing cells -/

/-- A cell of the current line lies in the new buffer. -/
theorem Rep.cell_range (h : Rep T w out r) {i : Nat} (hi : i ≤ w) :
    0 ≤ r.c2 + i ∧ r.c2 + i < r.bl.size := by
  have hy := h.ok.row_range
  have hw : (0 : Int) < w + 1 := by omega
  have h0 := addr_nonneg_line hy.1 hw
  have h1 := (line_le_iff (m := r.y2 + 1) (l := T) hw).mpr (by omega)
  rw [Int.add_mul, Int.one_mul] at h1
  rw [h.ok.size_eq, h.ok.line_eq]
  omega

theorem Rep.line_addr (h : Rep T w out r) : r.c2 = r.y2 * ((w + 1 : Nat) : Int) := by
  rw [h.ok.line_eq]
  push_cast
  rfl

theorem putAt_spec (h : Rep T w out r) {i : Nat} (hi : i ≤ w) (c : ScreenChar) :
    ∃ r', r.putAt i c = .ok r' ∧ Rep T w out r' ∧ r'.line w = (r.line w).set i c := by
  obtain ⟨h0, h1⟩ := h.cell_range hi
  refine ⟨{ r with bl := r.bl.set (r.c2 + i) c }, ?_, h.withBl rfl ?_, ?_⟩
  · simp only [putAt, Block.store_of_lt c h0 h1, ok_bind]
  · intro l hl
    rw [h.line_addr, Block.line_set_ne _ _ (by omega) hl]
  · simp only [line]
    rw [h.line_addr, Block.line_set_self _ _ (by omega)]

theorem marked_set_last (row : List ScreenChar) (hlen : row.length = w + 1) (c : ScreenChar) :
    marked ScreenChar.isNul (row.set w c) = !c.isNul := by
  unfold marked
  rw [List.getLast?_eq_getElem?, List.length_set, hlen, Nat.add_sub_cancel,
    List.getElem?_set_self (by omega)]
  rfl

theorem marked_set_of_lt (row : List ScreenChar) (hlen : row.length = w + 1) {i : Nat}
    (hi : i < w) (c : ScreenChar) :
    marked ScreenChar.isNul (row.set i c) = marked ScreenChar.isNul row := by
  unfold marked
  rw [List.getLast?_eq_getElem?, List.getLast?_eq_getElem?, List.length_set, hlen,
    Nat.add_sub_cancel, List.getElem?_set_ne (by omega)]

theorem setMark_spec (h : Rep T w out r) (ch : UniChar) :
    ∃ r', r.setMark w ch = .ok r' ∧ Rep T w out r' ∧
      (∀ n ≤ w, (r'.line w).take n = (r.line w).take n) ∧
      marked ScreenChar.isNul (r'.line w) = decide (ch ≠ 0) := by
  obtain ⟨h0, h1⟩ := h.cell_range (Nat.le_refl w)
  obtain ⟨r', hok, hrep, hline⟩ :=
    putAt_spec h (Nat.le_refl w) { r.bl.cell (r.c2 + w) with ch := ch }
  refine ⟨r', ?_, hrep, ?_, ?_⟩
  · simp only [setMark, Block.load_of_lt h0 h1, ok_bind]
    exact hok
  · intro n hn
    rw [hline, List.take_set_of_le hn]
  · rw [hline, marked_set_last _ (line_length w r)]
    simp [ScreenChar.isNul]

/-- Copying `k` cells into the current line, from column `i` on. -/
theorem Rep.copy (h : Rep T w out r) (src : Block ScreenChar) {a : Int} {i k : Nat}
    (hk : 0 < k) (hik : i + k ≤ w + 1) (h0 : 0 ≤ a) (h1 : a + k ≤ src.size) :
    ∃ bl, (r.bl.copy (r.c2 + i) src a k : Res (Block ScreenChar)) = .ok bl ∧
      Rep T w out { r with bl := bl } ∧
      bl.line (w + 1) r.y2 = (r.line w).take i ++ src.slice a k ++ (r.line w).drop (i + k) := by
  obtain ⟨hd0, -⟩ := h.cell_range (i := i) (by omega)
  obtain ⟨-, hd1⟩ := h.cell_range (Nat.le_refl w)
  refine ⟨r.bl.paste (r.c2 + i) src a k,
    Block.copy_of_le _ _ (by omega) h0 h1 hd0 (by omega), h.withBl rfl ?_, ?_⟩
  · intro l hl
    rw [h.line_addr, Block.line_paste_ne _ _ hik _ hl]
  · rw [h.line_addr, Block.line_paste_self _ _ hik]
    rfl

theorem copyFrom_spec (h : Rep T w out r) (src : Block ScreenChar) {c1 : Int} {m : Nat}
    (hm : 0 < m) (hmw : m ≤ w + 1) (h0 : 0 ≤ c1) (h1 : c1 + m ≤ src.size) :
    ∃ r', r.copyFrom src c1 m = .ok r' ∧ Rep T w out r' ∧
      (r'.line w).take m = src.slice c1 m := by
  obtain ⟨bl, hcopy, hrep, hline⟩ := h.copy src (i := 0) hm (by omega) h0 h1
  rw [Int.natCast_zero, Int.add_zero] at hcopy
  refine ⟨{ r with bl := bl }, by simp only [copyFrom, hcopy, ok_bind], hrep, ?_⟩
  rw [line, hline, List.take_zero, List.nil_append, List.take_append_of_le_length (by simp),
    List.take_of_length_le (by simp)]

/-! ## Writing a text -/

/-- The text written so far of one logical line: some full rows, then the cells
`cur` of the row that is being filled. `x2` is the column that comes next. -/
structure Writing (T : Int) (w : Nat) (out : List (List ScreenChar)) (text : List ScreenChar)
    (x2 : Int) (r : Reflow) : Prop where
  rows : ∃ full cur, text = full.flatMap List.dropLast ++ cur ∧ x2 = cur.length ∧
    (∀ row ∈ full, row.length = w + 1 ∧ marked ScreenChar.isNul row = true) ∧
    (full ≠ [] → cur ≠ []) ∧ Filling T w (out ++ full) cur r

/-- The first cells of a logical line are copied as they are. -/
theorem Writing.start (h : Rep T w out r) (src : Block ScreenChar) {c1 : Int} {m : Nat}
    (hm : 0 < m) (hmw : m ≤ w) (h0 : 0 ≤ c1) (h1 : c1 + m ≤ src.size) :
    ∃ r₁ r₂, r.copyFrom src c1 m = .ok r₁ ∧ r₁.setMark w 0 = .ok r₂ ∧
      Writing T w out (src.slice c1 m) m r₂ := by
  obtain ⟨r₁, h₁, hrep₁, hline₁⟩ := copyFrom_spec h src hm (by omega) h0 h1
  obtain ⟨r₂, h₂, hrep₂, htake₂, hmark₂⟩ := setMark_spec hrep₁ 0
  refine ⟨r₁, r₂, h₁, h₂, [], src.slice c1 m, by simp, by simp, by simp, by simp, ?_⟩
  rw [List.append_nil]
  refine ⟨hrep₂, by simpa using hmw, ?_, by simpa using hmark₂⟩
  rw [Block.slice_length, htake₂ m hmw, hline₁]

/-- A cell goes into the row being filled while there is room. -/
theorem Filling.putAt (h : Filling T w out cur r) (hlt : cur.length < w) (c : ScreenChar) :
    ∃ r', r.putAt cur.length c = .ok r' ∧ Filling T w out (cur ++ [c]) r' := by
  obtain ⟨r', hok, hrep, hline⟩ := putAt_spec h.toRep (Nat.le_of_lt hlt) c
  refine ⟨r', hok, hrep, by simp; omega, ?_, ?_⟩
  · rw [hline, List.length_append, List.length_cons, List.length_nil, List.take_add_one,
      List.take_set_of_le (Nat.le_refl _), h.cur_eq, List.getElem?_set_self (by simp; omega)]
    rfl
  · rw [hline, marked_set_of_lt _ (line_length w r) hlt]
    exact h.unmarked

/-- A full row is marked, and the next one begun. -/
theorem Filling.wrapRow (h : Filling T w out cur r) (hfull : cur.length = w) :
    ∃ r' row, r.wrapRow T w = .ok r' ∧ row.length = w + 1 ∧
      marked ScreenChar.isNul row = true ∧ row.dropLast = cur ∧
      Filling T w (out ++ [row]) [] r' := by
  obtain ⟨r₁, h₁, hrep₁, htake₁, hmark₁⟩ := setMark_spec h.toRep 1
  obtain ⟨r₂, h₂, hrep₂, -, hmark₂⟩ := setMark_spec hrep₁.nextRow.toRep 0
  refine ⟨r₂, r₁.line w, ?_, by simp, by simpa using hmark₁, ?_, hrep₂, by simp, by simp,
    by simpa using hmark₂⟩
  · simp only [Reflow.wrapRow, h₁, ok_bind, h₂]
  · have hcur := h.cur_eq
    rw [hfull] at hcur
    rw [List.dropLast_eq_take, line_length, Nat.add_sub_cancel, htake₁ w (Nat.le_refl w), hcur]

theorem Writing.placeCell (h : Writing T w out text x2 r) (hw : 0 < w) (c : ScreenChar) :
    ∃ r' x2', r.placeCell T w x2 c = .ok (r', x2') ∧ Writing T w out (text ++ [c]) x2' r' := by
  obtain ⟨full, cur, rfl, rfl, hfull, hne, hfill⟩ := h
  have hle := hfill.cur_le
  by_cases hroom : cur.length < w
  · obtain ⟨r', hok, hfill'⟩ := hfill.putAt hroom c
    refine ⟨r', cur.length + 1, ?_, full, cur ++ [c], by simp, by simp, hfull, by simp, hfill'⟩
    rw [Reflow.placeCell, if_neg (by omega), hok]
    rfl
  · obtain ⟨r₁, row, h₁, hlen, hmark, hrow, hfill₁⟩ := hfill.wrapRow (by omega)
    obtain ⟨r₂, h₂, hfill₂⟩ := hfill₁.putAt hw c
    refine ⟨r₂, 1, ?_, full ++ [row], [c], by simp [hrow], by simp, ?_, by simp, ?_⟩
    · simp only [List.length_nil, Int.natCast_zero] at h₂
      rw [Reflow.placeCell, if_pos (by omega), h₁, ok_bind, h₂]
      rfl
    · intro row' hrow'
      rw [List.mem_append, List.mem_singleton] at hrow'
      exact hrow'.elim (hfull row') fun heq => heq ▸ ⟨hlen, hmark⟩
    · rw [← List.append_assoc]
      exact hfill₂

/-- What is left of the row being filled becomes NUL. -/
theorem Filling.padRow (h : Filling T w out cur r) {defaultLine : Block ScreenChar}
    (hsize : (w : Int) + 1 ≤ defaultLine.size) (hnul : ∀ i, (defaultLine.cell i).ch = 0) :
    ∃ r', r.padRow w cur.length defaultLine = .ok r' ∧ Rep T w out r' ∧
      Rewraps ScreenChar.isNul w cur [r'.line w] := by
  have hle := h.cur_le
  have hunmarked := h.unmarked
  by_cases hroom : cur.length < w
  · obtain ⟨bl, hcopy, hrep, hline⟩ := h.toRep.copy defaultLine (a := 0)
      (i := cur.length) (k := w - cur.length) (by omega) (by omega) (by omega) (by omega)
    rw [h.cur_eq, show cur.length + (w - cur.length) = w by omega] at hline
    have hlen : (cur ++ defaultLine.slice 0 (w - cur.length)).length = w := by
      rw [List.length_append, Block.slice_length]
      omega
    refine ⟨{ r with bl := bl }, ?_, hrep, .last (by simp) hle ?_ ?_ ?_⟩
    · rw [Reflow.padRow, if_pos (by omega),
        show (w : Int) - cur.length = (w - cur.length : Nat) by omega, hcopy]
      rfl
    · rw [line, hline, List.append_assoc, List.take_left]
    · intro c hc
      rw [line, hline, List.dropLast_eq_take, List.length_append, hlen, List.length_drop,
        line_length, Nat.add_sub_cancel_left, Nat.add_sub_cancel,
        List.take_append_of_le_length (Nat.le_of_eq hlen.symm),
        List.take_of_length_le (Nat.le_of_eq hlen), List.drop_left] at hc
      obtain ⟨k, hk, rfl⟩ := List.getElem_of_mem hc
      rw [Block.slice_getElem]
      simp [ScreenChar.isNul, hnul]
    · have hmark : marked ScreenChar.isNul (line w { r with bl := bl }) =
          marked ScreenChar.isNul (r.line w) := by
        unfold marked
        rw [List.getLast?_eq_getElem?, List.getLast?_eq_getElem?, line_length, line_length, line,
          hline, List.getElem?_append_right (by omega), hlen, List.getElem?_drop]
        simp
      rw [hmark, hunmarked]
  · refine ⟨r, by rw [Reflow.padRow, if_neg (by omega)], h.toRep, ?_⟩
    refine .last (by simp) hle h.cur_eq ?_ hunmarked
    intro c hc
    rw [List.drop_eq_nil_of_le (by simp; omega)] at hc
    cases hc

theorem Writing.finish (h : Writing T w out text x2 r) {defaultLine : Block ScreenChar}
    (hsize : (w : Int) + 1 ≤ defaultLine.size) (hnul : ∀ i, (defaultLine.cell i).ch = 0) :
    ∃ r' rows, r.padRow w x2 defaultLine = .ok r' ∧ Rewraps ScreenChar.isNul w text rows ∧
      Filled T w (out ++ rows) (r'.nextRow T w) := by
  obtain ⟨full, cur, rfl, rfl, hfull, hne, hfill⟩ := h
  obtain ⟨r', hok, hrep, hrow⟩ := hfill.padRow hsize hnul
  refine ⟨r', full ++ [r'.line w], hok, .of_full hfull hrow hne, ?_⟩
  rw [← List.append_assoc]
  exact hrep.nextRow

end Reflow

end MobileTerminal
