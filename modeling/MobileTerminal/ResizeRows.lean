import MobileTerminal.ReflowText
import MobileTerminal.Reachable
import MobileTerminal.Scrollback

/-!
# The rows of a resized screen

`resizeWidth:height:` cuts off the blank rows at the bottom of the screen,
copies what is left into a new ring and fills up with blank rows. Here the parts
are put together: which rows are kept (`keptRows`), what the copy loops make of
them, and which of the produced rows a reader of the new screen finds
(`resizeWidth_spec`).

Blank rows are cut off only below the cursor, and a row counts as blank by its
cells without the mark. The loop that does it lowers `HEIGHT` itself, so the
copy loops run on a screen of another height; `Wf.copySource` is that screen.

`Resized` relates the old screen to the new one by the list `out` of rows that
were produced. The new ring holds the last of them (`Holds`), the scrollback
takes those that do not fit on the screen, and the cursor goes to the last row.
`ShowsLast` is the same relation that printing keeps, so printing goes on from a
resized screen as from any other.
-/

namespace MobileTerminal

open Wrap

namespace Screen

variable {t : Terminal} {s : Screen} {w h : Nat} {T : Int} {rows out : List (List ScreenChar)}
  {r : Reflow}

/-- A row without text; its mark is not looked at. -/
def isBlankRow (row : List ScreenChar) : Bool := row.dropLast.all ScreenChar.isNul

/-- The rows up to and with the cursor's. -/
def rowsToCursor (s : Screen) : Nat := (s.currentScrollbackLines + s.cursorY + 1).toNat

/-- All rows without the blank ones that lie below both the cursor and the last
row that is not blank. -/
def keptRows (s : Screen) : List (List ScreenChar) :=
  s.rows.take s.rowsToCursor ++ (s.rows.drop s.rowsToCursor).rdropWhile isBlankRow

theorem keptRows_prefix (s : Screen) : s.keptRows <+: s.rows := by
  conv_rhs => rw [← List.take_append_drop s.rowsToCursor s.rows]
  exact (List.prefix_append_right_inj _).mpr (List.rdropWhile_prefix _ _)

/-! ## The rows that are read -/

theorem Wf.line (hwf : s.Wf) {i : Nat} (hi : i < s.rows.length) :
    Line s s.width.toNat (s.rowLine i * s.realWidth) s.rows[i] := by
  have hw := hwf.width_pos
  have hrw : s.realWidth = ((s.width.toNat + 1 : Nat) : Int) := by
    unfold realWidth
    omega
  have hT : s.totalHeight = s.maxScrollbackLines + s.height := rfl
  have hc := hwf.count_range
  have hlt : (i : Int) < s.totalHeight := by
    rw [rows_length, hwf.numberOfLines_eq] at hi
    omega
  refine ⟨by omega, hwf.line_nonneg (by omega) hlt, ?_, ?_⟩
  · have hle := hwf.line_end_le (i := i) (by omega) hlt
    unfold realWidth at hle ⊢
    omega
  · rw [rows_getElem, hwf.row_eq hrw, Block.line, ← hrw]

theorem Wf.source (hwf : s.Wf) : Source s s.width.toNat s.rows := by
  intro i hi
  exact ⟨_, hwf.indexLine (by omega), hwf.line hi⟩

/-- The rows of the screen down to the last of the first `m` that is not blank. -/
def textRows (s : Screen) (m : Nat) : Nat :=
  ((s.visibleRows.take m).rdropWhile isBlankRow).length

theorem textRows_le (s : Screen) (m : Nat) : s.textRows m ≤ m := by
  have hle := (List.rdropWhile_prefix isBlankRow (s.visibleRows.take m)).length_le
  rw [List.length_take] at hle
  unfold textRows
  omega

theorem Wf.textRows_succ (hwf : s.Wf) {m : Nat} (hm : (m : Int) < s.height) :
    s.textRows (m + 1) = if isBlankRow (s.row (s.currentScrollbackLines.toNat + m))
      then s.textRows m else m + 1 := by
  have hlen := hwf.visibleRows_length
  have htake : s.visibleRows.take (m + 1) = s.visibleRows.take m ++
      [s.row (s.currentScrollbackLines.toNat + m)] := by
    rw [List.take_add_one, List.getElem?_eq_getElem (by omega), visibleRows_getElem]
    rfl
  unfold textRows
  rw [htake, List.rdropWhile_concat]
  split
  · rfl
  · rw [List.length_append, List.length_take, List.length_singleton, Nat.min_eq_left (by omega)]

theorem trimHeight_succ (hwf : s.Wf) (k : Nat) {m : Nat} (hm : (m : Int) < s.height) :
    s.trimHeight (k + 1) ((m + 1 : Nat) : Int) =
      if isBlankRow (s.row (s.currentScrollbackLines.toNat + m)) then s.trimHeight k m
      else .ok ((m + 1 : Nat) : Int) := by
  have hc := hwf.count_range
  have hw := hwf.width_pos
  have hlen : s.rows.length = (s.currentScrollbackLines + s.height).toNat := by
    rw [rows_length, hwf.numberOfLines_eq]
  have hi : s.currentScrollbackLines.toNat + m < s.rows.length := by omega
  have hline := hwf.line hi
  rw [rows_getElem] at hline
  have hle := hline.le_size
  have haddr : s.getLineAtScreenIndex (((m + 1 : Nat) : Int) - 1) =
      .ok (s.rowLine ((s.currentScrollbackLines.toNat + m : Nat) : Int) * s.realWidth) := by
    rw [hwf.visibleLine (by omega) (by omega)]
    congr 3
    omega
  have hcount := countNul_eq (b := s.bufferLines) (n := s.width.toNat) hline.nonneg (by omega)
  have hblank := takeWhile_length_lt (l := s.bufferLines.slice
    (s.rowLine ((s.currentScrollbackLines.toNat + m : Nat) : Int) * s.realWidth) s.width.toNat)
  rw [Block.slice_length, ← hline.dropLast_eq] at hblank
  rw [trimHeight, haddr, ok_bind, hcount, ok_bind]
  by_cases hb : isBlankRow (s.row (s.currentScrollbackLines.toNat + m)) = true
  · rw [if_neg (by rw [← hline.dropLast_eq, hblank, ← isBlankRow, hb]; simp), if_pos hb,
      show ((m + 1 : Nat) : Int) - 1 = m by omega]
  · rw [if_pos (by rw [← hline.dropLast_eq, hblank, ← isBlankRow]; simpa using hb), if_neg hb]

/-- Cutting off at most `k` blank rows from row `m - 1` of the screen upwards. Above the first row
there is none to look at. -/
theorem trimHeight_eq (hwf : s.Wf) (k : Nat) {m : Nat} (hm : (m : Int) ≤ s.height) :
    s.trimHeight k m = if m < k ∧ s.textRows m = 0 then .error (.assertion .lineOffset)
      else .ok ((max (m - k) (s.textRows m) : Nat) : Int) := by
  induction k generalizing m with
  | zero =>
      rw [if_neg (by omega), Nat.sub_zero, Nat.max_eq_left (s.textRows_le m)]
      rfl
  | succ k ih =>
      cases m with
      | zero =>
          rw [if_pos ⟨by omega, Nat.le_zero.mp (s.textRows_le 0)⟩]
          rfl
      | succ m =>
          rw [trimHeight_succ hwf k (by omega), hwf.textRows_succ (by omega)]
          split
          · rw [ih (by omega), Nat.succ_sub_succ]
            simp only [Nat.succ_lt_succ_iff]
          · rw [if_neg (by omega), Nat.max_eq_right (by omega)]

/-- The height after the cut, as a number of rows. -/
theorem trimHeight_spec (hwf : s.Wf) (hy : 0 ≤ s.cursorY) (hy' : s.cursorY < s.height) :
    ∃ trimmed, s.trimHeight (s.height - (s.cursorY + 1)).toNat s.height = .ok trimmed ∧
      s.currentScrollbackLines + trimmed = s.keptRows.length := by
  have hc := hwf.count_range
  have hlen := hwf.rows_length_eq
  have hlen' := hwf.visibleRows_length
  have heq := trimHeight_eq hwf (s.height - (s.cursorY + 1)).toNat (m := s.height.toNat) (by omega)
  rw [if_neg (by omega), Int.toNat_of_nonneg (by omega)] at heq
  have hmax := rdropWhile_drop_length isBlankRow s.visibleRows (a := (s.cursorY + 1).toNat)
    (by omega)
  have hdrop : s.rows.drop s.rowsToCursor = s.visibleRows.drop (s.cursorY + 1).toNat := by
    rw [visibleRows, List.drop_drop]
    congr 1
    unfold rowsToCursor
    omega
  refine ⟨_, heq, ?_⟩
  rw [keptRows, hdrop, List.length_append, List.length_take, textRows,
    List.take_of_length_le (l := s.visibleRows) (by omega)]
  unfold rowsToCursor
  omega

/-! ## The new buffer -/

/-- What the new buffer holds in the end: the last `T` rows that were produced,
and behind them blank rows when there were fewer. -/
structure Holds (T : Int) (w : Nat) (out : List (List ScreenChar)) (bl : Block ScreenChar) :
    Prop where
  size_eq : bl.size = T * (w + 1)
  kept : ∀ j (h : j < out.length), (out.length : Int) - j ≤ T →
    bl.line (w + 1) ((j : Int) % T) = out[j]
  rest : ∀ j : Int, out.length ≤ j → j < T → ∀ c ∈ bl.line (w + 1) j, c.isNul = true

/-- The loop that fills the rest of the new buffer. -/
theorem fillRest_spec (hf : r.Filled T w out) (hroom : (out.length : Int) < T)
    {defaultLine : Block ScreenChar} (hsize : (w : Int) + 1 ≤ defaultLine.size)
    (hnul : ∀ i, (defaultLine.cell i).ch = 0) :
    ∃ bl, fillRest T w defaultLine r = .ok bl ∧ Holds T w out bl := by
  have hw : (0 : Int) < w + 1 := by omega
  have hy : r.y2 = out.length := by
    rw [hf.row_eq, Int.emod_eq_of_lt (by omega) hroom]
  -- before round `i` the lines up to `i` are as they shall be
  have hloop := forUp_total (ε := Fault Site)
    (f := fun _ (q : Int × Block ScreenChar) => do
      let bl ← q.2.copy q.1 defaultLine 0 ((w : Int) + 1)
      .ok ((incrementLinePointer q.1 T w).1, bl))
    (P := fun i q => (i < T → q.1 = i * (w + 1)) ∧ q.2.size = T * (w + 1) ∧
      (∀ j (h : j < out.length), q.2.line (w + 1) j = out[j]) ∧
      ∀ j : Int, out.length ≤ j → j < i → ∀ c ∈ q.2.line (w + 1) j, c.isNul = true)
    r.y2 (T - r.y2).toNat (s := (r.c2, r.bl)) ?_ ?_
  · obtain ⟨⟨c2, bl⟩, hok, -, hbl, hkept, hrest⟩ := hloop
    refine ⟨bl, by simp only [fillRest, hok, ok_bind], hbl, ?_, ?_⟩
    · intro j hj hle
      rw [Int.emod_eq_of_lt (by omega) (by omega)]
      exact hkept j hj
    · intro j hj hjT
      exact hrest j hj (by omega)
  · rintro i ⟨c2, bl⟩ hi hi' ⟨hc2, hbl, hkept, hrest⟩
    simp only at hc2 hbl hkept hrest ⊢
    have hiT : i < T := by omega
    have haddr : c2 = i * ((w + 1 : Nat) : Int) + (0 : Nat) := by
      rw [hc2 hiT]
      push_cast
      omega
    have h0 := addr_nonneg_line (l := i) (by omega) hw
    have h1 := (line_le_iff (m := i + 1) (l := T) hw).mpr (by omega)
    rw [Int.add_mul, Int.one_mul] at h1
    have hcopy := Block.copy_of_le (ι := Site) bl defaultLine (s := 0)
      (d := c2) (n := ((w + 1 : Nat) : Int)) (by omega) (by omega) (by omega)
      (by rw [hc2 hiT]; exact h0) (by rw [hc2 hiT, hbl]; omega)
    refine ⟨((incrementLinePointer c2 T w).1, bl.paste c2 defaultLine 0 ((w + 1 : Nat) : Int)),
      ?_, ?_, hbl, ?_, ?_⟩
    · rw [show (w : Int) + 1 = ((w + 1 : Nat) : Int) by omega, hcopy]
      rfl
    · intro hnext
      rw [hc2 hiT, incrementLinePointer_line hw hiT, wrapLine_of_lt hnext]
    · intro j hj
      simp only
      rw [haddr, Block.line_paste_ne _ _ (by omega) _ (by omega)]
      exact hkept j hj
    · intro j hj hji c hc
      simp only at hc
      rw [haddr] at hc
      by_cases hlast : j = i
      · subst hlast
        rw [Block.line_paste_self _ _ (by omega), List.take_zero, List.nil_append,
          List.drop_eq_nil_of_le (by simp), List.append_nil] at hc
        obtain ⟨k, hk, rfl⟩ := List.getElem_of_mem hc
        rw [Block.slice_getElem]
        simp [ScreenChar.isNul, hnul]
      · rw [Block.line_paste_ne _ _ (by omega) _ hlast] at hc
        exact hrest j hj (by omega) c hc
  · refine ⟨fun _ => hf.ok.line_eq, hf.ok.size_eq, ?_, fun j hj hjy => by omega⟩
    intro j hj
    have hkept := hf.kept j hj (by omega)
    rwa [Int.emod_eq_of_lt (by omega) (by omega)] at hkept

/-! ## The new screen -/

/-- The scrollback takes the rows that do not fit on the screen, and the cursor
goes to the last row. -/
theorem newPosition_eq {max : Int} (hrep : r.Rep (max + h) w out) (hmax : 0 < max) :
    newPosition max h r =
      (min ((out.length - h : Nat) : Int) max, ((min out.length h : Nat) : Int) - 1) := by
  simp only [newPosition, if_pos hmax]
  by_cases hfull : max + (h : Int) ≤ out.length
  · rw [if_pos (hrep.wrapped_iff.mpr hfull)]
    refine Prod.ext ?_ ?_ <;> simp only <;> omega
  · rw [if_neg (fun hc => hfull (hrep.wrapped_iff.mp hc)), hrep.row_eq,
      Int.emod_eq_of_lt (by omega) (by omega)]
    split <;> refine Prod.ext ?_ ?_ <;> simp only <;> omega

/-- Where the rows of the installed screen stand in the new buffer. -/
theorem install_rowLine {max : Int} (hrep : r.Rep (max + h) w out) (bl : Block ScreenChar)
    (hmax : s.maxScrollbackLines = max) {i : Nat} (hi : (i : Int) < max + h) :
    (s.install (max + h) w h r bl).rowLine i =
      ((out.length - (max + h).toNat + i : Nat) : Int) % (max + h) := by
  have hT := hrep.total_pos
  have hw : (0 : Int) < w + 1 := by omega
  have hN := Int.emod_nonneg (out.length : Int) (show max + (h : Int) ≠ 0 by omega)
  have hN' := Int.emod_lt_of_pos (out.length : Int) hT
  simp only [rowLine, scrollbackLine, totalHeight, realWidth, install, hmax, hrep.ok.top_eq,
    hrep.ok.line_eq]
  by_cases hfull : max + (h : Int) ≤ out.length
  · rw [if_pos (hrep.wrapped_iff.mpr hfull), line_ediv hw, hrep.row_eq,
      wrapLine_eq_emod (by omega) (by omega), Int.emod_add_emod,
      show (out.length : Int) + i = ((out.length - (max + h).toNat + i : Nat) : Int) +
        (max + h) by omega, Int.add_emod_right]
  · rw [if_neg (fun hc => hfull (hrep.wrapped_iff.mp hc)), Int.zero_ediv, Int.zero_add,
      wrapLine_of_lt hi, show out.length - (max + h).toNat = 0 by omega, Nat.zero_add,
      Int.emod_eq_of_lt (by omega) hi]

theorem install_topLine {max : Int} {bl : Block ScreenChar} (hrep : r.Rep (max + h) w out)
    (hwf : (s.install (max + h) w h r bl).Wf) (hmax : s.maxScrollbackLines = max)
    (hpos : 0 < max) :
    (s.install (max + h) w h r bl).topLine = ((out.length - h : Nat) : Int) % (max + h) := by
  have hh : (1 : Int) ≤ h := hwf.height_pos
  have hcount : (s.install (max + h) w h r bl).currentScrollbackLines =
      (min (out.length - h) max.toNat : Nat) := by
    simp only [install, hmax, newPosition_eq hrep hpos]
    omega
  rw [hwf.top_eq, hcount]
  refine (install_rowLine hrep bl hmax (by omega)).trans ?_
  congr 1
  omega

/-- A row of the installed screen is a row of the new buffer. -/
theorem install_row {max : Int} (hrep : r.Rep (max + h) w out) {bl : Block ScreenChar}
    (hwf : (s.install (max + h) w h r bl).Wf) (hmax : s.maxScrollbackLines = max) {i : Nat}
    (hi : (i : Int) < max + h) :
    (s.install (max + h) w h r bl).row i =
      bl.line (w + 1) (((out.length - (max + h).toNat + i : Nat) : Int) % (max + h)) := by
  rw [hwf.row_eq (n := w + 1) (by simp [realWidth, install]), install_rowLine hrep bl hmax hi]
  rfl

/-- A reader of the installed screen finds the last rows that were produced, and
blank ones when they do not fill the screen. -/
theorem install_rows {max : Int} {bl : Block ScreenChar} (hrep : r.Rep (max + h) w out)
    (hwf : (s.install (max + h) w h r bl).Wf) (hmax : s.maxScrollbackLines = max) (hpos : 0 < max)
    (hbl : Holds (max + h) w out bl) :
    ∃ blank, (s.install (max + h) w h r bl).rows = out.rtake (max + h).toNat ++ blank ∧
      blank.length = h - out.length ∧ ∀ row ∈ blank, ∀ c ∈ row, c.isNul = true := by
  have hlen : (s.install (max + h) w h r bl).rows.length =
      min out.length (max + h).toNat + (h - out.length) := by
    have hcount : (s.install (max + h) w h r bl).currentScrollbackLines =
        min ((out.length - h : Nat) : Int) max := by
      simp only [install, hmax, newPosition_eq hrep hpos]
    rw [rows_length, hwf.numberOfLines_eq, hcount]
    simp only [install]
    omega
  have htake : (s.install (max + h) w h r bl).rows.take (min out.length (max + h).toNat) =
      out.rtake (max + h).toNat := by
    apply List.ext_getElem
    · rw [List.length_take, hlen, List.rtake, List.length_drop]
      omega
    · intro i h1 h2
      rw [List.length_take, hlen] at h1
      rw [List.getElem_take, rows_getElem, install_row hrep hwf hmax (by omega)]
      simp only [List.rtake, List.getElem_drop]
      exact hbl.kept _ (by omega) (by omega)
  refine ⟨(s.install (max + h) w h r bl).rows.drop (min out.length (max + h).toNat), ?_, ?_, ?_⟩
  · rw [← htake, List.take_append_drop]
  · rw [List.length_drop, hlen]
    omega
  · intro row hrow
    obtain ⟨i, hi, rfl⟩ := List.getElem_of_mem hrow
    rw [List.length_drop, hlen] at hi
    rw [List.getElem_drop, rows_getElem, install_row hrep hwf hmax (by omega),
      Int.emod_eq_of_lt (by omega) (by omega)]
    exact hbl.rest _ (by omega) (by omega)

/-- The rows a resize to width `w` produces from those of `s`. -/
structure Produces (s : Screen) (w : Nat) (out : List (List ScreenChar)) : Prop where
  same : s.width = w → out = s.keptRows
  other : s.width ≠ w → ∃ new, out = new.flatten ∧
    List.Forall₂ (Rewraps ScreenChar.isNul w)
      ((linesBefore s.keptRows.length (logicalLines ScreenChar.isNul s.rows)).map
        (lineText ScreenChar.isNul)) new

/-- The rows a reader of `s'` finds when `out` are all rows that were produced. -/
def ShowsLast (max : Int) (h : Nat) (out : List (List ScreenChar)) (s' : Screen) : Prop :=
  ∃ blank, s'.rows = out.rtake (max + h).toNat ++ blank ∧ blank.length = h - out.length ∧
    ∀ row ∈ blank, ∀ c ∈ row, c.isNul = true

/-- `s'` is `s` resized to `w` columns and `h` rows, where the copy loops have
produced the rows `out`. -/
structure Resized (s : Screen) (w h : Nat) (out : List (List ScreenChar)) (s' : Screen) :
    Prop where
  wf : s'.Wf
  width_eq : s'.width = w
  height_eq : s'.height = h
  max_eq : s'.maxScrollbackLines = s.maxScrollbackLines
  count_eq : s'.currentScrollbackLines =
    min ((out.length - h : Nat) : Int) s.maxScrollbackLines
  top_eq : s'.topLine = ((out.length - h : Nat) : Int) % (s.maxScrollbackLines + h)
  cursorX_eq : s'.cursorX = min s.cursorX (w - 1)
  cursorY_eq : s'.cursorY = ((min out.length h : Nat) : Int) - 1
  margins : s'.FullMargins
  charset_eq : s'.charset = s.charset
  print_eq : s'.printToAnsi = s.printToAnsi
  shows : ShowsLast s.maxScrollbackLines h out s'

/-- What is drawn after the resize are dirty flags. -/
theorem Resized.draws {s₁ s₂ : Screen} (hr : s.Resized w h out s₁) (hd : Draws s₁ s₂)
    (hb : s₂.bufferLines = s₁.bufferLines) : s.Resized w h out s₂ := by
  have hwf := hd.wf hr.wf
  obtain ⟨⟨b, d, line, fg, bg, lw, -, -, rfl⟩, -⟩ := hd
  cases hb
  exact { hr with wf := hwf }

/-- The rest of the new buffer is filled unless the copy loops have gone round it. -/
theorem fill_spec (hf : r.Filled T w out) {defaultLine : Block ScreenChar}
    (hsize : (w : Int) + 1 ≤ defaultLine.size) (hnul : ∀ i, (defaultLine.cell i).ch = 0) :
    ∃ bl, (if r.wrapped then .ok r.bl else fillRest T w defaultLine r) = .ok bl ∧
      Holds T w out bl := by
  by_cases hfull : T ≤ out.length
  · exact ⟨r.bl, if_pos (hf.wrapped_iff.mpr hfull), hf.ok.size_eq, hf.kept, fun j hj hjT => by omega⟩
  · obtain ⟨bl, hok, hbl⟩ := fillRest_spec hf (by omega) hsize hnul
    exact ⟨bl, by rw [if_neg (fun hc => hfull (hf.wrapped_iff.mp hc)), hok], hbl⟩

theorem install_resized (hf : r.Filled (s.maxScrollbackLines + h) w out) (hwf : s.Wf) (hw : 0 < w)
    (hh : 0 < h) {bl : Block ScreenChar} (hbl : Holds (s.maxScrollbackLines + h) w out bl)
    {s₀ : Screen} {height : Int} (hd : Draws { s with height := height } s₀) :
    s.Resized w h out (s₀.install (s.maxScrollbackLines + h) w h r bl) := by
  have hmax := hwf.max_pos
  obtain ⟨⟨b, d, line, fg, bg, lw, -, -, rfl⟩, hl⟩ := hd
  have hwf' := install_wf (hl hwf.default) hmax hwf.fixed hwf.column.1 hwf.saved_column.1 hwf.tabs
    hwf.charsets hwf.saved_charsets (w := w) (by omega) (by omega) hf.ok
    (hbl.size_eq.trans hf.ok.size_eq.symm)
  have hpos := newPosition_eq hf.toRep hmax
  refine {
    wf := hwf', width_eq := rfl, height_eq := rfl, max_eq := rfl, margins := ⟨rfl, rfl⟩
    charset_eq := rfl, print_eq := rfl, count_eq := ?_, cursorX_eq := ?_, cursorY_eq := ?_
    top_eq := install_topLine hf.toRep hwf' rfl hmax
    shows := install_rows hf.toRep hwf' rfl hmax hbl }
  all_goals simp only [install, hpos]
  · split <;> omega
  · split <;> omega

/-- Before the first row the new ring holds none. -/
theorem reflow_start_filled (hT : 0 < T) (fresh : ScreenChar) :
    Reflow.Filled T w [] { bl := Block.alloc (T * (w + 1)) fresh, c2 := 0, newScrollbackTop := 0
                           y2 := 0, wrapped := false } := by
  refine ⟨⟨reflow_start_ok hT _, by simp, ?_, fun j hj => ?_⟩, fun j hj => ?_⟩
  · simp only [Bool.false_eq_true, List.length_nil, Int.natCast_zero, false_iff]
    omega
  · cases hj
  · cases hj

/-- The screen the copy loops read, with its height cut and a default line built. -/
theorem Wf.copySource (hwf : s.Wf) (t : Terminal) (w trimmed : Int) {s₀ : Screen}
    {line : Block ScreenChar}
    (hdl : getDefaultLineWithWidth t w { s with height := trimmed } = (s₀, line)) :
    Source s₀ s.width.toNat s.rows ∧
      s₀.currentScrollbackLines + s₀.height = s.currentScrollbackLines + trimmed ∧
      s₀.maxScrollbackLines = s.maxScrollbackLines ∧ s₀.width = s.width ∧
      ∀ i x, s₀.cellAt i x = s.cellAt i x := by
  have hd := getDefaultLine_draws t.foregroundColorCode t.backgroundColorCode w
    { s with height := trimmed }
  have hb := getDefaultLine_bufferLines t.foregroundColorCode t.backgroundColorCode w
    { s with height := trimmed }
  rw [getDefaultLineWithWidth] at hdl
  rw [hdl] at hd hb
  obtain ⟨⟨b, d, line', fg, bg, lw, -, -, rfl⟩, -⟩ := hd
  cases hb
  refine ⟨fun i hi => ?_, rfl, rfl, rfl, fun _ _ => rfl⟩
  obtain ⟨a, ha, hline⟩ := hwf.source i hi
  exact ⟨a, ha, hline.width_eq, hline.nonneg, hline.le_size, hline.eq⟩

/-- The copy loops, for a screen `s'` that only differs from `s` in its height. -/
theorem reflow_spec {s' : Screen} {fuel : Nat} {defaultLine : Block ScreenChar} (hwf : s.Wf)
    (hsrc : Source s' s.width.toNat s.rows) (hclosed : Closed ScreenChar.isNul s.rows)
    (hn : s'.currentScrollbackLines + s'.height = s.keptRows.length) (hT : 0 < T) (hw : 0 < w)
    (hsize : (w : Int) + 1 ≤ defaultLine.size) (hnul : ∀ i, (defaultLine.cell i).ch = 0)
    (hfuel : s.rows.length ≤ fuel) :
    ∃ r out, s'.reflow T w defaultLine fuel = .ok r ∧ r.Filled T w out ∧ s.Produces w out := by
  have hW := hwf.width_pos
  have hle := s.keptRows_prefix.length_le
  have hstart := reflow_start_filled (w := w) hT s'.fresh
  by_cases hsame : s.width = w
  · have hww : s.width.toNat = w := by omega
    rw [hww] at hsrc
    obtain ⟨r, hok, hfilled⟩ := copyRows_same defaultLine fuel 0 hsrc
      (k := (s'.currentScrollbackLines + s'.height).toNat + 1) hn hle (by omega)
      hstart
    refine ⟨r, s.keptRows, hok, ?_, fun _ => rfl, fun hne => absurd hsame hne⟩
    rwa [List.nil_append, List.drop_zero, ← List.prefix_iff_eq_take.mp s.keptRows_prefix]
      at hfilled
  · obtain ⟨r, new, hok, hnew, hfilled⟩ := copyRows_rewraps 0 hsrc (by omega) hw
      (by omega) hsize hnul hclosed hfuel
      (k := (s'.currentScrollbackLines + s'.height).toNat + 1) hn hle (by omega) hstart
    exact ⟨r, new.flatten, hok, hfilled, fun h' => absurd h' hsame, fun _ => ⟨new, rfl, hnew⟩⟩

/-- Up to the new pointers, for a height that may be zero. -/
theorem resizeWidth_copied (t : Terminal) (hwf : s.Wf) (hy : 0 ≤ s.cursorY)
    (hy' : s.cursorY < s.height) (hclosed : Closed ScreenChar.isNul s.rows) (hw : 0 < w)
    (hne : ¬((w : Int) = s.width ∧ (h : Int) = s.height)) :
    ∃ s₀ height r bl out, Draws { s with height := height } s₀ ∧
      r.Filled (s.maxScrollbackLines + h) w out ∧ Holds (s.maxScrollbackLines + h) w out bl ∧
      s.Produces w out ∧ s.resizeWidth t w h = (do
        let s ← setDirty (s₀.install (s.maxScrollbackLines + h) w h r bl)
        s.refresh) := by
  have hW := hwf.width_pos
  have hH := hwf.height_pos
  have hmax := hwf.max_pos
  have hc := hwf.count_range
  obtain ⟨trimmed, htrim, hn⟩ := trimHeight_spec hwf hy hy'
  have hd := getDefaultLine_draws t.foregroundColorCode t.backgroundColorCode w
    { s with height := trimmed }
  obtain ⟨hsize, hnul⟩ := getDefaultLine_ok (s := { s with height := trimmed }) hwf.default
    t.foregroundColorCode t.backgroundColorCode w
  have hfuel : s.rows.length ≤ s.rowFuel := by
    rw [rows_length, hwf.numberOfLines_eq, rowFuel, totalHeight]
    omega
  -- the screen the copy loops read
  generalize hdl : getDefaultLine t.foregroundColorCode t.backgroundColorCode (w : Int)
    { s with height := trimmed } = dl at hd hsize hnul
  obtain ⟨s₀, line⟩ := dl
  obtain ⟨hsrc, hrows, -⟩ := hwf.copySource t w trimmed hdl
  obtain ⟨r, out, hr, hf, hout⟩ := reflow_spec (T := s.maxScrollbackLines + h) hwf hsrc hclosed
    (hrows.trans hn) (by omega) hw hsize hnul hfuel
  obtain ⟨bl, hbl, hholds⟩ := fill_spec hf hsize hnul
  refine ⟨s₀, trimmed, r, bl, out, hd, hf, hholds, hout, ?_⟩
  rw [resizeWidth, if_neg (by omega), htrim, ok_bind]
  simp only [getDefaultLineWithWidth, hdl, hr, hbl, ok_bind]

/-- A resize with the cursor on the screen: it completes, and a reader finds the last rows
that the copy loops have made of those that are kept. -/
theorem resizeWidth_spec (t : Terminal) (hwf : s.Wf) (hy : 0 ≤ s.cursorY)
    (hy' : s.cursorY < s.height) (hclosed : Closed ScreenChar.isNul s.rows) (hw : 0 < w)
    (hh : 0 < h) (hne : ¬((w : Int) = s.width ∧ (h : Int) = s.height)) :
    ∃ s' out, s.resizeWidth t w h = .ok s' ∧ s.Produces w out ∧ s.Resized w h out s' := by
  obtain ⟨s₀, height, r, bl, out, hd, hf, hholds, hout, heq⟩ :=
    resizeWidth_copied t hwf hy hy' hclosed hw hne
  have hres := install_resized hf hwf hw hh hholds hd
  obtain ⟨s₁, h₁, hd₁, hb₁⟩ := setDirty_spec hres.wf
  obtain ⟨s₂, h₂, hd₂, hb₂⟩ := refresh_spec (hd₁.wf hres.wf)
  refine ⟨s₂, out, ?_, hout, (hres.draws hd₁ hb₁).draws hd₂ hb₂⟩
  rw [heq, h₁, ok_bind, h₂]

end Screen

end MobileTerminal
