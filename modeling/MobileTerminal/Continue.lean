import Mathlib.Tactic.Ring
import MobileTerminal.ReadBack

/-!
# Output after a resize

The copy loops move the characters of the cursor's line into new rows, and the
cursor is put into the last of them with the column it had. Whether output goes
on where it stopped depends on whether that column is where the text ends.

`Holding` is a screen with one line of text whose cursor is somewhere in the
last row of that line. Text that is printed on it continues the line exactly
when the cursor stands at the end of the text (`Holding.continues_iff`).

A resize leads from one such screen to another (`Holding.resizes`): the text is
laid out again, and the column stays, clamped to the new width. From there on
only the two columns are compared. The direction that the line does not continue
is by counting: the text printed later has to stand somewhere, and the rows read
back have the length of both texts only when nothing was overwritten and nothing
left out (`column_of_length`).

So the condition is on the length of the first text and the two widths alone,
and it holds when the width stays the same.
-/

namespace MobileTerminal

open Wrap

namespace Screen

variable {s s' : Screen} {max : Int} {w h x : Nat} {text cells : List ScreenChar}

/-- The screen shows one line with the text `text`: full rows, and the last one
with the `cur` of it. The cursor is in column `x` of the last row. -/
structure Holding (max : Int) (w h : Nat) (text : List ScreenChar) (full : List (List ScreenChar))
    (last cur : List ScreenChar) (x : Nat) (s : Screen) : Prop where
  shown : Shown max w h full last x s
  rows : ∀ r ∈ full, r.length = w + 1 ∧ marked ScreenChar.isNul r = true
  text_eq : text = full.flatMap List.dropLast ++ cur
  fits : cur.length ≤ w
  take_eq : last.take cur.length = cur
  rest : ∀ c ∈ last.drop cur.length, c.isNul = true

variable {full : List (List ScreenChar)} {last cur : List ScreenChar}

theorem Holding.length_eq (hs : Holding max w h text full last cur x s) :
    text.length = full.length * w + cur.length := by
  rw [hs.text_eq, List.length_append, length_of_full fun r hr => (hs.rows r hr).1]

/-- The logical lines of marked rows, a row that is not marked, and blank rows. -/
theorem Shown.lines {done : List (List ScreenChar)} {row : List ScreenChar}
    (hs : Shown max w h done row x s) (hdone : ∀ r ∈ done, marked ScreenChar.isNul r = true)
    (hrow : marked ScreenChar.isNul row = false) :
    ∃ blank, s.rows = keptAbove max h done ++ row :: blank ∧
      (∀ row ∈ blank, ∀ c ∈ row, c.isNul = true) ∧
      logicalLines ScreenChar.isNul s.rows =
        (keptAbove max h done ++ [row]) :: logicalLines ScreenChar.isNul blank ∧
      lineText ScreenChar.isNul (keptAbove max h done ++ [row]) =
        (keptAbove max h done).flatMap List.dropLast ++ rowText ScreenChar.isNul row := by
  have hm := hs.max_pos
  obtain ⟨blank, hrows, -, hnul⟩ := (showsLast_concat (by omega)).mp hs.shows
  have hkept : ∀ r ∈ keptAbove max h done, marked ScreenChar.isNul r = true :=
    fun r hr => hdone r (List.mem_of_mem_drop hr)
  exact ⟨blank, hrows, hnul, by rw [hrows, logicalLines_line _ hkept hrow],
    lineText_line hkept row⟩

/-- The lengths: `r` full rows and `c` cells, then `m` cells from column `x` on that
fill `q` rows up to column `x'`; `k` rows and `e` cells are left of them. They are
the cells of both texts only when `x` is `c`. -/
theorem column_of_length {r q x x' c m M e k : Nat} (hw : x < w) (hx' : x' < w)
    (hq : x + m = q * w + x') (hfit : (r * w + c + m) / w + 1 ≤ M) (hk : k = min (r + q) (M - 1))
    (he : if q = 0 then x' ≤ e ∧ (e ≤ x' ∨ e ≤ c) else e = x') (hm : 0 < m)
    (heq : k * w + e = r * w + c + m) : x = c := by
  have hr : r ≤ (r * w + c + m) / w := by
    rw [Nat.le_div_iff_mul_le (by omega)]
    omega
  split at he
  · rename_i hq0
    subst hq0
    rw [Nat.min_eq_left (by omega), Nat.add_zero] at hk
    subst hk
    omega
  · subst he
    by_cases hall : r + q ≤ M - 1
    · rw [Nat.min_eq_left hall] at hk
      subst hk
      rw [Nat.add_mul] at heq
      omega
    · -- one row is gone: the cursor would have been a row behind the text
      rw [Nat.min_eq_right (by omega)] at hk
      have hle : (k + 1) * w ≤ (r + q) * w := Nat.mul_le_mul_right w (by omega)
      rw [Nat.add_mul, Nat.add_mul] at hle
      omega

/-- The row the cursor is in after cells have been printed: where its text ends. -/
theorem Holding.last_row (hs : Holding max w h text full last cur x s)
    (hx : x < w) (hcells : ∀ c ∈ cells, c.isNul = false) (hne : cells ≠ [])
    (hp : Printing max w h full last (last.take x ++ cells) s') :
    ∃ new row, Shown max w h (full ++ new) row ((x + cells.length) % w) s' ∧
      new.length = (x + cells.length) / w ∧
      (∀ r ∈ new, r.length = w + 1 ∧ marked ScreenChar.isNul r = true) ∧
      marked ScreenChar.isNul row = false ∧
      if new.length = 0 then
        (x + cells.length) % w ≤ (rowText ScreenChar.isNul row).length ∧
          ((rowText ScreenChar.isNul row).length ≤ (x + cells.length) % w ∨
            (rowText ScreenChar.isNul row).length ≤ cur.length)
      else (rowText ScreenChar.isNul row).length = (x + cells.length) % w := by
  have hlen : (last.take x ++ cells).length = x + cells.length := by
    rw [List.length_append, List.length_take, hs.shown.row_length]
    omega
  obtain ⟨new, row, htext, hnew, hfull, hsame, hnul, hshown⟩ := hp.position
  rw [hlen] at htext hnew hsame hnul hshown
  have hx' : (x + cells.length) % w < w := Nat.mod_lt _ (by omega)
  have hrow := hshown.row_length
  -- the last cell printed is the last one in front of the cursor
  have hlast : ∀ hne' : row.take ((x + cells.length) % w) ≠ [],
      ((row.take ((x + cells.length) % w)).getLast hne').isNul = false := by
    intro hne'
    have hget := congrArg List.getLast? htext
    rw [List.getLast?_append_of_ne_nil _ hne, List.getLast?_append_of_ne_nil _ hne',
      List.getLast?_eq_some_getLast hne, List.getLast?_eq_some_getLast hne'] at hget
    rw [← Option.some.inj hget]
    exact hcells _ (List.getLast_mem hne)
  refine ⟨new, row, hshown, hnew, hfull, ?_⟩
  by_cases hnil : new = []
  · -- from the first column on that neither text has reached, the row is as it was
    obtain ⟨j, hxj, hcj, hj⟩ : ∃ j, (x + cells.length) % w ≤ j ∧ cur.length ≤ j ∧
        (j = (x + cells.length) % w ∨ j = cur.length) := by
      by_cases hle : (x + cells.length) % w ≤ cur.length
      · exact ⟨cur.length, hle, Nat.le_refl _, Or.inr rfl⟩
      · exact ⟨(x + cells.length) % w, Nat.le_refl _, by omega, Or.inl rfl⟩
    have hrest : ∀ c ∈ row.drop j, c.isNul = true := by
      intro c hc
      rw [← Nat.add_sub_of_le hxj, ← List.drop_drop, hsame hnil, List.drop_drop,
        Nat.add_sub_of_le hxj, ← Nat.add_sub_of_le hcj, ← List.drop_drop] at hc
      exact hs.rest c (List.mem_of_mem_drop hc)
    have hfits := hs.fits
    obtain ⟨hmark, hlower, hupper⟩ := rowText_length hxj (by omega) hrest hlast
    simp only [hnil, List.length_nil, if_true]
    exact ⟨hmark, hlower, by omega⟩
  · obtain ⟨hmark, hlower, hupper⟩ := rowText_length (Nat.le_refl _) (by omega) (hnul hnil) hlast
    rw [if_neg (fun hc => hnil (List.length_eq_zero_iff.mp hc))]
    exact ⟨hmark, Nat.le_antisymm hupper hlower⟩

/-- The line that is read back has the length of both texts only when the cursor
stood at the end of the first. -/
theorem Holding.column_eq (hs : Holding max w h text full last cur x s) (hx : x < w)
    (hcells : ∀ c ∈ cells, c.isNul = false) (hne : cells ≠ [])
    (hp : Printing max w h full last (last.take x ++ cells) s')
    (hfit : ((text.length + cells.length) / w + 1 : Nat) ≤ max + h) {k : Nat}
    (hread : (logicalLines ScreenChar.isNul s'.rows).map (lineText ScreenChar.isNul) =
      (text ++ cells) :: List.replicate k []) : x = cur.length := by
  have hm := hs.shown.max_pos
  obtain ⟨new, row, hshown, hnew, hfull, hmark, hrow⟩ := hs.last_row hx hcells hne hp
  have hmarked : ∀ r ∈ full ++ new, r.length = w + 1 ∧ marked ScreenChar.isNul r = true := by
    intro r hr
    exact (List.mem_append.mp hr).elim (hs.rows r) (hfull r)
  obtain ⟨blank, -, -, hlines, hline⟩ := hshown.lines (fun r hr => (hmarked r hr).2) hmark
  rw [hlines, List.map_cons, hline] at hread
  have hlen := congrArg List.length (List.cons.inj hread).1
  have hkept : ∀ r ∈ keptAbove max h (full ++ new), r.length = w + 1 :=
    fun r hr => (hmarked r (List.mem_of_mem_drop hr)).1
  rw [List.length_append, List.length_append, hs.length_eq, length_of_full hkept] at hlen
  rw [hs.length_eq] at hfit
  refine column_of_length (M := (max + h).toNat) hx (Nat.mod_lt (x + cells.length) (by omega)) ?_
    (by omega) ?_ hrow (List.length_pos_iff.mpr hne) hlen
  · rw [hnew, Nat.mul_comm, Nat.div_add_mod]
  · rw [keptAbove, List.rtake, List.length_drop, List.length_append]
    omega

/-- At the end of the text the line goes on. -/
theorem Holding.continues (hs : Holding max w h text full last cur cur.length s)
    (hx : cur.length < w) (htext : ∀ c ∈ text, c.isNul = false)
    (hcells : ∀ c ∈ cells, c.isNul = false)
    (hp : Printing max w h full last (last.take cur.length ++ cells) s')
    (hfit : ((text.length + cells.length) / w + 1 : Nat) ≤ max + h) :
    ∃ k, (logicalLines ScreenChar.isNul s'.rows).map (lineText ScreenChar.isNul) =
      (text ++ cells) :: List.replicate k [] := by
  have htail : ∀ c ∈ last.drop (last.take cur.length ++ cells).length, c.isNul = true := by
    intro c hc
    rw [hs.take_eq, List.length_append, ← List.drop_drop] at hc
    exact hs.rest c (List.mem_of_mem_drop hc)
  obtain ⟨new, row, x', hshown, hprints⟩ := hp.prints htail
  rw [hs.take_eq] at hprints
  have hall := Prints.of_full hs.rows hprints
  rw [← List.append_assoc, ← hs.text_eq] at hall
  have hrows : (full ++ (new ++ [row])).length = (text.length + cells.length) / w + 1 := by
    rw [hall.length (by omega), List.length_append]
  obtain ⟨blank, hshows, -, hnul⟩ := hshown.shows
  have hkept : ((full ++ new) ++ [row]).rtake (max + h).toNat = full ++ (new ++ [row]) := by
    rw [List.rtake, List.append_assoc, Nat.sub_eq_zero_of_le (by omega), List.drop_zero]
  have hnonul : ∀ c ∈ text ++ cells, c.isNul = false := by
    intro c hc
    exact (List.mem_append.mp hc).elim (htext c) (hcells c)
  obtain ⟨hlines, hline⟩ := hall.read hnonul blank
  exact ⟨blank.length, by rw [hshows, hkept, hlines, List.map_cons, hline, lineText_blank hnul]⟩

/-! ## The resize -/

theorem Printing.holding {tail : List ScreenChar} (hp : Printing max w h [] tail text s)
    (htail : ∀ c ∈ tail, c.isNul = true) :
    ∃ full row, Holding max w h text full row (row.take (text.length % w)) (text.length % w) s ∧
      full.length = text.length / w := by
  obtain ⟨full, row, htext, hdiv, hfull, hsame, hnul, hs⟩ := hp.position
  rw [List.nil_append] at hs
  have hw := hs.wf.width_pos
  rw [hs.width_eq] at hw
  have hx : text.length % w < w := Nat.mod_lt _ (by omega)
  have hlen : (row.take (text.length % w)).length = text.length % w := by
    rw [List.length_take, hs.row_length]
    omega
  refine ⟨full, row, ⟨hs, hfull, htext, by omega, by rw [hlen], ?_⟩, hdiv⟩
  rw [hlen]
  by_cases hnil : full = []
  · rw [hsame hnil]
    exact fun c hc => htail c (List.mem_of_mem_drop hc)
  · exact hnul hnil

theorem Shown.keptRows_eq {done : List (List ScreenChar)} {row : List ScreenChar}
    (hs : Shown max w h done row x s) : s.keptRows = keptAbove max h done ++ [row] := by
  have hm := hs.max_pos
  obtain ⟨blank, hrows, -, hnul⟩ := (showsLast_concat (by omega)).mp hs.shows
  have hcursor : s.rowsToCursor = (keptAbove max h done ++ [row]).length := by
    rw [rowsToCursor, hs.cursor_index, List.length_append, List.length_singleton]
    omega
  have hblank : blank.rdropWhile isBlankRow = [] := by
    refine List.rdropWhile_eq_nil_iff.mpr fun row' hrow' => ?_
    exact List.all_eq_true.mpr fun c hc => hnul row' hrow' c (List.dropLast_subset row' hc)
  rw [keptRows, hcursor, hrows, List.append_cons (keptAbove max h done) row blank, List.take_left,
    List.drop_left, hblank, List.append_nil]

/-- The rows produced by a resize are shown, with the cursor in the last of them. -/
theorem Resized.shown {w' h' : Nat} {done done' : List (List ScreenChar)}
    {row row' : List ScreenChar} (hr : s.Resized w' h' (done' ++ [row']) s')
    (hs : Shown max w h done row x s) (hlen : row'.length = w' + 1) (hw' : 0 < w') :
    Shown max w' h' done' row' (if x < w' then x else w' - 1) s' := by
  have hcount := hr.count_eq
  have htop := hr.top_eq
  have hy := hr.cursorY_eq
  have hshows := hr.shows
  rw [hs.max_eq, List.length_append, List.length_singleton] at hcount htop
  rw [List.length_append, List.length_singleton] at hy
  rw [hs.max_eq] at hshows
  refine {
    wf := hr.wf, width_eq := hr.width_eq, height_eq := hr.height_eq
    max_eq := hr.max_eq.trans hs.max_eq, margins := hr.margins
    charset_eq := hr.charset_eq.trans hs.charset_eq, print_eq := hr.print_eq.trans hs.print_eq
    count_eq := hcount, top_eq := htop, cursorX_eq := ?_, cursorY_eq := hy, row_length := hlen
    shows := hshows }
  rw [hr.cursorX_eq, hs.cursorX_eq]
  split <;> omega

theorem Holding.resizes (hs : Holding max w h text full last cur x s) (hx : cur.length < w)
    (hne : text ≠ []) (htext : ∀ c ∈ text, c.isNul = false)
    (hfit : ((full.length + 1 : Nat) : Int) ≤ max + h) (t : Terminal) {w' h' : Nat}
    (hw' : 0 < w') (hh' : 0 < h') (hsize : ¬((w' : Int) = s.width ∧ (h' : Int) = s.height)) :
    ∃ s' full' last' cur', s.resizeWidth t w' h' = .ok s' ∧
      Holding max w' h' text full' last' cur' (if x < w' then x else w' - 1) s' ∧
      (w = w' → cur' = cur) ∧ (w ≠ w' → cur' ≠ []) := by
  have hshown := hs.shown
  have hm := hshown.max_pos
  have hlen := hshown.row_length
  obtain ⟨hmark, hrow⟩ := rowText_of_rest (by omega) hs.rest
  obtain ⟨blank, hrows, hnul, hlines, hline⟩ := hshown.lines (fun r hr => (hs.rows r hr).2) hmark
  have hkept : keptAbove max h full = full := by
    rw [keptAbove, List.rtake, Nat.sub_eq_zero_of_le (by omega), List.drop_zero]
  have hclosed : Closed ScreenChar.isNul s.rows := by
    intro row hlast
    rw [hrows, List.getLast?_append_of_ne_nil _ (by simp)] at hlast
    rcases List.mem_cons.mp (List.mem_of_getLast? hlast) with rfl | hmem
    · exact hmark
    · exact marked_of_nul (hnul row hmem)
  obtain ⟨s', out, hok, hout, hres⟩ := resizeWidth_spec t hshown.wf hshown.cursor_range.1
    hshown.cursor_range.2 hclosed hw' hh' hsize
  rw [hkept] at hlines hline
  have hkeptRows := hshown.keptRows_eq
  rw [hkept] at hkeptRows
  by_cases hsame : w = w'
  · subst hsame
    obtain rfl := (hout.same hshown.width_eq).trans hkeptRows
    exact ⟨s', full, last, cur, hok, ⟨hres.shown hshown hlen hw', hs.rows, hs.text_eq, hs.fits,
      hs.take_eq, hs.rest⟩, fun _ => rfl, fun hne => absurd rfl hne⟩
  · obtain ⟨new, rfl, hnew⟩ := hout.other (by rw [hshown.width_eq]; omega)
    have htexts : (linesBefore s.keptRows.length (logicalLines ScreenChar.isNul s.rows)).map
        (lineText ScreenChar.isNul) = [text] := by
      have hcur : cur.rdropWhile ScreenChar.isNul = cur := by
        refine List.rdropWhile_eq_self_iff.mpr fun hne' => ?_
        have hmem : cur.getLast hne' ∈ text := by
          rw [hs.text_eq]
          exact List.mem_append_right _ (List.getLast_mem hne')
        simp [htext _ hmem]
      rw [hkeptRows, hlines, linesBefore_cons (by simp), Nat.sub_self, linesBefore_zero,
        List.map_singleton, hline, hrow, hs.take_eq, hcur, ← hs.text_eq]
    rw [htexts] at hnew
    cases hnew with
    | cons hout' hnil =>
        cases hnil
        obtain ⟨full', last', cur', hrows', htext', hfull', hlen', hne', hfits, htake, hrest⟩ :=
          hout'.shape hne
        rw [List.flatten_singleton, hrows'] at hres
        exact ⟨s', full', last', cur', hok, ⟨hres.shown hshown hlen' hw', hfull', htext', hfits,
          htake, hrest⟩, fun h' => absurd h' hsame, fun _ => hne'⟩

/-- What is printed continues the line exactly when the cursor stood at its end. -/
theorem Holding.continues_iff (hs : Holding max w h text full last cur x s) (hx : x < w)
    (htext : ∀ c ∈ text, c.isNul = false) (hcells : ∀ c ∈ cells, c.isNul = false)
    (hne : cells ≠ []) (hp : Printing max w h full last (last.take x ++ cells) s')
    (hfit : ((text.length + cells.length) / w + 1 : Nat) ≤ max + h) :
    (∃ k, (logicalLines ScreenChar.isNul s'.rows).map (lineText ScreenChar.isNul) =
      (text ++ cells) :: List.replicate k []) ↔ x = cur.length := by
  constructor
  · rintro ⟨k, hread⟩
    exact hs.column_eq hx hcells hne hp hfit hread
  · rintro rfl
    exact hs.continues hx htext hcells hp hfit

end Screen

namespace VT100

variable {F : Foundation} {t : Terminal} {v : VT100} {max : Int} {w h : Nat}
  {out : List (List ScreenChar)} {tail text : List ScreenChar}

/-- A call of `readInputStream:` with a text of printable characters. -/
theorem AtRest.print (hF : F.AsciiExact) (hv : AtRest t v) (ht : t.charset = 0)
    (hp : v.screen.Printing max w h out tail text) {line : List UInt8}
    (hline : ∀ b ∈ line, IsPrintable b) :
    ∃ v', v.readInputStream F line = .ok v' ∧ AtRest t v' ∧
      v'.screen.Printing max w h out tail (text ++ line.map t.printed) := by
  obtain ⟨v₁, h₁, hv₁⟩ := hv.put ht hp line
  have hlen := congrArg List.length hv₁.pending_eq
  rw [← List.append_nil line] at hv₁
  obtain ⟨v₂, fuel, h₂, -, hv₂⟩ := hv₁.loopText hF hline (by simp) (Nat.le_refl _)
  obtain ⟨v₃, h₃, hv₃⟩ := hv₂.loopEnd (F := F) fuel
  rw [List.append_nil] at h₂
  exact ⟨v₃, by rw [readInputStream, h₁, ok_bind, hlen, h₂, h₃],
    ⟨hv₃.wf, hv₃.modes, hv₃.pending_eq⟩, hv₃.printing⟩

/-- The rows of the object after both texts, when they are read back. -/
def Continues (t : Terminal) (line line' : List UInt8) (rows : List (List ScreenChar)) : Prop :=
  ∃ k, (logicalLines ScreenChar.isNul rows).map (lineText ScreenChar.isNul) =
    (line ++ line').map t.printed :: List.replicate k []

theorem setScreenSize_holding {x : Nat} {full : List (List ScreenChar)}
    {last cur : List ScreenChar} (hs : v.screen.Holding max w h text full last cur x)
    (hx : cur.length < w) (hne : text ≠ []) (htext : ∀ c ∈ text, c.isNul = false)
    (hfit : ((full.length + 1 : Nat) : Int) ≤ max + h) {w' h' : Nat} (hw' : 0 < w')
    (hh' : 0 < h') (hxw : x < w) :
    ∃ s' full' last' cur', v.setScreenSize w' h' = .ok { v with screen := s' } ∧
      s'.Holding max w' h' text full' last' cur' (if x < w' then x else w' - 1) ∧
      (w = w' → cur' = cur) ∧ (w ≠ w' → cur' ≠ []) := by
  by_cases hsize : (w' : Int) = v.screen.width ∧ (h' : Int) = v.screen.height
  · have hw := hs.shown.width_eq
    have hh := hs.shown.height_eq
    obtain rfl : w' = w := by omega
    obtain rfl : h' = h := by omega
    rw [if_pos hxw]
    refine ⟨v.screen, full, last, cur, ?_, hs, fun _ => rfl, fun hne => absurd rfl hne⟩
    rw [setScreenSize, Screen.resizeWidth, if_pos (Or.inr (Or.inr hsize))]
    rfl
  · obtain ⟨s', full', last', cur', hok, hs'⟩ :=
      hs.resizes hx hne htext hfit v.terminal hw' hh' hsize
    exact ⟨s', full', last', cur', by rw [setScreenSize, hok]; rfl, hs'⟩

section

variable {w₁ h₁ w₂ h₂ : Nat} (line line' : List UInt8)

/-- The two texts with the resize between them: `c` cells of the first are in its
last row after the resize. -/
theorem print_resize_print (hF : F.AsciiExact) (fresh : ScreenChar) (hw₁ : 1 ≤ w₁) (hh₁ : 1 ≤ h₁)
    (hw₂ : 1 ≤ w₂) (hh₂ : 1 ≤ h₂) (hne : line ≠ []) (hne' : line' ≠ [])
    (hline : ∀ b ∈ line, IsPrintable b) (hline' : ∀ b ∈ line', IsPrintable b)
    (hfit₁ : ((line.length / w₁ + 1 : Nat) : Int) ≤ defaultScrollback + h₁)
    (hfit₂ : (((line.length + line'.length) / w₂ + 1 : Nat) : Int) ≤ defaultScrollback + h₂) :
    ∃ v₀ v₁ v₂ v₃ v₄ rows r c, VT100.init fresh = .ok v₀ ∧ v₀.setScreenSize w₁ h₁ = .ok v₁ ∧
      v₁.readInputStream F line = .ok v₂ ∧ v₂.setScreenSize w₂ h₂ = .ok v₃ ∧
      v₃.readInputStream F line' = .ok v₄ ∧ v₄.readRows = .ok rows ∧
      line.length = r * w₂ + c ∧ c ≤ w₂ ∧ (w₁ = w₂ → c = line.length % w₁) ∧ (w₁ ≠ w₂ → 0 < c) ∧
      (Continues v₁.terminal line line' rows ↔ min (line.length % w₁) (w₂ - 1) = c) := by
  obtain ⟨v₀, v₁, h₀, h₁', ht, hs₁⟩ := sized_fresh fresh hw₁ hh₁
  obtain ⟨row, hshown, hnul⟩ := hs₁.shown hh₁
  have hrest : AtRest v₁.terminal v₁ := ⟨ht ▸ { Terminal.init_wf with }, .refl _, by rw [ht]; rfl⟩
  have hascii : v₁.terminal.charset = 0 := by rw [ht]; rfl
  have hstart : v₁.screen.Printing defaultScrollback w₁ h₁ [] row [] := by
    simpa using Screen.Printing.start hshown hw₁
  obtain ⟨v₂, hread₁, hrest₂, hp₂⟩ := hrest.print hF hascii hstart hline
  rw [List.nil_append] at hp₂
  obtain ⟨full, last, hhold, hrows⟩ := hp₂.holding hnul
  rw [List.length_map] at hrows
  have hlen : (line.map v₁.terminal.printed).length = line.length := List.length_map _
  have hnonul : ∀ l : List UInt8, (∀ b ∈ l, IsPrintable b) →
      ∀ c ∈ l.map v₁.terminal.printed, c.isNul = false := by
    intro l hl c hc
    obtain ⟨b, hb, rfl⟩ := List.mem_map.mp hc
    exact printed_not_nul _ (hl b hb)
  have hx : line.length % w₁ < w₁ := Nat.mod_lt _ (by omega)
  have hcur : (last.take ((line.map v₁.terminal.printed).length % w₁)).length =
      line.length % w₁ := by
    rw [hlen, List.length_take, hhold.shown.row_length]
    omega
  obtain ⟨s₃, full', last', cur', hok₃, hhold₃, hsame, hother⟩ := setScreenSize_holding hhold
    (by omega) (by simpa using hne) (hnonul line hline) (by omega) hw₂ hh₂ (by rw [hlen]; exact hx)
  obtain ⟨v₄, hread₂, -, hp₄⟩ := AtRest.print (v := { v₂ with screen := s₃ }) hF
    ⟨hrest₂.wf, hrest₂.modes, hrest₂.pending_eq⟩ hascii
    (Screen.Printing.start hhold₃.shown (by split <;> omega)) hline'
  have hiff := hhold₃.continues_iff (by split <;> omega) (hnonul line hline)
    (hnonul line' hline') (by simpa using hne') hp₄ (by simpa using hfit₂)
  have hwf : v₄.screen.Wf := by
    obtain ⟨_, _, _, -, -, -, -, -, hs⟩ := hp₄
    exact hs.wf
  refine ⟨v₀, v₁, v₂, _, v₄, v₄.screen.rows, full'.length, cur'.length, h₀, h₁', hread₁, hok₃,
    hread₂, readRows_eq hwf, ?_, hhold₃.fits, ?_, ?_, ?_⟩
  · rw [← hlen]
    exact hhold₃.length_eq
  · intro hw
    rw [hsame hw, hcur]
  · exact fun hw => List.length_pos_iff.mpr (hother hw)
  · rw [Continues, List.map_append, hiff, hlen]
    split <;> omega

/-- Output goes on where it stopped exactly when the width stays the same or the column that
is kept is the one the text ends at in its new rows. The kept column is the old one, at
most the last of the new width; the resize does not compute another. A text that ends with
a full row in the new width has no column to go on at. -/
theorem continues_after_resize_iff (hF : F.AsciiExact) (fresh : ScreenChar) (hw₁ : 1 ≤ w₁)
    (hh₁ : 1 ≤ h₁) (hw₂ : 1 ≤ w₂) (hh₂ : 1 ≤ h₂) (hne : line ≠ []) (hne' : line' ≠ [])
    (hline : ∀ b ∈ line, IsPrintable b) (hline' : ∀ b ∈ line', IsPrintable b)
    (hfit₁ : ((line.length / w₁ + 1 : Nat) : Int) ≤ defaultScrollback + h₁)
    (hfit₂ : (((line.length + line'.length) / w₂ + 1 : Nat) : Int) ≤ defaultScrollback + h₂) :
    ∃ v₀ v₁ v₂ v₃ v₄ rows, VT100.init fresh = .ok v₀ ∧ v₀.setScreenSize w₁ h₁ = .ok v₁ ∧
      v₁.readInputStream F line = .ok v₂ ∧ v₂.setScreenSize w₂ h₂ = .ok v₃ ∧
      v₃.readInputStream F line' = .ok v₄ ∧ v₄.readRows = .ok rows ∧
      (Continues v₁.terminal line line' rows ↔ w₁ = w₂ ∨
        line.length % w₂ ≠ 0 ∧ min (line.length % w₁) (w₂ - 1) = line.length % w₂) := by
  obtain ⟨v₀, v₁, v₂, v₃, v₄, rows, r, c, h₀, h₁', hr₁, h₂', hr₂, hrows, hlen, hc, hsame, hother,
    hiff⟩ := print_resize_print line line' hF fresh hw₁ hh₁ hw₂ hh₂ hne hne' hline hline' hfit₁
    hfit₂
  refine ⟨v₀, v₁, v₂, v₃, v₄, rows, h₀, h₁', hr₁, h₂', hr₂, hrows, hiff.trans ?_⟩
  by_cases hw : w₁ = w₂
  · have hx : line.length % w₁ < w₁ := Nat.mod_lt _ (by omega)
    simp only [hw, true_or, iff_true]
    rw [hsame hw, ← hw]
    omega
  · have hpos := hother hw
    simp only [hw, false_or]
    by_cases hfull : c = w₂
    · have hmod : line.length % w₂ = 0 := by rw [hlen, hfull, Nat.mul_add_mod', Nat.mod_self]
      simp only [hmod, ne_eq, not_true_eq_false, false_and, iff_false]
      omega
    · have hmod : line.length % w₂ = c := by rw [hlen, Nat.mul_add_mod_of_lt (by omega)]
      rw [hmod]
      omega

end

/-- `abcde` on four columns, then `x` on two: the first text ends in the column
that is kept. -/
theorem abcde_continues : ∃ v₀ v₁ v₂ v₃ v₄ rows, VT100.init ⟨0, 0, 0⟩ = .ok v₀ ∧
    v₀.setScreenSize (4 : Nat) (2 : Nat) = .ok v₁ ∧
    v₁.readInputStream Foundation.latin1 [0x61, 0x62, 0x63, 0x64, 0x65] = .ok v₂ ∧
    v₂.setScreenSize (2 : Nat) (2 : Nat) = .ok v₃ ∧
    v₃.readInputStream Foundation.latin1 [0x78] = .ok v₄ ∧ v₄.readRows = .ok rows ∧
    Continues v₁.terminal [0x61, 0x62, 0x63, 0x64, 0x65] [0x78] rows := by
  obtain ⟨v₀, v₁, v₂, v₃, v₄, rows, h₀, h₁, hr₁, h₂, hr₂, hrows, hiff⟩ :=
    continues_after_resize_iff [0x61, 0x62, 0x63, 0x64, 0x65] [0x78]
      Foundation.latin1_asciiExact ⟨0, 0, 0⟩ (by decide : 1 ≤ 4)
      (by decide : 1 ≤ 2) (by decide : 1 ≤ 2) (by decide : 1 ≤ 2) (by decide) (by decide)
      (by simp [IsPrintable]) (by simp [IsPrintable]) (by decide) (by decide)
  exact ⟨v₀, v₁, v₂, v₃, v₄, rows, h₀, h₁, hr₁, h₂, hr₂, hrows, hiff.mpr (by decide)⟩

/-- `abcde` on four columns, then `x` on three: the `e` is overwritten. -/
theorem abcde_overwritten : ∃ v₀ v₁ v₂ v₃ v₄ rows, VT100.init ⟨0, 0, 0⟩ = .ok v₀ ∧
    v₀.setScreenSize (4 : Nat) (2 : Nat) = .ok v₁ ∧
    v₁.readInputStream Foundation.latin1 [0x61, 0x62, 0x63, 0x64, 0x65] = .ok v₂ ∧
    v₂.setScreenSize (3 : Nat) (2 : Nat) = .ok v₃ ∧
    v₃.readInputStream Foundation.latin1 [0x78] = .ok v₄ ∧ v₄.readRows = .ok rows ∧
    ¬Continues v₁.terminal [0x61, 0x62, 0x63, 0x64, 0x65] [0x78] rows := by
  obtain ⟨v₀, v₁, v₂, v₃, v₄, rows, r, c, h₀, h₁, hr₁, h₂, hr₂, hrows, hlen, hc, -, hpos, hiff⟩ :=
    print_resize_print [0x61, 0x62, 0x63, 0x64, 0x65] [0x78]
      Foundation.latin1_asciiExact ⟨0, 0, 0⟩ (by decide : 1 ≤ 4)
      (by decide : 1 ≤ 2) (by decide : 1 ≤ 3) (by decide : 1 ≤ 2) (by decide) (by decide)
      (by simp [IsPrintable]) (by simp [IsPrintable]) (by decide) (by decide)
  refine ⟨v₀, v₁, v₂, v₃, v₄, rows, h₀, h₁, hr₁, h₂, hr₂, hrows, fun hcont => ?_⟩
  have hcol : 1 = c := hiff.mp hcont
  have hfive : 5 = r * 3 + c := hlen
  omega

end VT100

end MobileTerminal
