import MobileTerminal.RowText
import MobileTerminal.Sequence

/-!
# Copying a selection

`fillDataWithSelection:` of `VT100TextView.m` copies the text between the two
ends of a selection. It exchanges the ends when the start has the larger column
and the larger row, while the loop over the rows needs them in reading order. So
a selection from right below to left above is copied and one from left below to
right above is not (`selects_iff`).

Positions are compared by their place, the number of cells before them when the
rows are read one after the other, and `textBetween` is the text between two
places. With the ends in reading order the loop copies exactly that, row by row,
as long as the part it takes from each row fits into its buffer; `reached` is
how far it has come before a row, and the invariant of the loop. With the ends
the wrong way round it copies nothing.

`Copyable` is the condition under which both directions of a selection append
the text between its ends: the rows fit into the buffer, the text can be
encoded, and the later end does not stand further to the left than the earlier
one, unless nothing is between.
-/

namespace MobileTerminal

/-! ## UTF-8 -/

def isHighSurrogate (u : UniChar) : Bool := 0xd800 ≤ u && u ≤ 0xdbff

def isLowSurrogate (u : UniChar) : Bool := 0xdc00 ≤ u && u ≤ 0xdfff

/-- `dataUsingEncoding:NSUTF8StringEncoding`: `nil` for a surrogate that stands alone. -/
def utf8Data : List UniChar → Option (List UInt8)
  | [] => some []
  | [u] =>
      if isHighSurrogate u || isLowSurrogate u then none
      else some (String.utf8EncodeChar (Char.ofNat u.toNat))
  | u :: l :: us =>
      if isHighSurrogate u then
        if isLowSurrogate l then do
          let more ← utf8Data us
          some (String.utf8EncodeChar (Char.ofNat
            (0x10000 + (u.toNat - 0xd800) * 0x400 + (l.toNat - 0xdc00))) ++ more)
        else none
      else if isLowSurrogate u then none
      else do
        let more ← utf8Data (l :: us)
        some (String.utf8EncodeChar (Char.ofNat u.toNat) ++ more)

theorem utf8Data_ne_nil {us : List UniChar} (h : us ≠ []) : utf8Data us ≠ some [] := by
  rcases us with - | ⟨u, - | ⟨l, us⟩⟩
  · exact absurd rfl h
  · simp only [utf8Data]
    split
    · simp
    · simp [String.utf8EncodeChar_ne_nil]
  · simp only [utf8Data]
    split
    · split
      · cases utf8Data us with
        | none => simp
        | some more => simp [String.utf8EncodeChar_ne_nil]
      · simp
    · split
      · simp
      · cases utf8Data (l :: us) with
        | none => simp
        | some more => simp [String.utf8EncodeChar_ne_nil]

/-! ## The copy -/

namespace VT100

/-- The `while` loop over the rows. -/
def selectionText (startPos endPos : ScreenPosition) (v : VT100) : Res (List UniChar) :=
  forUp (fun currentY s => do
    let startX := if currentY = startPos.y then startPos.x else 0
    let endX := if currentY = endPos.y then endPos.x else v.screen.width
    let width := endX - startX
    if width > 0 then do
      let row ← v.bufferForRow currentY
      let text ← fillBuffer v.screen.bufferLines (row + startX) width.toNat
      .ok (s ++ text)
    else .ok s) startPos.y (endPos.y + 1 - startPos.y).toNat []

/-- `fillDataWithSelection:`. Nothing is appended for `nil`. -/
def fillDataWithSelection (selectionStart selectionEnd : ScreenPosition) (data : List UInt8)
    (v : VT100) : Res (List UInt8) := do
  let s ← (if selectionStart.x ≥ selectionEnd.x ∧ selectionStart.y ≥ selectionEnd.y then
      v.selectionText selectionEnd selectionStart
    else v.selectionText selectionStart selectionEnd)
  .ok (data ++ (utf8Data s).getD [])

end VT100

/-! ## Reading order

A place is the number of cells before a position. The text between two places
does not depend on where its rows begin and end. -/

namespace Screen

/-- A position on the screen or in the scrollback; the column may be behind the last one. -/
structure OnRows (s : Screen) (p : ScreenPosition) : Prop where
  column : 0 ≤ p.x ∧ p.x ≤ s.width
  row : 0 ≤ p.y ∧ p.y < s.numberOfLines

/-- The number of cells before a position, row by row. -/
def place (s : Screen) (p : ScreenPosition) : Nat := (p.y * s.width + p.x).toNat

/-- Cell number `k` in reading order. -/
def placedCell (s : Screen) (k : Nat) : ScreenChar :=
  s.cellAt ((k / s.width.toNat : Nat) : Int) ((k % s.width.toNat : Nat) : Int)

/-- The characters shown by the cells number `i` to `j - 1`. -/
def textBetween (s : Screen) (i j : Nat) : List UniChar :=
  (List.range' i (j - i)).map fun k => (s.placedCell k).shown

/-- The text between two positions, from the earlier to the later one. -/
def selectedText (s : Screen) (p q : ScreenPosition) : List UniChar :=
  s.textBetween (min (s.place p) (s.place q)) (max (s.place p) (s.place q))

variable {s : Screen}

theorem textBetween_append {i j k : Nat} (hij : i ≤ j) (hjk : j ≤ k) :
    s.textBetween i j ++ s.textBetween j k = s.textBetween i k := by
  obtain ⟨m, rfl⟩ := Nat.exists_eq_add_of_le hij
  obtain ⟨n, rfl⟩ := Nat.exists_eq_add_of_le hjk
  rw [textBetween, textBetween, textBetween, ← List.map_append, Nat.add_sub_cancel_left,
    Nat.add_sub_cancel_left, Nat.add_assoc, Nat.add_sub_cancel_left, List.range'_append_1]

theorem textBetween_row (hw : 1 ≤ s.width) {y x : Int} {n : Nat} (hy : 0 ≤ y) (hx : 0 ≤ x)
    (hn : x + n ≤ s.width) :
    s.textBetween (s.place ⟨x, y⟩) (s.place ⟨x, y⟩ + n) =
      (List.range n).map fun (k : Nat) => (s.cellAt y (x + k)).shown := by
  obtain ⟨w, hw'⟩ := Int.eq_ofNat_of_zero_le (show 0 ≤ s.width by omega)
  obtain ⟨y, rfl⟩ := Int.eq_ofNat_of_zero_le hy
  obtain ⟨x, rfl⟩ := Int.eq_ofNat_of_zero_le hx
  have hplace : s.place ⟨x, y⟩ = x + y * w := by
    simp only [place, hw']
    rw [← Int.natCast_mul, ← Int.natCast_add, Int.toNat_natCast, Nat.add_comm]
  rw [hplace, textBetween, Nat.add_sub_cancel_left, List.range'_eq_map_range, List.map_map]
  refine List.map_congr_left fun k hk => ?_
  have hlt : x + k < w := by
    have := List.mem_range.mp hk
    omega
  have hdiv : (x + y * w + k) / w = y := by
    rw [show x + y * w + k = x + k + y * w by omega, Nat.add_mul_div_right _ _ (by omega),
      Nat.div_eq_of_lt hlt, Nat.zero_add]
  have hmod : (x + y * w + k) % w = x + k := by
    rw [show x + y * w + k = x + k + y * w by omega, Nat.add_mul_mod_self_right,
      Nat.mod_eq_of_lt hlt]
  simp only [Function.comp, placedCell, hw', Int.toNat_natCast, hdiv, hmod, Int.natCast_add]

end Screen

/-! ## The loop -/

/-- The cells of row `y` that the selection takes. -/
def rowSpan (width : Int) (a b : ScreenPosition) (y : Int) : Int :=
  (if y = b.y then b.x else width) - (if y = a.y then a.x else 0)

/-- Each row's part of the selection fits into the buffer. -/
def RowsFit (width : Int) (a b : ScreenPosition) : Prop :=
  ∀ y, a.y ≤ y → y ≤ b.y → rowSpan width a b y ≤ kMaxRowBufferSize

/-- Reading order. -/
def Before (p q : ScreenPosition) : Prop := p.y < q.y ∨ p.y = q.y ∧ p.x ≤ q.x

instance (p q : ScreenPosition) : Decidable (Before p q) :=
  inferInstanceAs (Decidable (_ ∨ _))

namespace VT100

variable {v : VT100} {a b : ScreenPosition}

/-- A loop that completes has found room for every row. -/
theorem selectionText_fits {text : List UniChar} (hok : v.selectionText a b = .ok text) :
    RowsFit v.screen.width a b := by
  have hmax : (0 : Int) ≤ kMaxRowBufferSize := by decide
  intro y hy hy'
  have hinv := forUp_inv (P := fun i (_ : List UniChar) =>
    ∀ y, a.y ≤ y → y < i → rowSpan v.screen.width a b y ≤ kMaxRowBufferSize) ?_ ?_ hok
  · exact hinv y hy (by omega)
  · intro i s s' hi hi' hinv hround y hy hyi
    by_cases heq : y = i
    · subst heq
      by_cases hpos : rowSpan v.screen.width a b y > 0
      · have hround := (if_pos hpos).symm.trans hround
        obtain ⟨row, -, hround⟩ := bind_eq_ok.mp hround
        obtain ⟨t, hfill, -⟩ := bind_eq_ok.mp hround
        have hle : ((rowSpan v.screen.width a b y).toNat : Int) ≤ kMaxRowBufferSize :=
          fillBuffer_le hfill
        omega
      · omega
    · exact hinv y hy (by omega)
  · intro y hy hy'
    omega

/-- With the ends the wrong way round there are no rows. -/
theorem selectionText_backwards (h : b.y < a.y) : v.selectionText a b = .ok [] := by
  rw [selectionText, show (b.y + 1 - a.y).toNat = 0 by omega]
  rfl

theorem place_row_le {w y y' : Int} (hw : 0 ≤ w) (hy : y < y') : y * w + w ≤ y' * w := by
  have hle : (y + 1) * w ≤ y' * w := Int.mul_le_mul_of_nonneg_right (by omega) hw
  rwa [Int.add_mul, Int.one_mul] at hle

theorem place_le_of_before {s : Screen} (hw : 1 ≤ s.width) (ha : s.OnRows a) (hb : s.OnRows b)
    (hab : Before a b) : s.place a ≤ s.place b := by
  obtain ⟨⟨hax, hax'⟩, hay, -⟩ := ha
  obtain ⟨⟨hbx, hbx'⟩, -, -⟩ := hb
  simp only [Screen.place]
  rcases hab with hlt | ⟨heq, hx⟩
  · have hle := place_row_le (w := s.width) (by omega) hlt
    omega
  · rw [heq]
    omega

/-- How far the text has been copied before row `y`: up to the start of that row, but from
the start of the selection on and no further than to its end. -/
def reached (s : Screen) (a b : ScreenPosition) (y : Int) : Nat :=
  if y ≤ a.y then s.place a else if y ≤ b.y then s.place ⟨0, y⟩ else s.place b

theorem reached_first {s : Screen} : reached s a b a.y = s.place a := if_pos (Int.le_refl a.y)

theorem reached_last {s : Screen} (hle : a.y ≤ b.y) : reached s a b (b.y + 1) = s.place b := by
  rw [reached, if_neg (by omega), if_neg (by omega)]

/-- Row `y` starts where the rows before it have ended. -/
theorem reached_start {s : Screen} {y : Int} (hy : a.y ≤ y) (hy' : y ≤ b.y) :
    s.place ⟨if y = a.y then a.x else 0, y⟩ = reached s a b y := by
  by_cases hfirst : y = a.y
  · rw [if_pos hfirst, hfirst, reached_first]
  · rw [if_neg hfirst, reached, if_neg (by omega), if_pos hy']

theorem reached_next {s : Screen} (ha : s.OnRows a) (hb : s.OnRows b) (hab : Before a b)
    {y : Int} (hy : a.y ≤ y) (hy' : y ≤ b.y) :
    reached s a b (y + 1) = reached s a b y + (rowSpan s.width a b y).toNat := by
  obtain ⟨⟨hax, hax'⟩, hay, -⟩ := ha
  obtain ⟨⟨hbx, hbx'⟩, -, -⟩ := hb
  have hrow : 0 ≤ y * s.width := Int.mul_nonneg (by omega) (by omega)
  have hsucc : (y + 1) * s.width = y * s.width + s.width := by rw [Int.add_mul, Int.one_mul]
  have hx : y = a.y → y = b.y → a.x ≤ b.x := by
    intro hfirst hlast
    rcases hab with hlt | ⟨-, hx⟩
    · omega
    · exact hx
  rw [← reached_start hy hy']
  by_cases hlast : y = b.y
  · rw [hlast, reached_last (by omega), ← hlast]
    simp only [Screen.place, rowSpan, ← hlast, if_true]
    by_cases hfirst : y = a.y
    · have hx := hx hfirst hlast
      rw [if_pos hfirst]
      omega
    · rw [if_neg hfirst]
      omega
  · rw [reached, if_neg (by omega), if_pos (by omega)]
    simp only [Screen.place, rowSpan, if_neg hlast, hsucc]
    by_cases hfirst : y = a.y
    · rw [if_pos hfirst]
      omega
    · rw [if_neg hfirst]
      omega

theorem place_le_reached {s : Screen} (hw : 1 ≤ s.width) (ha : s.OnRows a) (hb : s.OnRows b)
    {y : Int} (hy : a.y ≤ y) (hy' : y ≤ b.y) : s.place a ≤ reached s a b y := by
  by_cases hfirst : y = a.y
  · rw [hfirst, reached_first]
  · rw [reached, if_neg (by omega), if_pos hy']
    have hwidth : (0 : Int) ≤ s.width := by omega
    have hrow : s.OnRows ⟨0, y⟩ := ⟨⟨Int.le_refl 0, hwidth⟩, Int.le_trans ha.row.1 hy,
      Int.lt_of_le_of_lt hy' hb.row.2⟩
    exact place_le_of_before hw ha hrow (Or.inl (show a.y < y by omega))

/-- The loop copies the text between the ends. -/
theorem selectionText_eq (h : v.screen.Wf) (ha : v.screen.OnRows a) (hb : v.screen.OnRows b)
    (hab : Before a b) (hfit : RowsFit v.screen.width a b) :
    v.selectionText a b =
      .ok (v.screen.textBetween (v.screen.place a) (v.screen.place b)) := by
  have hw := h.width_pos
  have hle : a.y ≤ b.y := by
    rcases hab with hlt | ⟨heq, -⟩ <;> omega
  have hloop : ∃ text, v.selectionText a b = .ok text ∧
      text = v.screen.textBetween (v.screen.place a) (reached v.screen a b (b.y + 1)) := by
    rw [show b.y + 1 = a.y + ((b.y + 1 - a.y).toNat : Int) by omega]
    refine forUp_total (P := fun y text => text = v.screen.textBetween (v.screen.place a)
      (reached v.screen a b y)) a.y (b.y + 1 - a.y).toNat ?_ ?_
    · rintro y text hy hy' rfl
      have hstart := reached_start (s := v.screen) hy (show y ≤ b.y by omega)
      have hnext := reached_next ha hb hab hy (show y ≤ b.y by omega)
      have hfrom := place_le_reached hw ha hb hy (show y ≤ b.y by omega)
      obtain ⟨⟨hax, hax'⟩, hay, -⟩ := ha
      obtain ⟨⟨hbx, hbx'⟩, -, hby⟩ := hb
      by_cases hpos : rowSpan v.screen.width a b y > 0
      · have hmax := hfit y hy (by omega)
        have hspan : (if y = a.y then a.x else 0) +
            ((rowSpan v.screen.width a b y).toNat : Int) ≤ v.screen.width := by
          unfold rowSpan at hpos ⊢
          split at hpos <;> split at hpos <;> omega
        have hx : 0 ≤ if y = a.y then a.x else 0 := by
          split <;> omega
        have hrow : v.bufferForRow y =
            .ok (v.screen.rowLine y * v.screen.realWidth) := h.indexLine (by omega)
        have hfill := h.fillRow (y := y) (by omega) (by omega) hx hspan (by omega)
        refine ⟨v.screen.textBetween (v.screen.place a) (reached v.screen a b y) ++
          (List.range (rowSpan v.screen.width a b y).toNat).map fun (k : Nat) =>
            (v.screen.cellAt y ((if y = a.y then a.x else 0) + k)).shown, ?_, ?_⟩
        · refine (if_pos hpos).trans ?_
          rw [hrow, ok_bind]
          exact (congrArg (· >>= _) hfill).trans (ok_bind _ _)
        · rw [hnext, ← Screen.textBetween_row hw (by omega) hx hspan, hstart]
          exact Screen.textBetween_append hfrom (Nat.le_add_right _ _)
      · refine ⟨_, if_neg hpos, ?_⟩
        rw [hnext, Int.toNat_of_nonpos (by omega), Nat.add_zero]
    · rw [reached_first, Screen.textBetween, Nat.sub_self]
      rfl
  obtain ⟨text, hok, rfl⟩ := hloop
  rw [hok, reached_last hle]

/-! ## Both directions -/

/-- Both directions append the text between the two positions. -/
def Selects (p q : ScreenPosition) (data : List UInt8) (v : VT100) : Prop :=
  ∃ bytes, utf8Data (v.screen.selectedText p q) = some bytes ∧
    v.fillDataWithSelection p q data = .ok (data ++ bytes) ∧
    v.fillDataWithSelection q p data = .ok (data ++ bytes)

/-- When both directions append the text between `a` and a later `b`. -/
structure Copyable (s : Screen) (a b : ScreenPosition) : Prop where
  /-- Each row's part fits into the buffer on the stack. -/
  fits : RowsFit s.width a b
  /-- No surrogate stands alone. -/
  paired : utf8Data (s.selectedText a b) ≠ none
  /-- The later position is not to the left of the earlier one, unless nothing is between them. -/
  slant : b.x < a.x → s.place a = s.place b

theorem selectedText_of_before {s : Screen} (hw : 1 ≤ s.width) (ha : s.OnRows a)
    (hb : s.OnRows b) (hab : Before a b) :
    s.selectedText a b = s.textBetween (s.place a) (s.place b) := by
  have hle := place_le_of_before hw ha hb hab
  rw [Screen.selectedText, Nat.min_eq_left hle, Nat.max_eq_right hle]

theorem fillDataWithSelection_forwards (hab : Before a b) (data : List UInt8) :
    v.fillDataWithSelection a b data =
      v.selectionText a b >>= fun s => .ok (data ++ (utf8Data s).getD []) := by
  unfold fillDataWithSelection
  by_cases hswap : a.x ≥ b.x ∧ a.y ≥ b.y
  · have hsame : a = b := by
      obtain ⟨ax, ay⟩ := a
      obtain ⟨bx, by'⟩ := b
      rcases hab with hlt | ⟨heq, hx⟩
      · exact absurd hswap.2 (Int.not_le.mpr hlt)
      · exact congrArg₂ ScreenPosition.mk (Int.le_antisymm hx hswap.1) heq
    rw [if_pos hswap, hsame]
  · rw [if_neg hswap]

/-- From the later to the earlier end: the swap looks at the columns too. -/
theorem fillDataWithSelection_backwards (hab : Before a b) (data : List UInt8) :
    v.fillDataWithSelection b a data =
      if b.x < a.x then .ok data
      else v.selectionText a b >>= fun s => .ok (data ++ (utf8Data s).getD []) := by
  have hle : a.y ≤ b.y := by
    rcases hab with hlt | ⟨heq, -⟩ <;> omega
  unfold fillDataWithSelection
  by_cases hslant : b.x < a.x
  · have hlt : a.y < b.y := by
      rcases hab with hlt | ⟨-, hx⟩ <;> omega
    rw [if_neg fun hswap => absurd hswap.1 (Int.not_le.mpr hslant),
      selectionText_backwards hlt, ok_bind, if_pos hslant]
    simp [utf8Data]
  · rw [if_pos ⟨Int.not_lt.mp hslant, hle⟩, if_neg hslant]

theorem selects_of_copyable (h : v.screen.Wf) (ha : v.screen.OnRows a) (hb : v.screen.OnRows b)
    (hab : Before a b) (data : List UInt8) (hcopy : Copyable v.screen a b) :
    Selects a b data v := by
  have htext := selectedText_of_before h.width_pos ha hb hab
  obtain ⟨bytes, hbytes⟩ := Option.ne_none_iff_exists'.mp hcopy.paired
  have hforwards : v.fillDataWithSelection a b data = .ok (data ++ bytes) := by
    rw [fillDataWithSelection_forwards hab, selectionText_eq h ha hb hab hcopy.fits, ok_bind,
      ← htext, hbytes]
    rfl
  refine ⟨bytes, hbytes, hforwards, ?_⟩
  rw [fillDataWithSelection_backwards hab]
  by_cases hslant : b.x < a.x
  · rw [htext, hcopy.slant hslant, Screen.textBetween, Nat.sub_self] at hbytes
    cases hbytes
    rw [if_pos hslant, List.append_nil]
  · rw [if_neg hslant, ← fillDataWithSelection_forwards hab, hforwards]

theorem copyable_of_selects (h : v.screen.Wf) (ha : v.screen.OnRows a) (hb : v.screen.OnRows b)
    (hab : Before a b) {data : List UInt8} (hsel : Selects a b data v) :
    Copyable v.screen a b := by
  have htext := selectedText_of_before h.width_pos ha hb hab
  obtain ⟨bytes, hbytes, hforwards, hbackwards⟩ := hsel
  rw [fillDataWithSelection_forwards hab] at hforwards
  obtain ⟨text, hok, -⟩ := bind_eq_ok.mp hforwards
  refine ⟨selectionText_fits hok, by simp [hbytes], fun hslant => ?_⟩
  rw [fillDataWithSelection_backwards hab, if_pos hslant] at hbackwards
  have hnil : bytes = [] := by
    simpa using Except.ok.inj hbackwards
  -- A text that has no bytes has no characters, so there are no cells in between.
  have hempty : v.screen.selectedText a b = [] := by
    by_contra hne
    exact utf8Data_ne_nil hne (hbytes.trans (congrArg some hnil))
  have hlen := congrArg List.length (htext.symm.trans hempty)
  have hle := place_le_of_before h.width_pos ha hb hab
  simp only [Screen.textBetween, List.length_map, List.length_range', List.length_nil] at hlen
  omega

theorem Selects.symm {p q : ScreenPosition} {data : List UInt8} (hsel : Selects p q data v) :
    Selects q p data v := by
  obtain ⟨bytes, hbytes, hpq, hqp⟩ := hsel
  refine ⟨bytes, ?_, hqp, hpq⟩
  rw [Screen.selectedText, Nat.min_comm, Nat.max_comm]
  exact hbytes

theorem before_total (p q : ScreenPosition) (h : ¬ Before p q) : Before q p := by
  unfold Before at h ⊢
  omega

/-- The end of a selection that comes first in reading order. -/
def earlier (p q : ScreenPosition) : ScreenPosition := if Before p q then p else q

def later (p q : ScreenPosition) : ScreenPosition := if Before p q then q else p

/-- Selecting backwards copies the same text as selecting forwards, the text between the two
positions, exactly if the selection is `Copyable`. The positions are any two on the screen
or in the scrollback, also such that lie behind the last column. -/
theorem selects_iff (h : v.screen.Wf) {p q : ScreenPosition} (hp : v.screen.OnRows p)
    (hq : v.screen.OnRows q) (data : List UInt8) :
    Selects p q data v ↔ Copyable v.screen (earlier p q) (later p q) := by
  unfold earlier later
  by_cases hpq : Before p q
  · rw [if_pos hpq, if_pos hpq]
    exact ⟨copyable_of_selects h hp hq hpq, selects_of_copyable h hp hq hpq data⟩
  · have hqp := before_total p q hpq
    rw [if_neg hpq, if_neg hpq]
    exact ⟨fun hsel => copyable_of_selects h hq hp hqp hsel.symm,
      fun hcopy => (selects_of_copyable h hq hp hqp data hcopy).symm⟩

theorem fresh_onRows {s : Screen} {w h : Nat} (hs : s.Fresh w h) {p : ScreenPosition}
    (hx : 0 ≤ p.x ∧ p.x ≤ w) (hy : 0 ≤ p.y ∧ p.y < h) : s.OnRows p := by
  refine ⟨by rwa [hs.width_eq], ?_⟩
  rw [hs.wf.numberOfLines_eq, hs.count_eq, hs.height_eq, Int.zero_add]
  exact hy

/-- The text of the first of two rows on a new object, selected from right to left. -/
theorem text_selects : ∃ v v', VT100.init ⟨0, 0, 0⟩ = .ok v ∧
    v.readInputStream Foundation.latin1 textBytes = .ok v' ∧
    v'.screen.selectedText ⟨0, 0⟩ ⟨2, 0⟩ = [0x61, 0x62] ∧ Selects ⟨2, 0⟩ ⟨0, 0⟩ [] v' := by
  obtain ⟨v, v', first, row, hv, hok, -, -, hs, hfirst, -⟩ :=
    init_text Foundation.latin1_asciiExact ⟨0, 0, 0⟩
  have hwidth : v'.screen.width = 80 := hs.width_eq
  have hheight : v'.screen.height = 25 := hs.height_eq
  have hcount : v'.screen.currentScrollbackLines = 0 := hs.count_eq
  have hlines : v'.screen.numberOfLines = 25 := by
    rw [hs.wf.numberOfLines_eq, hcount, hheight]
    rfl
  have hp : v'.screen.OnRows ⟨2, 0⟩ := ⟨by rw [hwidth]; decide, by rw [hlines]; decide⟩
  have hq : v'.screen.OnRows ⟨0, 0⟩ := ⟨by rw [hwidth]; decide, by rw [hlines]; decide⟩
  have hplace : v'.screen.place ⟨0, 0⟩ = 0 ∧ v'.screen.place ⟨2, 0⟩ = 2 := by
    simp [Screen.place]
  have hcell : ∀ k : Nat, k < 2 → some (v'.screen.cellAt 0 k) =
      ([0x61, 0x62].map v.terminal.printed)[k]? := by
    intro k hk
    obtain ⟨blank, hrows, -⟩ := hs.rows_eq (by rw [List.length_singleton]; decide)
    obtain ⟨r, hr, hcell⟩ := hs.cell_eq (y := 0) (k := k) (by rw [List.length_singleton]; decide)
      (by decide) (by have : kDefaultWidth.toNat = 80 := rfl; omega)
    rw [hrows] at hr
    obtain rfl : first = r := by simpa using hr
    rw [hs.wf.visibleCell_eq (by decide) (by rw [hheight]; decide), hcount] at hcell
    rw [← hfirst, List.getElem?_take_of_lt hk]
    exact hcell.symm
  have h0 : (v'.screen.cellAt 0 0).ch = 0x61 :=
    congrArg ScreenChar.ch (Option.some.inj (hcell 0 (by decide)))
  have h1 : (v'.screen.cellAt 0 1).ch = 0x62 :=
    congrArg ScreenChar.ch (Option.some.inj (hcell 1 (by decide)))
  have htext : v'.screen.selectedText ⟨0, 0⟩ ⟨2, 0⟩ = [0x61, 0x62] := by
    rw [selectedText_of_before hs.wf.width_pos hq hp (by decide), hplace.1, hplace.2]
    simp [Screen.textBetween, Screen.placedCell, ScreenChar.shown, hwidth, List.range', h0, h1]
  refine ⟨v, v', hv, hok, htext, (selects_iff hs.wf hp hq []).mpr ?_⟩
  change Copyable v'.screen ⟨0, 0⟩ ⟨2, 0⟩
  refine ⟨fun y hy hy' => ?_, ?_, fun hslant => absurd hslant (by decide)⟩
  · have hy : y = 0 := Int.le_antisymm hy' hy
    rw [hy]
    simp [rowSpan, kMaxRowBufferSize]
  · rw [htext]
    decide

/-- From the first cell of the second row back to the second cell of the first: nothing is
copied, though 79 cells are in between. -/
theorem init_slant_lost : ∃ v, VT100.init ⟨0, 0, 0⟩ = .ok v ∧
    v.screen.OnRows ⟨0, 1⟩ ∧ v.screen.OnRows ⟨1, 0⟩ ∧
    (v.screen.selectedText ⟨0, 1⟩ ⟨1, 0⟩).length = 79 ∧
    v.fillDataWithSelection ⟨0, 1⟩ ⟨1, 0⟩ [] = .ok [] ∧ ¬Selects ⟨0, 1⟩ ⟨1, 0⟩ [] v := by
  obtain ⟨v, hv, -, hs⟩ := init_fresh ⟨0, 0, 0⟩
  have hp : v.screen.OnRows ⟨0, 1⟩ := fresh_onRows hs (by decide) (by decide)
  have hq : v.screen.OnRows ⟨1, 0⟩ := fresh_onRows hs (by decide) (by decide)
  have hbefore : Before ⟨1, 0⟩ ⟨0, 1⟩ := by decide
  have hplace : v.screen.place ⟨1, 0⟩ = 1 ∧ v.screen.place ⟨0, 1⟩ = 80 := by
    simp only [Screen.place, hs.width_eq]
    decide
  refine ⟨v, hv, hp, hq, ?_, ?_, fun hsel => ?_⟩
  · rw [Screen.selectedText, hplace.1, hplace.2, Screen.textBetween, List.length_map,
      List.length_range']
    rfl
  · rw [fillDataWithSelection_backwards hbefore]
    rfl
  · have hslant := (copyable_of_selects hs.wf hq hp hbefore hsel.symm).slant (by decide)
    rw [hplace.1, hplace.2] at hslant
    omega

end VT100

end MobileTerminal
