import MobileTerminal.Keys
import MobileTerminal.ShowsWritten

/-!
# The line on the screen

What the user sees of the command line is what its handlers print: the character
that was typed, a backspace over a blank for one that is deleted, and for an
entry of the history two control sequences and the entry. These bytes go through
the whole terminal, cut anywhere. In the end the row of the cursor shows the
edited line, with the cursor behind it, whatever the keys have been
(`keys_shown`): neither the deleted character that the buffer keeps nor the
index that a recalled entry leaves one short is seen.

So three things have to be followed at once, the buffer, the bytes that are
printed and the display. `Editing` is the invariant of the buffer and weaker
than the one for sessions, as the arrows are allowed here: it only says where
the index is and that what stands in front of it can be read. `Echoes` says of
pieces that they make the row of one line into the row of another, on any
display that has the first line in the row of its cursor. A key prints pieces
that echo what it does to the line (`Editing.press`), and these compose.

`showsAll` is the line a user sees, computed from the keys alone except where
one recalls an entry or completes a name. Characters are printable ASCII, and
the line stays in its row and in the buffer (`AllFit`).
-/

namespace MobileTerminal

/-! ## A line in its row -/

namespace Display

variable {F : Foundation} {d₀ d : Display} {line : List UInt8} {h : Int}

/-- `d` is `d₀` with the line in the row of the cursor. Behind it the row is as it was, or
blank. -/
structure HasLine (d₀ : Display) (line : List UInt8) (d : Display) : Prop where
  controls : d.toControls = { d₀.toControls with cursorX := line.length }
  saved_eq : d.saved = d₀.saved
  scrollback_eq : d.scrollback = d₀.scrollback
  other : ∀ j z, j ≠ d₀.cursorY → d.cell j z = d₀.cell j z
  shown : ∀ i : Nat, i < line.length → d.cell d₀.cursorY i = (line.getD i 0).toUInt16
  rest : ∀ z : Int, line.length ≤ z → d.cell d₀.cursorY z = d₀.cell d₀.cursorY z ∨
    d.cell d₀.cursorY z = 0 ∨ d.cell d₀.cursorY z = 0x20

/-- Text goes to the screen, and is shown as it is. -/
structure Writes (d : Display) : Prop where
  charset : d.charset.cell d.shift = false
  screen : d.printToAnsi = false

theorem HasLine.empty (hx : d.cursorX = 0) : HasLine d [] d where
  controls := by
    rw [List.length_nil, Int.natCast_zero, ← hx]
  saved_eq := rfl
  scrollback_eq := rfl
  other := fun _ _ _ => rfl
  shown := fun i hi => absurd hi (Nat.not_lt_zero i)
  rest := fun _ _ => .inl rfl

theorem HasLine.cursorX (hd : HasLine d₀ line d) : d.cursorX = line.length := by
  rw [hd.controls]

theorem HasLine.cursorY (hd : HasLine d₀ line d) : d.cursorY = d₀.cursorY := by
  rw [hd.controls]

theorem HasLine.width (hd : HasLine d₀ line d) : d.width = d₀.width := by
  rw [hd.controls]

theorem HasLine.writes (hd : HasLine d₀ line d) (hw : d₀.Writes) : d.Writes := by
  refine ⟨?_, ?_⟩
  · rw [hd.controls]
    exact hw.charset
  · rw [hd.controls]
    exact hw.screen

/-- The row of the cursor is rewritten from some column on. -/
theorem HasLine.rewrite (hd : HasLine d₀ line d) (line' : List UInt8) (cell : Int → Int → UniChar)
    (hother : ∀ j z, j ≠ d₀.cursorY → cell j z = d.cell j z)
    (hshown : ∀ i : Nat, i < line'.length → cell d₀.cursorY i = (line'.getD i 0).toUInt16)
    (hrest : ∀ z : Int, line'.length ≤ z →
      line.length ≤ z ∧ cell d₀.cursorY z = d.cell d₀.cursorY z ∨
        cell d₀.cursorY z = 0 ∨ cell d₀.cursorY z = 0x20) :
    HasLine d₀ line' { d with cell := cell, cursorX := line'.length } where
  controls := by
    show { d.toControls with cursorX := (line'.length : Int) } = _
    rw [hd.controls]
  saved_eq := hd.saved_eq
  scrollback_eq := hd.scrollback_eq
  other j z hj := (hother j z hj).trans (hd.other j z hj)
  shown := hshown
  rest z hz := by
    rcases hrest z hz with ⟨hle, heq⟩ | hblank
    · show cell d₀.cursorY z = _ ∨ cell d₀.cursorY z = 0 ∨ cell d₀.cursorY z = 0x20
      rw [heq]
      exact hd.rest z hle
    · exact .inr hblank

theorem toUInt16_ne (b : UInt8) : b.toUInt16 ≠ 0xffff := by
  intro hb
  have := congrArg UInt16.toNat hb
  have hlt := b.toNat_lt
  simp only [UInt8.toNat_toUInt16, UInt16.reduceToNat] at this
  omega

theorem HasLine.putChar (hd : HasLine d₀ line d) (hroom : line.length + 1 < d₀.width) (b : UInt8) :
    HasLine d₀ (line ++ [b]) (d.putChar b.toUInt16) := by
  have hx := hd.cursorX
  have hy := hd.cursorY
  have hw := hd.width
  rw [putChar_of_lt (by rw [hx, hw]; exact hroom), place, if_neg (toUInt16_ne b), hx, hy]
  have hlen : ((line ++ [b]).length : Int) = line.length + 1 := by simp
  rw [← hlen]
  refine hd.rewrite (line ++ [b]) (Cells.put d₀.cursorY line.length b.toUInt16 d.cell)
    (fun j z hj => if_neg fun h => hj h.1) (fun i hi => ?_) fun z hz => .inl ?_
  · simp only [Cells.put, true_and, Int.natCast_inj]
    split
    · rename_i hi'
      simp [hi']
    · rename_i hi'
      have hlt : i < line.length := by
        rw [List.length_append, List.length_singleton] at hi
        omega
      rw [hd.shown i hlt, List.getD_append _ _ _ _ hlt]
  · exact ⟨by omega, if_neg fun h => by omega⟩

theorem HasLine.foldl_putChar (hd : HasLine d₀ line d) {s : List UInt8}
    (hroom : line.length + s.length < d₀.width) :
    HasLine d₀ (line ++ s) ((s.map UInt8.toUInt16).foldl Display.putChar d) := by
  induction s generalizing line d with
  | nil =>
      rw [List.append_nil]
      exact hd
  | cons b s ih =>
      rw [List.length_cons] at hroom
      have hrest := ih (hd.putChar (by omega) b) (by
        rw [List.length_append, List.length_singleton]
        omega)
      rw [List.append_assoc] at hrest
      exact hrest

theorem showPiece_text (hw : d.Writes) {s : List UInt8} (hs : s ≠ []) :
    d.showPiece F h (.text s) = (s.map UInt8.toUInt16).foldl Display.putChar d := by
  show d.putString F (s.map UInt8.toUInt16) true = _
  rw [putString, if_neg (by rw [hw.screen]; decide), if_neg (mt List.map_eq_nil_iff.mp hs),
    shownChars, if_pos rfl, if_neg (by rw [hw.charset]; decide)]

theorem HasLine.text (hd : HasLine d₀ line d) (hw : d₀.Writes) {s : List UInt8} (hs : s ≠ [])
    (hroom : line.length + s.length < d₀.width) :
    HasLine d₀ (line ++ s) (d.showPiece F h (.text s)) := by
  rw [showPiece_text (hd.writes hw) hs]
  exact hd.foldl_putChar hroom

theorem HasLine.delete {b : UInt8} (hd : HasLine d₀ (line ++ [b]) d) (hw : d₀.Writes)
    (hroom : line.length + 1 < d₀.width) :
    HasLine d₀ line ([Piece.control 0x08 [], .text [0x20], .control 0x08 []].foldl
      (showPiece F h) d) := by
  have hlen : ((line ++ [b]).length : Int) = line.length + 1 := by simp
  have hx : d.cursorX = line.length + 1 := hd.cursorX.trans hlen
  have hy := hd.cursorY
  have hwidth := hd.width
  have hw' := hd.writes hw
  have hback : ∀ (d : Display) (n : Nat), d.cursorX = n + 1 →
      d.showPiece F h (.control 0x08 []) = { d with cursorX := n } := by
    intro d n hx
    show { d with cursorX := max (d.cursorX - 1) 0 } = _
    rw [hx, show max ((n : Int) + 1 - 1) 0 = n by omega]
  have hblank : showPiece F h { d with cursorX := line.length } (.text [0x20]) =
      { d with cell := Cells.put d₀.cursorY line.length 0x20 d.cell, cursorX := line.length + 1 } := by
    show putString F [0x20] true { d with cursorX := line.length } = _
    rw [putString, if_neg (by rw [hw'.screen]; decide), if_neg (List.cons_ne_nil _ _),
      shownChars, if_pos rfl, if_neg (by rw [hw'.charset]; decide), List.foldl_cons,
      List.foldl_nil, putChar_of_lt (by rw [hwidth]; exact hroom), place, ← hy]
    rfl
  rw [List.foldl_cons, List.foldl_cons, List.foldl_cons, List.foldl_nil, hback d line.length hx,
    hblank, hback _ line.length rfl]
  refine hd.rewrite line (Cells.put d₀.cursorY line.length 0x20 d.cell)
    (fun j z hj => if_neg fun h => hj h.1) (fun i hi => ?_) fun z hz => ?_
  · have hput : Cells.put d₀.cursorY line.length 0x20 d.cell d₀.cursorY i = d.cell d₀.cursorY i :=
      if_neg fun h => by omega
    rw [hput, hd.shown i (by rw [List.length_append]; omega), List.getD_append _ _ _ _ hi]
  · by_cases hz' : z = line.length
    · exact .inr (.inr (if_pos ⟨rfl, hz'⟩))
    · exact .inl ⟨by omega, if_neg fun h => hz' h.2⟩

/-- The line is erased, and the cursor goes back at least to its start. -/
theorem HasLine.erase (hd : HasLine d₀ line d) {n : Int} {tok tok' : VT100TCC}
    (htype : tok.type = .el) (hparam : tok.csi.p.cell 0 = 2) (htype' : tok'.type = .cub)
    (hback : tok'.csi.p.cell 0 = n) (hn : line.length ≤ n)
    (hwidth : (line.length : Int) < d₀.width) :
    HasLine d₀ [] ((d.execute F tok).execute F tok') := by
  have hx := hd.cursorX
  have hy := hd.cursorY
  have hexec : (d.execute F tok).execute F tok' =
      { d with cell := Cells.fill d₀.cursorY 0 d₀.width 0 d.cell, cursorX := 0 } := by
    have hcolumn : max 0 (d.cursorX - max n 1) = 0 := by omega
    have herase : d.execute F tok = { d with cell := Cells.fill d.cursorY 0 d.width 0 d.cell } := by
      simp only [execute, setMode, putToken, htype, hparam, eraseInLine]
      rfl
    have hfill : Cells.fill d.cursorY 0 d.width 0 d.cell =
        Cells.fill d₀.cursorY 0 d₀.width 0 d.cell := by
      rw [hy, hd.width]
    rw [herase, hfill]
    simp only [execute, setMode, putToken, htype', hback]
    exact congrArg (fun x => { d with
      cell := Cells.fill d₀.cursorY 0 d₀.width 0 d.cell, cursorX := x }) hcolumn
  rw [hexec]
  refine hd.rewrite [] (Cells.fill d₀.cursorY 0 d₀.width 0 d.cell)
    (fun j z hj => if_neg fun h => hj h.1) (fun i hi => absurd hi (Nat.not_lt_zero i))
    fun z hz => ?_
  rw [List.length_nil, Int.natCast_zero] at hz
  by_cases hz' : z < d₀.width
  · exact .inr (.inl (if_pos ⟨rfl, hz, hz'⟩))
  · exact .inl ⟨by omega, if_neg fun h => hz' h.2.2⟩

end Display

/-! ## The sequences -/

/-- A sequence whose command takes one parameter with a default, and has got it. -/
theorem csiToken_default1 {height d : Int} {param : CSIParam} {type : TokenType}
    (hcmd : param.cmd ≠ 0xff) (hquestion : param.question = false)
    (hsize : param.p.size = csiParamMax) (hcount : param.count ≤ csiParamMax)
    (hcommand : csiCommand height param = param.default1 type d) (hwait : type ≠ .wait)
    (h0 : 0 ≤ param.p.cell 0) : (csiToken height param).type = type ∧
      (csiToken height param).csi.p.cell 0 = param.p.cell 0 := by
  obtain ⟨type', param', hok, -⟩ := default1_decoded hsize hcount hwait d
  have htype := default1_type hok
  obtain ⟨p, hset, hok'⟩ := bind_eq_ok.mp hok
  have hcell := setDefault_cell hset 0
  cases hok'
  rw [csiToken, if_neg hcmd, hquestion, if_neg Bool.false_ne_true, hcommand, hok]
  refine ⟨rfl, ?_⟩
  rw [hcell, if_pos rfl, if_neg (Int.not_lt.mpr h0)]

def eraseLine : Piece := .sequence [] [[0x32]] 0x4b

def cursorBack (n : Nat) : Piece := .sequence [] [digitBytes n] 0x44

theorem eraseLine_token (height : Int) : (eraseLine.token height).type = .el ∧
    (eraseLine.token height).csi.p.cell 0 = 2 := ⟨rfl, rfl⟩

theorem cursorBack_wellFormed (n : Nat) : (cursorBack n).WellFormed := by
  refine ⟨.inl rfl, ?_, Nat.succ_le_succ (Nat.zero_le _), rfl⟩
  intro p hp
  rw [List.mem_singleton.mp hp]
  exact digitBytes_isDigit n

theorem cursorBack_token {n : Nat} (hn : n < 2 ^ 31) (height : Int) :
    ((cursorBack n).token height).type = .cub ∧
      ((cursorBack n).token height).csi.p.cell 0 = n := by
  obtain ⟨hpre, hp, hlen, hf⟩ := cursorBack_wellFormed n
  have hresult := VT100.csiResult_few hpre hp hf hlen []
  have htable : (csiResult (csiSequence [] ([] ++ [digitBytes n]) 0x44 ++ [])).param.Table
      (prefixParam []) [] (digitBytes n) := csiResult_table hpre hp (by decide) hf []
  rw [List.nil_append, List.append_nil] at htable
  rw [List.append_nil] at hresult
  obtain ⟨hcmd, hsize, hcount⟩ := hresult
  have hvalue : paramCell (digitBytes n) = n := by
    rw [paramCell_eq (digitBytes_isDigit n) (by
      rw [decimal_digitBytes]
      exact_mod_cast hn), paramValue, if_neg (digitBytes_ne n), decimal_digitBytes]
  have hcell : (csiResult (csiSequence [] [digitBytes n] 0x44)).param.p.cell 0 = n :=
    (htable.cell_eq 0).trans hvalue
  have hcommand : csiCommand height (csiResult (csiSequence [] [digitBytes n] 0x44)).param =
      CSIParam.default1 .cub 1 (csiResult (csiSequence [] [digitBytes n] 0x44)).param := by
    rw [csiCommand, hcmd]
    rfl
  obtain ⟨htype, hsame⟩ := csiToken_default1 (by rw [hcmd]; decide) htable.question_eq hsize hcount
    hcommand TokenType.noConfusion (by rw [hcell]; exact Int.natCast_nonneg n)
  exact ⟨htype, hsame.trans hcell⟩

/-! ## What a key prints is shown

The pieces that a key prints are shown one after the other, so it is enough to
know for each what it does to the row that has the line. -/

/-- Pieces that make one line of another. -/
structure Echoes (F : Foundation) (w h : Int) (pieces : List Piece) (line line' : List UInt8) :
    Prop where
  wellFormed : ∀ p ∈ pieces, p.WellFormed
  plain : ∀ p ∈ pieces, Display.Plain w h (p.token h)
  shows : ∀ d₀ d, d₀.Writes → d₀.width = w → Display.HasLine d₀ line d →
    Display.HasLine d₀ line' (pieces.foldl (Display.showPiece F h) d)

section

variable {F : Foundation} {w h : Int} {line line' line'' : List UInt8} {pieces pieces' : List Piece}

theorem Echoes.nil : Echoes F w h [] line line where
  wellFormed := fun _ hp => by cases hp
  plain := fun _ hp => by cases hp
  shows := fun _ _ _ _ hd => hd

theorem Echoes.append (he : Echoes F w h pieces line line')
    (he' : Echoes F w h pieces' line' line'') : Echoes F w h (pieces ++ pieces') line line'' where
  wellFormed := List.forall_mem_append.mpr ⟨he.wellFormed, he'.wellFormed⟩
  plain := List.forall_mem_append.mpr ⟨he.plain, he'.plain⟩
  shows d₀ d hw hwidth hd := by
    rw [List.foldl_append]
    exact he'.shows d₀ _ hw hwidth (he.shows d₀ d hw hwidth hd)

/-- A text, if there is one. -/
def textPieces (s : List UInt8) : List Piece := if s = [] then [] else [.text s]

theorem written_textPieces (s : List UInt8) : written (textPieces s) = s := by
  unfold textPieces
  split
  · rename_i hs
    exact hs.symm
  · exact List.append_nil s

theorem Echoes.text {s : List UInt8} (hs : ∀ b ∈ s, isAsciiText b = true)
    (hroom : line.length + s.length < w) : Echoes F w h (textPieces s) line (line ++ s) := by
  unfold textPieces
  split
  · rename_i hnil
    rw [hnil, List.append_nil]
    exact .nil
  · rename_i hne
    refine ⟨List.forall_mem_singleton.mpr ⟨hne, hs⟩, List.forall_mem_singleton.mpr trivial, ?_⟩
    intro d₀ d hw hwidth hd
    exact hd.text hw hne (by rw [hwidth]; exact hroom)

theorem Echoes.delete {b : UInt8} (hroom : line.length + 1 < w) :
    Echoes F w h [.control 0x08 [], .text [0x20], .control 0x08 []] (line ++ [b]) line := by
  have hback : (Piece.control 0x08 []).WellFormed := by decide +kernel
  have hblank : (Piece.text [0x20]).WellFormed := by decide +kernel
  have hplain : Display.Plain w h ((Piece.control 0x08 []).token h) :=
    ⟨fun h => absurd h (by decide), fun h => absurd h (by decide)⟩
  refine ⟨by simp [hback, hblank], ?_, fun d₀ d hw hwidth hd => ?_⟩
  · exact List.forall_mem_cons.mpr ⟨hplain, List.forall_mem_cons.mpr ⟨trivial,
      List.forall_mem_singleton.mpr hplain⟩⟩
  · exact hd.delete hw (by rw [hwidth]; exact hroom)

theorem Echoes.erase {n : Nat} (hn : line.length ≤ n) (hsmall : Display.Small w h n)
    (hpos : 0 ≤ w + h) (hroom : line.length < w) :
    Echoes F w h [eraseLine, cursorBack n] line [] := by
  obtain ⟨htype, hparam⟩ := eraseLine_token h
  obtain ⟨htype', hparam'⟩ := cursorBack_token (n := n) (by
    unfold Display.Small at hsmall
    omega) h
  refine ⟨?_, ?_, fun d₀ d hw hwidth hd => ?_⟩
  · have hwell : eraseLine.WellFormed := by decide +kernel
    exact List.forall_mem_cons.mpr ⟨hwell, List.forall_mem_singleton.mpr (cursorBack_wellFormed n)⟩
  · refine List.forall_mem_cons.mpr ⟨?_, List.forall_mem_singleton.mpr ?_⟩
    · simp only [Display.Plain, htype]
    · simp only [Display.Plain, htype', hparam']
      exact hsmall
  · exact hd.erase htype hparam htype' hparam' (by exact_mod_cast hn) (by rw [hwidth]; exact hroom)

end

/-! ## The handlers

The buffer once more, now with the arrows. What stands behind the line in it
does not matter for what is printed. -/

/-- A string is read up to its NUL, whatever is behind it. -/
theorem CommandLine.cString_front {b : Block UInt8} {s : List UInt8} {k : Nat} {a : Int}
    (ha : 0 ≤ a) (hcell : ∀ i : Nat, i ≤ s.length → b.cell (a + i) = s.getD i 0)
    (hnul : ∀ ch ∈ s, ch ≠ 0) (hend : a + s.length < b.size) (hk : s.length < k) :
    cString b k a = .ok s := by
  induction s generalizing k a with
  | nil =>
      obtain ⟨k, rfl⟩ : ∃ n, k = n + 1 := ⟨k - 1, by simp at hk; omega⟩
      have h0 : b.cell a = 0 := by simpa using hcell 0 (Nat.le_refl 0)
      rw [cString, Block.load_of_lt ha (by simpa using hend), ok_bind, if_pos h0]
  | cons ch s ih =>
      simp only [List.length_cons, Int.natCast_add, Int.natCast_one] at hend hk hcell
      obtain ⟨k, rfl⟩ : ∃ n, k = n + 1 := ⟨k - 1, by omega⟩
      have h0 : b.cell a = ch := by simpa using hcell 0 (Nat.zero_le _)
      have hrest : cString b k (a + 1) = .ok s := by
        refine ih (by omega) (fun i hi => ?_) (fun x hx => hnul x (List.mem_cons_of_mem ch hx))
          (by omega) (by omega)
        rw [Int.add_assoc, Int.add_comm 1]
        simpa using hcell (i + 1) (by omega)
      rw [cString, Block.load_of_lt ha (by omega), ok_bind, h0,
        if_neg (hnul ch (List.mem_cons_self ..)), hrest]
      rfl

/-- A buffer that ends with NUL holds a string. -/
theorem CommandLine.cString_total {b : Block UInt8} {k : Nat} {a : Int} (ha : 0 ≤ a)
    (ha' : a < b.size) (hlast : b.cell (b.size - 1) = 0) (hk : b.size - a ≤ k) :
    ∃ s, cString b k a = .ok s := by
  induction k generalizing a with
  | zero => omega
  | succ k ih =>
      rw [cString, Block.load_of_lt ha ha', ok_bind]
      by_cases h0 : b.cell a = 0
      · exact ⟨[], if_pos h0⟩
      · have hne : a ≠ b.size - 1 := by
          rintro rfl
          exact h0 hlast
        obtain ⟨s, hs⟩ := ih (a := a + 1) (by omega) (by omega) (by omega)
        exact ⟨b.cell a :: s, by rw [if_neg h0, hs]; rfl⟩

namespace CommandLine

/-- The bytes in the buffer are UTF-8, so that `tab` can read them. -/
def Readable (c : CommandLine) : Prop := ∀ s, c.string = .ok s → isUtf8 s = true

instance (c : CommandLine) : Decidable c.Readable :=
  match hstring : c.string with
  | .ok s => decidable_of_iff (isUtf8 s = true)
      ⟨fun hs s' h => Except.ok.inj (hstring.symm.trans h) ▸ hs, fun h => h s hstring⟩
  | .error e => .isTrue fun s h => by rw [hstring] at h; cases h

/-- What `tab` appends. -/
def completes (dirContents : List (List UInt8)) (c : CommandLine) : List UInt8 :=
  match c.string with
  | .ok s => completion dirContents s
  | .error _ => []

/-- What a key makes of the line on the screen. -/
def shows (c : CommandLine) (line : List UInt8) : Key → List UInt8
  | .insertText ch => line ++ [ch]
  | .deleteBackward => if c.textBufferIdx > 0 then line.dropLast else line
  | .upArrow => if c.historyIndex > 0 then c.entryOr (c.historyIndex - 1) line else line
  | .downArrow =>
      if c.historyIndex < cint (c.historyMax - 1) then c.entryOr (cint (c.historyIndex + 1)) line
      else line
  | .tab dirContents => line ++ c.completes dirContents

/-- The line on the screen after some keys. -/
def showsAll : List UInt8 → CommandLine → List Key → List UInt8
  | line, _, [] => line
  | line, c, key :: keys =>
      match c.press key with
      | .ok (_, c') => showsAll (c.shows line key) c' keys
      | .error _ => line

/-- There is an entry at `i`, and it can be shown. -/
def EntryFits (w i : Int) (c : CommandLine) : Prop :=
  (0 ≤ i ∧ i < c.commandHistory.length) ∧
    (∀ b ∈ c.entryOr i [], isAsciiText b = true ∧ b ≠ 0x25) ∧
    (c.entryOr i []).length + 1 < textBufferSize ∧ (c.entryOr i []).length < w

instance (w i : Int) (c : CommandLine) : Decidable (c.EntryFits w i) :=
  inferInstanceAs (Decidable (_ ∧ _))

/-- The line stays in its row and in the buffer. An empty entry leaves the index before the
buffer; until another one is recalled, nothing may be typed. -/
def Fits (w : Int) (c : CommandLine) (line : List UInt8) : Key → Prop
  | .insertText ch => c.textBufferIdx < textBufferSize ∧ isAsciiText ch = true ∧
      line.length + 2 < textBufferSize ∧ line.length + 1 < w
  | .deleteBackward => c.textBufferIdx < textBufferSize
  | .upArrow => c.historyIndex > 0 → c.EntryFits w (c.historyIndex - 1)
  | .downArrow =>
      c.historyIndex < cint (c.historyMax - 1) → c.EntryFits w (cint (c.historyIndex + 1))
  | .tab dirContents => c.textBufferIdx < textBufferSize ∧ (dirContents = [] ∨ c.Readable) ∧
      (∀ b ∈ c.completes dirContents, isAsciiText b = true) ∧
      line.length + (c.completes dirContents).length + 1 < textBufferSize ∧
      line.length + (c.completes dirContents).length < w

instance (w : Int) (c : CommandLine) (line : List UInt8) : ∀ key, Decidable (c.Fits w line key)
  | .insertText _ => inferInstanceAs (Decidable (_ ∧ _))
  | .deleteBackward => inferInstanceAs (Decidable (c.textBufferIdx < textBufferSize))
  | .upArrow => inferInstanceAs (Decidable (_ → _))
  | .downArrow => inferInstanceAs (Decidable (_ → _))
  | .tab _ => inferInstanceAs (Decidable (_ ∧ _))

/-- Every key fits where it is pressed. -/
def AllFit (w : Int) : List UInt8 → CommandLine → List Key → Prop
  | _, _, [] => True
  | line, c, key :: keys =>
      match c.press key with
      | .ok (_, c') => c.Fits w line key ∧ AllFit w (c.shows line key) c' keys
      | .error _ => c.Fits w line key

instance (w : Int) : ∀ line c keys, Decidable (AllFit w line c keys)
  | _, _, [] => .isTrue trivial
  | line, c, key :: keys =>
      match hpress : c.press key with
      | .ok (_, c') =>
          have : Decidable (AllFit w (c.shows line key) c' keys) :=
            instDecidableAllFit w (c.shows line key) c' keys
          decidable_of_iff (c.Fits w line key ∧ AllFit w (c.shows line key) c' keys)
            (by rw [AllFit, hpress])
      | .error _ => decidable_of_iff (c.Fits w line key) (by rw [AllFit, hpress])

/-- Where the index is while a line is edited: behind the line, or on its last character
since an entry has been recalled. -/
structure Editing (w : Int) (c : CommandLine) (line : List UInt8) : Prop where
  size : c.textBuffer.size = textBufferSize
  last : c.textBuffer.cell (textBufferSize - 1) = 0
  idx : c.textBufferIdx = line.length ∨ c.textBufferIdx = nsuint (line.length - 1)
  room : line.length + 1 < textBufferSize
  row : line.length < w

section

variable {w : Int} {c : CommandLine} {line : List UInt8}

theorem asciiText_isAscii {b : UInt8} (hb : isAsciiText b = true) : IsAscii b := by
  simp only [isAsciiText, Bool.and_eq_true, decide_eq_true_eq, UInt8.le_iff_toNat_le,
    UInt8.reduceToNat] at hb
  refine ⟨?_, ?_⟩
  · rintro rfl
    simp at hb
  · simp only [UInt8.lt_iff_toNat_lt, UInt8.reduceToNat]
    omega

theorem Editing.string_total (h : c.Editing w line) : ∃ s, c.string = .ok s := by
  have hsize : c.textBuffer.size = 1024 := h.size
  have hlast := h.last
  refine cString_total (Int.le_refl 0) (by omega) ?_ ?_
  · rw [hsize]
    exact hlast
  · rw [hsize]
    decide

/-- The index is in the buffer unless an empty entry has been recalled. -/
theorem Editing.idx_cases (h : c.Editing w line) (hidx : c.textBufferIdx < textBufferSize) :
    c.textBufferIdx = line.length ∨
      0 < line.length ∧ c.textBufferIdx = line.length - 1 := by
  have hsize : textBufferSize = 1024 := rfl
  have hroom := h.room
  rcases h.idx with heq | heq
  · exact .inl heq
  · by_cases hpos : 0 < line.length
    · refine .inr ⟨hpos, heq.trans ?_⟩
      rw [nsuint]
      omega
    · rw [heq, nsuint] at hidx
      omega

theorem Editing.store (h : c.Editing w line) (line' : List UInt8) (b : UInt8) (idx : Int)
    (hidx : c.textBufferIdx < textBufferSize)
    (hidx' : idx = line'.length ∨ idx = nsuint (line'.length - 1))
    (hroom : line'.length + 1 < textBufferSize) (hrow : line'.length < w) :
    ∃ buffer, (c.textBuffer.store c.textBufferIdx b : Res _) = .ok buffer ∧
      Editing w { c with textBuffer := buffer, textBufferIdx := idx } line' := by
  have hsize : textBufferSize = 1024 := rfl
  have hold := h.room
  have hcases := h.idx_cases hidx
  refine ⟨c.textBuffer.set c.textBufferIdx b, Block.store_of_lt b (by omega) ?_, ?_⟩
  · rw [h.size]
    exact hidx
  · refine ⟨h.size, ?_, hidx', hroom, hrow⟩
    have hne : ¬(textBufferSize : Int) - 1 = c.textBufferIdx := by omega
    exact (if_neg hne).trans h.last

theorem Editing.insertText (h : c.Editing w line) {ch : UInt8}
    (hidx : c.textBufferIdx < textBufferSize) (hroom : line.length + 2 < textBufferSize)
    (hrow : line.length + 1 < w) :
    ∃ c', c.insertText ch = .ok c' ∧ c'.Editing w (line ++ [ch]) := by
  have hsize : textBufferSize = 1024 := rfl
  have hlen : (line ++ [ch]).length = line.length + 1 := by simp
  have hcases := h.idx_cases hidx
  obtain ⟨buffer, hstore, h'⟩ := h.store (line ++ [ch]) ch (nsuint (c.textBufferIdx + 1)) hidx
    (by rw [hlen, nsuint, nsuint]; omega) (by omega) (by rw [hlen]; exact_mod_cast hrow)
  exact ⟨_, by rw [CommandLine.insertText, hstore]; rfl, h'⟩

theorem Editing.deleteBackward (h : c.Editing w line) (hidx : c.textBufferIdx < textBufferSize) :
    ∃ c', c.deleteBackward = .ok c' ∧ c'.Editing w (c.shows line .deleteBackward) ∧
      (c.textBufferIdx > 0 → line ≠ []) := by
  have hsize : textBufferSize = 1024 := rfl
  have hcases := h.idx_cases hidx
  have hroom := h.room
  have hrow := h.row
  by_cases hpos : c.textBufferIdx > 0
  · have hlen : line.dropLast.length = line.length - 1 := List.length_dropLast
    obtain ⟨buffer, hstore, h'⟩ := h.store line.dropLast 0 (nsuint (c.textBufferIdx - 1)) hidx
      (by rw [hlen, nsuint, nsuint]; omega) (by omega) (by omega)
    refine ⟨_, by rw [CommandLine.deleteBackward, if_pos hpos, hstore]; rfl, ?_, ?_⟩
    · rw [shows, if_pos hpos]
      exact h'
    · rintro _ rfl
      simp only [List.length_nil] at hcases
      omega
  · refine ⟨c, if_neg hpos, ?_, fun h => absurd h hpos⟩
    rw [shows, if_neg hpos]
    exact h

theorem Editing.insertAll (h : c.Editing w line) {s : List UInt8}
    (hidx : c.textBufferIdx < textBufferSize) (hroom : line.length + s.length + 1 < textBufferSize)
    (hrow : line.length + s.length < w) :
    ∃ c', s.foldlM (fun c ch => c.insertText ch) c = .ok c' ∧ c'.Editing w (line ++ s) := by
  have hsize : textBufferSize = 1024 := rfl
  induction s generalizing c line with
  | nil =>
      rw [List.append_nil]
      exact ⟨c, rfl, h⟩
  | cons ch s ih =>
      rw [List.length_cons] at hroom hrow
      obtain ⟨c₁, hok, h₁⟩ : ∃ c₁, c.insertText ch = .ok c₁ ∧ c₁.Editing w (line ++ [ch]) :=
        h.insertText hidx (by omega) (by omega)
      have hlen : (line ++ [ch]).length = line.length + 1 := by simp
      have hidx₁ : c₁.textBufferIdx < textBufferSize := by
        rcases h₁.idx with heq | heq
        · omega
        · rw [heq, hlen, nsuint]
          omega
      obtain ⟨c', hrest, h'⟩ := ih h₁ hidx₁ (by omega) (by omega)
      rw [List.append_assoc] at h'
      exact ⟨c', by rw [List.foldlM_cons, hok]; exact hrest, h'⟩

/-- A recalled entry stands at the start of the buffer; what was behind it may stay. -/
theorem Editing.recallEntry (h : c.Editing w line) {i : Int} (hfit : c.EntryFits w i) :
    ∃ c', c.recallEntry i = .ok c' ∧ c'.string = .ok (c.entryOr i line) ∧
      c'.Editing w (c.entryOr i line) := by
  have hmax : textBufferSize = 1024 := rfl
  have hsize := h.size
  have hlast := h.last
  obtain ⟨⟨hi, hlt⟩, htext, hroom, hrow⟩ := hfit
  obtain ⟨s, hget⟩ : ∃ s, c.commandHistory[i.toNat]? = some s :=
    ⟨_, List.getElem?_eq_getElem (by omega)⟩
  have hentry : ∀ line, c.entryOr i line = s := fun line => by rw [entryOr, hget]; rfl
  rw [hentry] at htext hroom hrow
  have hobject : objectAtIndex i c.commandHistory = .ok s := by
    rw [objectAtIndex, if_pos hi, hget]
  have hcopied : strcpy s c.textBuffer =
      .ok (c.textBuffer.paste 0 (Block.ofList (s ++ [0]) 0) 0 (s.length + 1)) :=
    Block.copy_of_le _ _ (by omega) (Int.le_refl 0) (by simp) (Int.le_refl 0) (by omega)
  have hend : nsuint (nsuint ((s.length : Int) - 1) + 1) = s.length := by
    unfold nsuint
    omega
  have hunits : nsLength s = s.length := nsLength_ascii fun b hb => asciiText_isAscii (htext b hb).1
  refine ⟨{ c with
    historyIndex := i
    textBuffer := (c.textBuffer.paste 0 (Block.ofList (s ++ [0]) 0) 0 (s.length + 1)).set s.length 0
    textBufferIdx := nsuint (s.length - 1) }, ?_, ?_, ?_⟩
  · rw [CommandLine.recallEntry, hobject, ok_bind, hcopied, ok_bind]
    simp only [hunits, hend]
    rw [Block.store_of_lt 0 (by omega) (by rw [Block.paste_size, hsize]; omega)]
    rfl
  · rw [hentry]
    refine cString_front (Int.le_refl 0) (fun n hn => ?_) (fun ch hch h0 => ?_) ?_ ?_
    · simp only [Block.set, Int.zero_add, Int.natCast_inj]
      split
      · rename_i heq
        rw [List.getD_eq_default _ _ (by omega)]
      · rename_i hne
        rw [Block.paste_cell_of_mem _ _ (by omega) (by omega), Int.zero_add, Int.sub_zero]
        show (s ++ [0]).getD (n : Int).toNat 0 = _
        rw [Int.toNat_natCast, List.getD_append _ _ _ _ (by omega)]
    · have hascii := (htext ch hch).1
      rw [h0] at hascii
      cases hascii
    · rw [Block.set_size, Block.paste_size, hsize]
      omega
    · omega
  · rw [hentry]
    refine ⟨hsize, ?_, .inr rfl, hroom, hrow⟩
    have hne : ¬(textBufferSize : Int) - 1 = s.length := by omega
    have hout : (c.textBuffer.paste 0 (Block.ofList (s ++ [0]) 0) 0 (s.length + 1)).cell
        (textBufferSize - 1) = c.textBuffer.cell (textBufferSize - 1) :=
      Block.paste_cell_of_notMem _ _ (.inr (by omega))
    exact (if_neg hne).trans (hout.trans hlast)

variable {F : Foundation} {h : Int}

theorem Editing.recallLine (hc : c.Editing w line) {i : Int} (hfit : c.EntryFits w i)
    (hsmall : Display.Small w h textBufferSize) (hpos : 0 ≤ w + h) :
    ∃ pieces c', c.recallLine i = .ok (written pieces, c') ∧ c'.Editing w (c.entryOr i line) ∧
      Echoes F w h pieces line (c.entryOr i line) := by
  have hmax : textBufferSize = 1024 := rfl
  have hroom := hc.room
  obtain ⟨c', hok, hstring, hc'⟩ := hc.recallEntry hfit
  obtain ⟨⟨hi, hlt⟩, htext, -, hrow⟩ := hfit
  have hsame : c.entryOr i [] = c.entryOr i line := by
    rw [entryOr, entryOr, List.getElem?_eq_getElem (by omega)]
    rfl
  rw [hsame] at htext hrow
  -- what is printed for the index is what the cursor goes back
  obtain ⟨n, hn, hle, hback⟩ : ∃ n : Nat, line.length ≤ n ∧ n ≤ textBufferSize ∧
      printInt (cint (nsuint (c.textBufferIdx + 1))) = digitBytes n := by
    obtain ⟨n, hn⟩ : ∃ n : Nat, nsuint (c.textBufferIdx + 1) = n ∧ line.length ≤ n ∧
        n ≤ textBufferSize := by
      rcases hc.idx with heq | heq
      · exact ⟨line.length + 1, by rw [heq, nsuint]; omega⟩
      · exact ⟨line.length, by rw [heq, nsuint, nsuint]; omega⟩
    refine ⟨n, hn.2.1, hn.2.2, ?_⟩
    rw [hn.1, cint_of_isInt ⟨by omega, by omega⟩, printInt, if_neg (by omega), Int.natAbs_natCast]
  have hformat : format (c.entryOr i line) = .ok (c.entryOr i line) :=
    format_eq fun b hb => (htext b hb).2
  refine ⟨[eraseLine, cursorBack n] ++ textPieces (c.entryOr i line), c', ?_, hc', ?_⟩
  · rw [CommandLine.recallLine, hok, ok_bind, hstring, ok_bind, hformat, ok_bind, hback,
      written_append, written_textPieces]
    simp [written, Piece.bytes, eraseLine, cursorBack, csiSequence, joinParams, escByte]
  · have hn' : Display.Small w h n := ⟨by omega, by
      have := hsmall.2
      omega⟩
    refine (Echoes.erase hn hn' hpos hc.row).append ?_
    have hecho : Echoes F w h (textPieces (c.entryOr i line)) [] ([] ++ c.entryOr i line) :=
      .text (fun b hb => (htext b hb).1) (by rwa [List.length_nil, Int.natCast_zero, Int.zero_add])
    rwa [List.nil_append] at hecho

/-- A key prints what makes the new line of the old one. -/
theorem Editing.press (hc : c.Editing w line) {key : Key} (hfit : c.Fits w line key)
    (hsmall : Display.Small w h textBufferSize) (hpos : 0 ≤ w + h) :
    ∃ pieces c', c.press key = .ok (written pieces, c') ∧ c'.Editing w (c.shows line key) ∧
      Echoes F w h pieces line (c.shows line key) := by
  cases key with
  | insertText ch =>
      obtain ⟨hidx, hascii, hroom, hrow⟩ := hfit
      obtain ⟨c', hok, hc'⟩ := hc.insertText hidx hroom hrow
      refine ⟨textPieces [ch], c', ?_, hc', .text (fun b hb => ?_) (by exact_mod_cast hrow)⟩
      · rw [CommandLine.press, hok, written_textPieces]
        rfl
      · rw [List.mem_singleton.mp hb]
        exact hascii
  | deleteBackward =>
      have hrow := hc.row
      obtain ⟨c', hok, hc', hne⟩ := hc.deleteBackward hfit
      by_cases hpos : c.textBufferIdx > 0
      · obtain ⟨front, b, hline⟩ := List.eq_nil_or_concat' line |>.resolve_left (hne hpos)
        rw [hline, List.length_append, List.length_singleton, Int.natCast_add] at hrow
        refine ⟨[.control 0x08 [], .text [0x20], .control 0x08 []], c', ?_, hc', ?_⟩
        · rw [CommandLine.press, hok, ok_bind, if_pos hpos]
          rfl
        · rw [shows, if_pos hpos, hline, List.dropLast_concat]
          exact .delete hrow
      · refine ⟨[], c', ?_, hc', ?_⟩
        · rw [CommandLine.press, hok, ok_bind, if_neg hpos]
          rfl
        · rw [shows, if_neg hpos]
          exact .nil
  | upArrow =>
      rw [CommandLine.press, shows]
      split
      · rename_i hup
        exact hc.recallLine (hfit hup) hsmall hpos
      · exact ⟨[], c, rfl, hc, .nil⟩
  | downArrow =>
      rw [CommandLine.press, shows]
      split
      · rename_i hdown
        exact hc.recallLine (hfit hdown) hsmall hpos
      · exact ⟨[], c, rfl, hc, .nil⟩
  | tab dirContents =>
      obtain ⟨hidx, hread, hascii, hroom, hrow⟩ := hfit
      obtain ⟨s, hs⟩ := hc.string_total
      have hcompletes : c.completes dirContents = completion dirContents s := by
        rw [completes, hs]
      rw [hcompletes] at hascii hroom hrow
      obtain ⟨c', hok, hc'⟩ := hc.insertAll hidx hroom hrow
      rw [shows, hcompletes]
      refine ⟨textPieces (completion dirContents s), c', ?_, hc', .text hascii hrow⟩
      rw [CommandLine.press, tab, hs, ok_bind, stringWithUTF8String, written_textPieces]
      by_cases hutf8 : isUtf8 s = true
      · rw [if_pos hutf8]
        simp only [hok]
        rfl
      · -- there is no name to complete from
        obtain rfl : dirContents = [] := hread.resolve_right fun h => hutf8 (h s hs)
        rw [if_neg hutf8]
        cases hok
        rfl

theorem Editing.pressAll (hc : c.Editing w line) {keys : List Key} (hfit : AllFit w line c keys)
    (hsmall : Display.Small w h textBufferSize) (hpos : 0 ≤ w + h) :
    ∃ pieces c', pressAll keys c = .ok (written pieces, c') ∧
      c'.Editing w (showsAll line c keys) ∧ Echoes F w h pieces line (showsAll line c keys) := by
  induction keys generalizing c line with
  | nil => exact ⟨[], c, rfl, hc, .nil⟩
  | cons key keys ih =>
      have hkey : c.Fits w line key := by
        rw [AllFit] at hfit
        split at hfit
        · exact hfit.1
        · exact hfit
      obtain ⟨pieces, c₁, hok, hc₁, hecho⟩ := hc.press (F := F) hkey hsmall hpos
      rw [AllFit, hok] at hfit
      obtain ⟨rest, c', hrest, hc', hecho'⟩ := ih hc₁ hfit.2
      rw [showsAll, hok]
      refine ⟨pieces ++ rest, c', ?_, hc', hecho.append hecho'⟩
      rw [CommandLine.pressAll, hok, ok_bind]
      simp only [hrest, ok_bind]
      rw [written_append]

end

/-- Whatever keys edit a line that begins in the first column, and however what they print
is cut: the row of the cursor shows the line as it has been edited, the cursor is behind
it, and nothing else has changed. -/
theorem keys_shown {F : Foundation} (hF : F.AsciiExact) {v : VT100} (hwf : v.Wf)
    (hempty : v.terminal.pending = []) {w h : Int} (hopen : v.display.Open w h)
    (hwrites : v.display.Writes) (hcolumn : v.display.cursorX = 0)
    (hsmall : Display.Small w h textBufferSize) {c : CommandLine} (hc : c.Editing w [])
    {keys : List Key} (hfit : AllFit w [] c keys) :
    ∃ out c', pressAll keys c = .ok (out, c') ∧
      ∀ chunk chunks, (chunk :: chunks).flatten = out →
        ∃ v' d, VT100.feed F (chunk :: chunks) v = .ok v' ∧ v'.Displays d ∧
          v'.terminal.pending = [] ∧ Display.HasLine v.display (showsAll [] c keys) d := by
  have hpos : 0 ≤ w + h := by
    have := hwf.screen.width_pos
    have := hwf.screen.height_pos
    have : v.screen.width = w := hopen.width_eq
    have : v.screen.height = h := hopen.height_eq
    omega
  obtain ⟨pieces, c', hok, -, hecho⟩ := hc.pressAll (F := F) hfit hsmall hpos
  refine ⟨written pieces, c', hok, fun chunk chunks hchunks => ?_⟩
  obtain ⟨hguard, hlegible, hrest, hfold, -⟩ :=
    VT100.stream_written (F := F) hwf hopen hecho.wellFormed hecho.plain
  obtain ⟨v', hfeed, hshows, hpending⟩ := VT100.feed_display hF hwf hempty hlegible hguard hchunks
  rw [hfold] at hshows
  exact ⟨v', _, hfeed, hshows, hpending.trans hrest,
    hecho.shows v.display v.display hwrites hopen.width_eq (.empty hcolumn)⟩

/-- `ls` has been run. -/
def lsStored : CommandLine :=
  { init with commandHistory := [[0x6c, 0x73]], historyIndex := 1, historyMax := 1 }

/-- `ab` with `b` deleted, then `ls` recalled and an `x` typed, on a new object of five
columns and two rows. -/
theorem sized_keys_shown : ∃ v v' u out c', VT100.init ⟨0, 0, 0⟩ = .ok v ∧
    v.setScreenSize 5 2 = .ok v' ∧
    pressAll [.insertText 0x61, .insertText 0x62, .deleteBackward, .upArrow, .insertText 0x78]
      lsStored = .ok (out, c') ∧
    VT100.feed Foundation.latin1 [out] v' = .ok u ∧ (u.screen.visibleCell 0 0).ch = 0x6c ∧
    (u.screen.visibleCell 0 1).ch = 0x73 ∧ (u.screen.visibleCell 0 2).ch = 0x78 ∧
    u.screen.cursorX = 3 := by
  obtain ⟨v, v', hv, hsize, hwf, hempty, hopen, hs⟩ :=
    VT100.sized_open ⟨0, 0, 0⟩ (w := 5) (h := 2) (by decide) (by decide) (by decide)
  have hset : v'.display.charset = Block.alloc 4 false := hs.charset_eq
  have hwrites : v'.display.Writes := ⟨by rw [hset]; rfl, hs.print_eq⟩
  have hy : v'.display.cursorY = 0 := hs.cursor.2
  have hstart : lsStored.Editing 5 [] := ⟨rfl, rfl, .inl rfl, by decide, by decide⟩
  have hfit : AllFit 5 [] lsStored
      [.insertText 0x61, .insertText 0x62, .deleteBackward, .upArrow, .insertText 0x78] := by
    decide +kernel
  have hline : showsAll [] lsStored
      [.insertText 0x61, .insertText 0x62, .deleteBackward, .upArrow, .insertText 0x78] =
      [0x6c, 0x73, 0x78] := by
    decide +kernel
  obtain ⟨out, c', hok, hfeed⟩ := keys_shown Foundation.latin1_asciiExact hwf hempty hopen hwrites
    hs.cursor.1 (by decide) hstart hfit
  obtain ⟨u, d, hu, ⟨-, hshows⟩, -, hd⟩ := hfeed out [] (by simp)
  rw [hline] at hd
  have hrows : u.screen.height = 2 := by
    rw [← hshows.height, hd.controls]
    exact hopen.height_eq
  have hcols : u.screen.width = 5 := by
    rw [← hshows.width, hd.controls]
    exact hopen.width_eq
  have hchar : ∀ i : Nat, i < 3 →
      (u.screen.visibleCell 0 i).ch = (([0x6c, 0x73, 0x78] : List UInt8).getD i 0).toUInt16 := by
    intro i hi
    have hcell := hd.shown i hi
    rw [hy] at hcell
    exact (hshows.cells 0 i (by decide) (by omega) (by omega) (by omega)).trans hcell
  exact ⟨v, v', u, out, c', hv, hsize, hok, hu, hchar 0 (by decide), hchar 1 (by decide),
    hchar 2 (by decide), hshows.cursorX.symm.trans hd.cursorX⟩

end CommandLine

end MobileTerminal
