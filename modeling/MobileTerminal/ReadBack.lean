import Mathlib.Data.List.Forall2
import MobileTerminal.Print

/-!
# Text that is printed can be read back

The way of a text through the object: the bytes are put into the stream, taken
out as text tokens and line feeds, and printed. `Typing` is the state between
two tokens: the bytes still pending, and what has been printed of the current
line.

The token loop takes a run of printable characters as one token and a line feed
as another, so a text of lines takes two rounds for each line
(`Typing.loopLines`). Its invariant has three parts, and each is kept by a lemma
of its own: the pending bytes by the fetch, the rows by printing, and the modes
of the terminal by both.

`AtRest` is what is left between two calls. The results of this file are about
calls from a state at rest to a state at rest, and are chained by later files
that print a text, send a sequence and print again.

At the end a client reads all rows, joins them along their marks and drops the
NULs at the end of each line; for every size and every list of lines that fits
the ring this gives the lines back (`printed_lines_read_back`).
-/

namespace MobileTerminal

open Wrap

/-- The cell a character is printed as. -/
def Terminal.printed (t : Terminal) (b : UInt8) : ScreenChar :=
  { ch := b.toUInt16, bgColor := cuint t.backgroundColorCode
    fgColor := cuint t.foregroundColorCode }

/-- A printable ASCII character. -/
def IsPrintable (b : UInt8) : Prop := 0x20 ≤ b ∧ b ≤ 0x7e

instance (b : UInt8) : Decidable (IsPrintable b) := inferInstanceAs (Decidable (_ ∧ _))

/-- A byte is never the character that is printed as `#`. -/
theorem toUInt16_ne (b : UInt8) : b.toUInt16 ≠ 0xffff := by
  intro hc
  have h := congrArg UInt16.toNat hc
  have hlt := b.toNat_lt
  simp only [UInt8.toNat_toUInt16] at h
  have : (0xffff : UInt16).toNat = 65535 := rfl
  omega

theorem printed_not_nul (t : Terminal) {b : UInt8} (hb : IsPrintable b) :
    (t.printed b).isNul = false := by
  have hle := UInt8.le_iff_toNat_le.mp hb.1
  refine decide_eq_false fun hc => ?_
  have h : b.toUInt16.toNat = 0 := congrArg UInt16.toNat hc
  rw [UInt8.toNat_toUInt16] at h
  simp only [UInt8.reduceToNat] at hle
  omega

namespace Screen

variable {F : Foundation} {t : Terminal} {s : Screen} {max : Int} {w h : Nat}
  {out : List (List ScreenChar)} {tail text : List ScreenChar}

theorem Printing.draws_of_eq {s' : Screen} (hp : Printing max w h out tail text s)
    (hd : Draws s s') (hb : s'.bufferLines = s.bufferLines) :
    Printing max w h out tail text s' := by
  obtain ⟨full, row, x, htext, hx, hfull, htail, hnul, hs⟩ := hp
  exact ⟨full, row, x, htext, hx, hfull, htail, hnul, hs.draws_of_eq hd hb⟩

theorem Printing.setString (hp : Printing max w h out tail text s) (ht : t.charset = 0)
    (line : List UInt8) :
    ∃ s', s.setString F t (line.map UInt8.toUInt16) true = .ok s' ∧
      Printing max w h out tail (text ++ line.map t.printed) s' := by
  have hcharset : (s.charset.load t.charset : Res Bool) = .ok false := by
    obtain ⟨full, row, x, -, -, -, -, -, hs⟩ := hp
    rw [hs.charset_eq, ht]
    rfl
  have hcells : s.stringCells F t (line.map UInt8.toUInt16) true =
      .ok (line.map t.printed) := by
    simp only [stringCells, if_true, hcharset, ok_bind]
    simp [Terminal.printed, Function.comp_def]
  by_cases hnil : line = []
  · subst hnil
    exact ⟨s, rfl, by simpa using hp⟩
  · have hlen : ¬(line.map UInt8.toUInt16).length < 1 := by
      have := List.length_pos_iff.mpr hnil
      rw [List.length_map]
      omega
    have hplain : ∀ c ∈ line.map t.printed, c.ch ≠ 0xffff := by
      intro c hc
      obtain ⟨b, -, rfl⟩ := List.mem_map.mp hc
      exact toUInt16_ne b
    obtain ⟨s', hok, hp'⟩ := hp.foldlM t hplain
    exact ⟨s', by rw [Screen.setString, if_neg hlen, hcells, ok_bind, hok], hp'⟩

theorem Printing.putText (hp : Printing max w h out tail text s) (ht : t.charset = 0)
    (line : List UInt8) :
    ∃ s', s.putToken F t { type := .asciiString, string := line.map UInt8.toUInt16 } = .ok s' ∧
      Printing max w h out tail (text ++ line.map t.printed) s' := by
  obtain ⟨s', hok, hp'⟩ := hp.setString (F := F) ht line
  have hprint : s.printToAnsi = false := by
    obtain ⟨full, row, x, -, -, -, -, -, hs⟩ := hp
    exact hs.print_eq
  have hdispatch : s.dispatch F t { type := .asciiString, string := line.map UInt8.toUInt16 } =
      .ok s' := by
    simp only [dispatch, putString, hprint, Bool.false_eq_true, if_false, hok]
  refine ⟨_, by rw [putToken, hdispatch, ok_bind], ?_⟩
  split
  · exact hp'.draws_of_eq (touch_draws _ _) rfl
  · exact hp'

/-- What has been printed of the current line, as complete rows. -/
theorem Printing.prints (hp : Printing max w h out tail text s)
    (htail : ∀ c ∈ tail.drop text.length, c.isNul = true) :
    ∃ full row x, Shown max w h (out ++ full) row x s ∧
      Prints ScreenChar.isNul w text (full ++ [row]) := by
  obtain ⟨full, row, x, rfl, hx, hfull, hsame, hnul, hs⟩ := hp
  have hlen : (row.take x).length = x := by
    rw [List.length_take, hs.row_length]
    omega
  refine ⟨full, row, x, hs, .of_full hfull (.last hs.row_length (by omega) (by rw [hlen]) ?_)⟩
  rw [hlen]
  by_cases hnil : full = []
  · rw [hnil, List.flatMap_nil, List.nil_append, hlen] at htail
    rw [hsame hnil]
    exact htail
  · exact hnul hnil

theorem Printing.shows_nil (hp : Printing max w h [] tail [] s)
    (htail : ∀ c ∈ tail, c.isNul = true) : s.Wf ∧ ShowsLast max h [] s := by
  obtain ⟨full, row, x, hs, hprints⟩ := hp.prints (fun c hc => htail c (List.mem_of_mem_drop hc))
  have hm := hs.max_pos
  obtain ⟨blank, hrows, hlen, hnul⟩ := (showsLast_concat (by omega)).mp hs.shows
  generalize hout : full ++ [row] = out at hprints
  cases hprints with
  | @last _ r _ _ _ hrest =>
      obtain ⟨rfl, rfl⟩ : full = [] ∧ row = r := by simpa [List.append_eq_singleton_iff] using hout
      refine ⟨hs.wf, row :: blank, by simpa [keptAbove] using hrows, ?_, ?_⟩
      · have hh := hs.wf.height_pos
        have hheight := hs.height_eq
        simp only [List.length_append, List.length_nil] at hlen
        simp only [List.length_cons, List.length_nil]
        omega
      · intro r hr
        rcases List.mem_cons.mp hr with rfl | hr
        · simpa using hrest
        · exact hnul r hr
  | full _ hlong =>
      have hw := hs.wf.width_pos
      have hwidth := hs.width_eq
      simp only [List.length_nil] at hlong
      omega

/-- A line feed ends the line: its rows are complete, and the next line starts in
a blank row. -/
theorem Printing.putLineFeed (hp : Printing max w h out tail text s)
    (htail : ∀ c ∈ tail, c.isNul = true) (hw : 0 < w) :
    ∃ s' rows new, s.putToken F t { type := .cc 10 } = .ok s' ∧
      Prints ScreenChar.isNul w text rows ∧ Printing max w h (out ++ rows) new [] s' ∧
      ∀ c ∈ new, c.isNul = true := by
  obtain ⟨full, row, x, hs, hprints⟩ := hp.prints
    (fun c hc => htail c (List.mem_of_mem_drop hc))
  obtain ⟨s₁, new, h₁, hs₁, hnul⟩ := setNewLine_shown hs t
  have hdispatch : s.dispatch F t { type := .cc 10 } = .ok { s₁ with cursorX := 0 } := by
    simp only [dispatch, putControl, lineFeed, hs.print_eq, Bool.false_eq_true, if_false, h₁,
      ok_bind]
  have hp₁ : Printing max w h (out ++ (full ++ [row])) new [] { s₁ with cursorX := 0 } := by
    rw [← List.append_assoc]
    exact .start (hs₁.withCursorX 0 hw) hw
  refine ⟨_, full ++ [row], new, by rw [putToken, hdispatch, ok_bind], hprints, ?_, hnul⟩
  split
  · exact hp₁.draws_of_eq (touch_draws _ _) rfl
  · exact hp₁

theorem Fresh.shown (hs : s.Fresh w h) (hh : 0 < h) :
    ∃ row, Shown defaultScrollback w h [] row 0 s ∧ ∀ c ∈ row, c.isNul = true := by
  obtain ⟨row, rest, hrows, -⟩ := hs.keptRows_eq hh
  have hlen : s.rows.length = h := by
    rw [rows_length, hs.wf.numberOfLines_eq, hs.count_eq, hs.height_eq]
    omega
  refine ⟨row, ?_, hs.blank row (by simp [hrows])⟩
  refine {
    wf := hs.wf, width_eq := hs.width_eq, height_eq := hs.height_eq, max_eq := hs.max_eq
    margins := hs.margins, charset_eq := hs.charset_eq, print_eq := hs.print_eq, count_eq := ?_
    top_eq := ?_, cursorX_eq := hs.cursor.1, cursorY_eq := ?_, row_length := ?_, shows := ?_ }
  · rw [hs.count_eq]
    simp only [defaultScrollback, List.length_nil]
    omega
  · rw [hs.top_eq, List.length_nil, Nat.sub_eq_zero_of_le hh]
    rfl
  · rw [hs.cursor.2]
    simp only [List.length_nil]
    omega
  · have hlt : 0 < s.rows.length := by omega
    have hzero : s.rows[0] = row := by simp [hrows]
    rw [← hzero, rows_getElem, row_length, realWidth, hs.width_eq]
    omega
  · have hpos : 0 < defaultScrollback + (h : Int) := by
      simp only [defaultScrollback]
      omega
    refine (showsLast_concat hpos).mpr ⟨rest, by simpa [keptAbove] using hrows, ?_, ?_⟩
    · rw [hrows, List.length_cons] at hlen
      simp only [List.length_nil]
      omega
    · exact fun row' hrow' => hs.blank row' (by rw [hrows]; exact List.mem_cons_of_mem row hrow')

end Screen

namespace VT100

variable {F : Foundation} {t : Terminal} {v : VT100} {max : Int} {w h : Nat}
  {out : List (List ScreenChar)} {tail text : List ScreenChar} {line rest : List UInt8}

/-- Between two tokens: `bytes` are pending, and the terminal's modes are those of
`t`, which prints in the ASCII character set. -/
structure Typing (t : Terminal) (max : Int) (w h : Nat) (out : List (List ScreenChar))
    (tail text : List ScreenChar) (bytes : List UInt8) (v : VT100) : Prop where
  wf : v.terminal.Wf
  modes : t.SameModes v.terminal
  ascii : t.charset = 0
  pending_eq : v.terminal.pending = bytes
  printing : v.screen.Printing max w h out tail text

/-- Between two calls: nothing is pending. -/
structure AtRest (t : Terminal) (v : VT100) : Prop where
  wf : v.terminal.Wf
  modes : t.SameModes v.terminal
  pending_eq : v.terminal.pending = []

theorem Typing.skip {bytes : List UInt8} (hv : Typing t max w h out tail text bytes v) {n : Nat}
    (hn : n ≤ v.terminal.pending.length) (hrest : bytes.drop n = rest) :
    Typing t max w h out tail text rest { v with terminal := v.terminal.skip n } where
  wf := Terminal.skip_wf hv.wf hn
  modes := hv.modes.trans ⟨_, _, _, _, rfl⟩
  ascii := hv.ascii
  pending_eq := by rw [Terminal.skip_pending hv.wf hn, hv.pending_eq, hrest]
  printing := hv.printing

theorem AtRest.put (hv : AtRest t v) (ht : t.charset = 0)
    (hp : v.screen.Printing max w h out tail text) (data : List UInt8) :
    ∃ v', v.putStreamData data = .ok v' ∧ Typing t max w h out tail text data v' := by
  obtain ⟨t', hok, hwf, hmodes, hpending⟩ := Terminal.putStreamData_spec hv.wf data
  refine ⟨{ v with terminal := t' }, by rw [VT100.putStreamData, hok]; rfl, ?_⟩
  rw [hv.pending_eq, List.nil_append] at hpending
  exact {
    wf := hwf, modes := hv.modes.trans hmodes, ascii := ht, pending_eq := hpending
    printing := hp }

/-- Bytes for an object whose screen is blank: they have been put into the stream, and nothing
has been printed of the first line. -/
theorem typing_start (hs : v.screen.Fresh w h) (hw : 0 < w) (hh : 0 < h)
    (ht : v.terminal = { Terminal.init with encoding := nsUtf8StringEncoding })
    (data : List UInt8) :
    ∃ v' tail, v.putStreamData data = .ok v' ∧ (∀ c ∈ tail, c.isNul = true) ∧
      Typing v.terminal defaultScrollback w h [] tail [] data v' := by
  obtain ⟨row, hshown, hnul⟩ := hs.shown hh
  have hrest : AtRest v.terminal v := ⟨ht ▸ { Terminal.init_wf with }, .refl _, by rw [ht]; rfl⟩
  obtain ⟨v', hok, hv'⟩ := hrest.put (by rw [ht]; rfl) (Screen.Printing.start hshown hw) data
  exact ⟨v', row, hok, hnul, by simpa using hv'⟩

/-- A run of printable characters that a line feed or the end of the stream follows. -/
theorem Typing.getText (hF : F.AsciiExact) (hv : Typing t max w h out tail text (line ++ rest) v)
    (hne : line ≠ []) (hline : ∀ b ∈ line, IsPrintable b)
    (hrest : ∀ b ∈ rest.head?, b = 0x0a) :
    ∃ v', v.getNextToken F =
        .ok ({ type := .asciiString, string := line.map UInt8.toUInt16 }, v') ∧
      Typing t max w h out tail text rest v' := by
  have htext : ∀ b ∈ line, isAsciiText b = true := by
    intro b hb
    have hp := hline b hb
    simp only [isAsciiText, Bool.and_eq_true, decide_eq_true_eq]
    exact ⟨hp.1, UInt8.le_trans hp.2 (by decide)⟩
  have hrun : (line ++ rest).takeWhile isAsciiText = line := by
    rw [List.takeWhile_append_of_pos htext]
    cases rest with
    | nil => simp
    | cons b rest =>
        obtain rfl : b = 0x0a := hrest b rfl
        simp [isAsciiText]
  have htoken : decodeAsciiString F (line ++ rest) =
      ({ type := .asciiString, string := line.map UInt8.toUInt16 }, line.length) := by
    have hlen : ¬line.length = 0 := fun hc => hne (List.length_eq_zero_iff.mp hc)
    simp only [decodeAsciiString, hrun, hF line fun b hb => by
      simpa [isAsciiText] using htext b hb, if_neg hlen]
  obtain ⟨b, line', rfl⟩ := List.exists_cons_of_ne_nil hne
  have hle : (b :: line').length ≤ v.terminal.pending.length := by
    rw [hv.pending_eq, List.length_append]
    omega
  refine ⟨_, ?_, hv.skip hle (by rw [List.drop_left])⟩
  have hfirst := htext b (by simp)
  rw [List.cons_append] at htoken
  simp only [getNextToken, hv.pending_eq, List.cons_append, hfirst, if_true, htoken,
    advance_eq hv.wf hle, ok_bind]

/-- A line feed at the head of the stream. -/
theorem Typing.getLineFeed (hv : Typing t max w h out tail text (0x0a :: rest) v) :
    ∃ v', v.getNextToken F = .ok ({ type := .cc 10 }, v') ∧
      Typing t max w h out tail text rest v' := by
  have hle : 1 ≤ v.terminal.pending.length := by
    rw [hv.pending_eq, List.length_cons]
    omega
  refine ⟨_, ?_, hv.skip hle rfl⟩
  have hcontrol : decodeControl v.terminal (0x0a :: rest) v.screen =
      .ok ({ type := .cc 10 }, 1, v.screen) := by
    have hcsi : isCSI (0x0a :: rest) = false := by cases rest <;> rfl
    simp [decodeControl, hcsi, escByte]
  have hascii : isAsciiText 0x0a = false := by decide
  have hlow : (0x0a : UInt8) ≤ 0x1f := by decide
  simp only [getNextToken, hv.pending_eq, hascii, Bool.false_eq_true, if_false, if_pos hlow,
    hcontrol, ok_bind, setMode, setCharAttr, Terminal.setCharAttr]
  simp [advance_eq hv.wf hle]

theorem Typing.processText (hv : Typing t max w h out tail text rest v) (line : List UInt8) :
    ∃ v', v.processToken F { type := .asciiString, string := line.map UInt8.toUInt16 } = .ok v' ∧
      Typing t max w h out tail (text ++ line.map t.printed) rest v' := by
  have ht : v.terminal.charset = 0 := by
    obtain ⟨stream, len, total, off, heq⟩ := hv.modes
    rw [heq]
    exact hv.ascii
  have hprinted : v.terminal.printed = t.printed := by
    obtain ⟨stream, len, total, off, heq⟩ := hv.modes
    rw [heq]
    rfl
  obtain ⟨s', hok, hp⟩ := hv.printing.putText (F := F) ht line
  rw [hprinted] at hp
  refine ⟨{ v with screen := s' }, ?_, { hv with printing := hp }⟩
  rw [processToken, if_neg (by simp), VT100.putToken, hok]
  rfl

theorem Typing.processLineFeed (hv : Typing t max w h out tail text rest v)
    (htail : ∀ c ∈ tail, c.isNul = true) (hw : 0 < w) :
    ∃ v' rows new, v.processToken F { type := .cc 10 } = .ok v' ∧
      Prints ScreenChar.isNul w text rows ∧ Typing t max w h (out ++ rows) new [] rest v' ∧
      ∀ c ∈ new, c.isNul = true := by
  obtain ⟨s', rows, new, hok, hprints, hp, hnul⟩ :=
    hv.printing.putLineFeed (F := F) (t := v.terminal) htail hw
  refine ⟨{ v with screen := s' }, rows, new, ?_, hprints, { hv with printing := hp }, hnul⟩
  rw [processToken, if_neg (by simp), VT100.putToken, hok]
  rfl

/-! ## The token loop -/

/-- At the end of the stream the loop ends. -/
theorem Typing.loopEnd (hv : Typing t max w h out tail text [] v) (fuel : Nat) :
    ∃ v', tokenLoop F (fuel + 1) v = .ok v' ∧ Typing t max w h out tail text [] v' := by
  have hwf : v.screen.Wf := by
    obtain ⟨full, row, x, -, -, -, -, -, hs⟩ := hv.printing
    exact hs.wf
  obtain ⟨s', hok, hd, hb⟩ := Screen.refresh_spec hwf
  refine ⟨{ terminal := v.terminal.emptyStream, screen := s' }, ?_, ?_⟩
  · have htoken : v.getNextToken F =
        .ok ({ type := .cc 0 }, { v with terminal := v.terminal.emptyStream }) := by
      simp only [getNextToken, hv.pending_eq]
    rw [tokenLoop, htoken, ok_bind]
    simp only [VT100TCC.stops, VT100.refresh, hok, ok_bind]
    rfl
  · exact {
      wf := Terminal.emptyStream_wf hv.wf
      modes := hv.modes.trans (Terminal.emptyStream_sameModes _)
      ascii := hv.ascii
      pending_eq := Terminal.emptyStream_pending _
      printing := hv.printing.draws_of_eq hd hb }

theorem Typing.loopText (hF : F.AsciiExact) (hv : Typing t max w h out tail text (line ++ rest) v)
    (hline : ∀ b ∈ line, IsPrintable b) (hrest : ∀ b ∈ rest.head?, b = 0x0a) {fuel : Nat}
    (hfuel : (line ++ rest).length ≤ fuel) :
    ∃ v' fuel', tokenLoop F (fuel + 1) v = tokenLoop F (fuel' + 1) v' ∧ rest.length ≤ fuel' ∧
      Typing t max w h out tail (text ++ line.map t.printed) rest v' := by
  by_cases hne : line = []
  · subst hne
    exact ⟨v, fuel, rfl, by simpa using hfuel, by simpa using hv⟩
  · obtain ⟨v₁, h₁, hv₁⟩ := hv.getText hF hne hline hrest
    obtain ⟨v₂, h₂, hv₂⟩ := hv₁.processText (F := F) line
    have hlen := List.length_pos_iff.mpr hne
    rw [List.length_append] at hfuel
    obtain ⟨fuel, rfl⟩ : ∃ n, fuel = n + 1 := ⟨fuel - 1, by omega⟩
    refine ⟨v₂, fuel, ?_, by omega, hv₂⟩
    rw [tokenLoop, h₁, ok_bind]
    simp only [VT100TCC.stops, reduceCtorEq, decide_false, Bool.or_false, Bool.false_eq_true,
      if_false, h₂, ok_bind]

theorem Typing.loopLineFeed (hv : Typing t max w h out tail text (0x0a :: rest) v)
    (htail : ∀ c ∈ tail, c.isNul = true) (hw : 0 < w) {fuel : Nat}
    (hfuel : (0x0a :: rest).length ≤ fuel) :
    ∃ v' fuel' rows new, tokenLoop F (fuel + 1) v = tokenLoop F (fuel' + 1) v' ∧
      rest.length ≤ fuel' ∧ Prints ScreenChar.isNul w text rows ∧
      Typing t max w h (out ++ rows) new [] rest v' ∧ ∀ c ∈ new, c.isNul = true := by
  obtain ⟨v₁, h₁, hv₁⟩ := hv.getLineFeed (F := F)
  obtain ⟨v₂, rows, new, h₂, hprints, hv₂, hnul⟩ := hv₁.processLineFeed (F := F) htail hw
  rw [List.length_cons] at hfuel
  obtain ⟨fuel, rfl⟩ : ∃ n, fuel = n + 1 := ⟨fuel - 1, by omega⟩
  refine ⟨v₂, fuel, rows, new, ?_, by omega, hprints, hv₂, hnul⟩
  rw [tokenLoop, h₁, ok_bind]
  simp [VT100TCC.stops, h₂]

/-- Lines separated by line feeds: the rows of all but the last are complete. -/
theorem Typing.loopLines (hF : F.AsciiExact) (hw : 0 < w) {lines : List (List UInt8)}
    (hv : Typing t max w h out tail [] ([0x0a].intercalate (lines ++ [line])) v)
    (htail : ∀ c ∈ tail, c.isNul = true) (hlines : ∀ l ∈ lines, ∀ b ∈ l, IsPrintable b)
    (hline : ∀ b ∈ line, IsPrintable b) {fuel : Nat}
    (hfuel : ([0x0a].intercalate (lines ++ [line])).length ≤ fuel) :
    ∃ v' rss tail', tokenLoop F (fuel + 1) v = .ok v' ∧
      List.Forall₂ (Prints ScreenChar.isNul w) (lines.map (List.map t.printed)) rss ∧
      Typing t max w h (out ++ rss.flatten) tail' (line.map t.printed) [] v' ∧
      ∀ c ∈ tail', c.isNul = true := by
  induction lines generalizing out tail v fuel with
  | nil =>
      rw [List.nil_append, List.intercalate_singleton] at hv hfuel
      rw [← List.append_nil line] at hv hfuel
      obtain ⟨v₁, fuel₁, h₁, hfuel₁, hv₁⟩ := hv.loopText hF hline (by simp) hfuel
      obtain ⟨v₂, h₂, hv₂⟩ := hv₁.loopEnd (F := F) fuel₁
      exact ⟨v₂, [], tail, h₁.trans h₂, .nil, by simpa using hv₂, htail⟩
  | cons l lines ih =>
      have hsplit : [0x0a].intercalate (l :: lines ++ [line]) =
          l ++ 0x0a :: [0x0a].intercalate (lines ++ [line]) := by
        cases lines <;> simp [List.intercalate_cons_cons]
      rw [hsplit] at hv hfuel
      obtain ⟨v₁, fuel₁, h₁, hfuel₁, hv₁⟩ := hv.loopText hF (hlines l (by simp)) (by simp) hfuel
      obtain ⟨v₂, fuel₂, rows, new, h₂, hfuel₂, hprints, hv₂, hnul⟩ :=
        hv₁.loopLineFeed (F := F) htail hw hfuel₁
      obtain ⟨v₃, rss, tail', h₃, hrss, hv₃, htail'⟩ :=
        ih hv₂ hnul (fun l' hl' => hlines l' (by simp [hl'])) hfuel₂
      refine ⟨v₃, rows :: rss, tail', h₁.trans (h₂.trans h₃), ?_, ?_, htail'⟩
      · exact .cons (by simpa using hprints) hrss
      · rwa [List.flatten_cons, ← List.append_assoc]

/-! ## Reading back -/

theorem mapM_eq_ok {α β ε : Type} {f : α → Except ε β} {g : α → β} {l : List α}
    (h : ∀ a ∈ l, f a = .ok (g a)) : l.mapM f = .ok (l.map g) := by
  induction l with
  | nil => rfl
  | cons a l ih =>
      rw [List.mapM_cons, h a (by simp), ih fun a' ha' => h a' (by simp [ha'])]
      rfl

theorem readRows_eq (hwf : v.screen.Wf) : v.readRows = .ok v.screen.rows := by
  rw [readRows, Screen.rows]
  refine mapM_eq_ok fun i hi => ?_
  have hl := hwf.lineFrom_line i v.screen.scrollbackLine
  rw [← hwf.scrollback_aligned] at hl
  rw [bufferForRow, hwf.indexLine (by omega), Screen.row, hl]
  rfl

/-- The lines that were printed, in terms of the rows a client reads: each line
takes its length divided by the width rows and one more, the client finds the last
`max + h` of these rows with blank ones below them, and when all of them are there
the rows joined along their marks are the lines. -/
structure ReadsBack (t : Terminal) (max : Int) (w h : Nat) (lines : List (List UInt8))
    (rows : List (List ScreenChar)) : Prop where
  rows_eq : ∃ rss blank,
    List.Forall₂ (fun line rs => rs.length = line.length / w + 1 ∧
      Prints ScreenChar.isNul w (line.map t.printed) rs) lines rss ∧
    rows = rss.flatten.rtake (max + h).toNat ++ blank ∧
    blank.length = h - rss.flatten.length ∧ ∀ row ∈ blank, ∀ c ∈ row, c.isNul = true
  text_eq : ((lines.map fun line => line.length / w + 1).sum : Int) ≤ max + h →
    ∃ k, (logicalLines ScreenChar.isNul rows).map (lineText ScreenChar.isNul) =
      lines.map (List.map t.printed) ++ List.replicate k []

/-- The rows shown after the lines have been printed. -/
theorem readsBack_of_shows {lines : List (List UInt8)} (rss : List (List (List ScreenChar)))
    (hw : 0 < w) (hlines : ∀ l ∈ lines, ∀ b ∈ l, IsPrintable b)
    (hrss : List.Forall₂ (Prints ScreenChar.isNul w) (lines.map (List.map t.printed)) rss)
    (hshows : Screen.ShowsLast max h rss.flatten v.screen) :
    ReadsBack t max w h lines v.screen.rows := by
  obtain ⟨blank, hrows, hblank, hnul⟩ := hshows
  have hprints : List.Forall₂ (fun line rs => rs.length = line.length / w + 1 ∧
      Prints ScreenChar.isNul w (line.map t.printed) rs) lines rss := by
    rw [List.forall₂_map_left_iff] at hrss
    exact hrss.imp fun line rs hp => ⟨by rw [hp.length hw, List.length_map], hp⟩
  have hsum : (lines.map fun line => line.length / w + 1).sum = rss.flatten.length := by
    simp [length_of_prints hw hrss, Function.comp_def]
  refine ⟨⟨rss, blank, hprints, hrows, hblank, hnul⟩, fun hfit => ⟨blank.length, ?_⟩⟩
  have hall : rss.flatten.rtake (max + h).toNat = rss.flatten := by
    rw [hsum] at hfit
    rw [List.rtake, Nat.sub_eq_zero_of_le (by omega), List.drop_zero]
  rw [hrows, hall]
  refine read_lines hrss ?_ hnul
  intro text htext c hc
  obtain ⟨line, hline, rfl⟩ := List.mem_map.mp htext
  obtain ⟨b, hb, rfl⟩ := List.mem_map.mp hc
  exact printed_not_nul t (hlines line hline b hb)

/-- What is printed on a new object of any size can be read back: the lines, with line feeds
between them, are found again in the rows of scrollback and screen, joined along their
marks, as far back as the scrollback goes. Every call on the way completes. -/
theorem printed_lines_read_back (hF : F.AsciiExact) (fresh : ScreenChar) (hw : 1 ≤ w) (hh : 1 ≤ h)
    (lines : List (List UInt8)) (hlines : ∀ l ∈ lines, ∀ b ∈ l, IsPrintable b) :
    ∃ v₀ v₁ v₂ rows, VT100.init fresh = .ok v₀ ∧ v₀.setScreenSize w h = .ok v₁ ∧
      v₁.readInputStream F ([0x0a].intercalate lines) = .ok v₂ ∧ v₂.readRows = .ok rows ∧
      ReadsBack v₁.terminal v₁.screen.maxScrollbackLines w h lines rows := by
  obtain ⟨v₀, v₁, h₀, h₁, ht, hs⟩ := sized_fresh fresh hw hh
  obtain ⟨v₂, tail, h₂, htail, hv₂⟩ := typing_start hs hw hh ht ([0x0a].intercalate lines)
  have hmax := hs.max_eq
  have hlen := congrArg List.length hv₂.pending_eq
  refine ⟨v₀, v₁, ?_⟩
  cases lines using List.reverseRecOn with
  | nil =>
      obtain ⟨v₃, h₃, hv₃⟩ := hv₂.loopEnd (F := F) 0
      obtain ⟨hwf, hshows⟩ := hv₃.printing.shows_nil htail
      refine ⟨v₃, v₃.screen.rows, h₀, h₁, ?_, readRows_eq hwf, ?_⟩
      · rw [readInputStream, h₂, ok_bind, hlen]
        exact h₃
      · rw [hmax]
        exact readsBack_of_shows [] hw hlines .nil hshows
  | append_singleton lines line _ =>
      obtain ⟨v₃, rss, tail', h₃, hrss, hv₃, htail'⟩ := hv₂.loopLines hF hw htail
        (fun l hl => hlines l (by simp [hl])) (hlines line (by simp)) (Nat.le_refl _)
      obtain ⟨full, row, x, hs₃, hprints⟩ := hv₃.printing.prints
        (fun c hc => htail' c (List.mem_of_mem_drop hc))
      refine ⟨v₃, v₃.screen.rows, h₀, h₁, ?_, readRows_eq hs₃.wf, ?_⟩
      · rw [readInputStream, h₂, ok_bind, hlen, h₃]
      · rw [hmax]
        refine readsBack_of_shows (rss ++ [full ++ [row]]) hw hlines ?_ ?_
        · rw [List.map_append]
          exact List.rel_append hrss (.cons hprints .nil)
        · simpa using hs₃.shows

/-- `abc` and `d` on two columns and one row: the first line takes two rows, and all rows but
the last leave the screen. -/
theorem printed_abc_read_back : ∃ v₀ v₁ v₂ rows, VT100.init ⟨0, 0, 0⟩ = .ok v₀ ∧
    v₀.setScreenSize (2 : Nat) (1 : Nat) = .ok v₁ ∧
    v₁.readInputStream Foundation.latin1 [0x61, 0x62, 0x63, 0x0a, 0x64] = .ok v₂ ∧
    v₂.readRows = .ok rows ∧ ReadsBack v₁.terminal v₁.screen.maxScrollbackLines 2 1
      [[0x61, 0x62, 0x63], [0x64]] rows :=
  printed_lines_read_back Foundation.latin1_asciiExact ⟨0, 0, 0⟩ (by decide) (by decide)
    [[0x61, 0x62, 0x63], [0x64]] (by simp [IsPrintable])

end VT100

end MobileTerminal
