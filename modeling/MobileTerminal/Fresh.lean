import MobileTerminal.ResizeRows

/-!
# A new object

`init` completes, and so does setting the size of a screen that nothing has been
printed on: the result is a blank screen of that size with the cursor in its
first row.

A client makes an object and sets its size before anything arrives, so runs from
a new object start here. `Fresh w h` says what such a screen is: sound, `w`
columns and `h` rows, margins that are the whole screen, no scrollback, the
cursor in the first cell, and no character anywhere. `init_fresh` is for the
default size and `sized_fresh` for any positive one; `init_put` adds the first
bytes.

The first resize is the general one on a blank screen. The copy loops keep the
row of the cursor and nothing else, and produce one blank row of it
(`Fresh.produces`).
-/

namespace MobileTerminal

open Wrap

namespace Screen

variable {s : Screen} {w h : Nat}

/-- Nothing has been printed yet: `w` columns and `h` rows without a character, no scrollback,
full margins, and the cursor in the first cell. -/
structure Fresh (w h : Nat) (s : Screen) : Prop where
  wf : s.Wf
  width_eq : s.width = w
  height_eq : s.height = h
  max_eq : s.maxScrollbackLines = defaultScrollback
  count_eq : s.currentScrollbackLines = 0
  top_eq : s.topLine = 0
  cursor : s.cursorX = 0 ∧ s.cursorY = 0
  margins : s.FullMargins
  charset_eq : s.charset = Block.alloc 4 false
  print_eq : s.printToAnsi = false
  blank : ∀ row ∈ s.rows, ∀ c ∈ row, c.isNul = true

theorem initTabs_total : ∃ tabs, (forUp (fun k (tabs : Block Bool) => tabs.store (k * tabSize) true)
    1 ((tabWindow.toNat - 1) / tabSize) (Block.alloc tabWindow false) : Res (Block Bool)) =
      .ok tabs := by
  have hloop := forUp_total (ε := Fault Site)
    (f := fun k (tabs : Block Bool) => tabs.store (k * tabSize) true)
    (P := fun _ (tabs : Block Bool) => tabs.size = tabWindow) 1
    ((tabWindow.toNat - 1) / tabSize) (s := Block.alloc tabWindow false) ?_ rfl
  · obtain ⟨tabs, htabs, -⟩ := hloop
    exact ⟨tabs, htabs⟩
  · intro i tabs hi hi' hsize
    have hlast : i * (tabSize : Int) < tabWindow := by
      have : i < 1 + ((37 : Nat) : Int) := hi'
      simp only [tabSize, tabWindow]
      omega
    refine ⟨_, Block.store_of_lt true ?_ (by rw [hsize]; exact hlast), hsize⟩
    simp only [tabSize]
    omega

/-- The loop of `initScreenWithWidth:Height:` that blanks the screen rows. -/
theorem initRows_total {line : Block ScreenChar} (hsize : s.realWidth ≤ line.size)
    (hnul : ∀ i, (line.cell i).ch = 0) (hw : 0 < s.realWidth)
    (hlast : s.lastBufferLine = (s.totalHeight - 1) * s.realWidth)
    (hbuf : s.bufferLines.size = s.totalHeight * s.realWidth) {n : Nat}
    (hn : (n : Int) ≤ s.totalHeight) :
    ∃ s', forUp (fun i s => do
        let aLine ← s.getLineAtIndexFromLine i 0
        s.clearLine aLine line) 0 n s = .ok s' ∧
      Draws s s' ∧ ∀ i x, 0 ≤ i → i < (n : Int) → 0 ≤ x → x < s.realWidth →
        (s'.bufferLines.cell (i * s.realWidth + x)).ch = 0 := by
  have hloop := forUp_total (ε := Fault Site)
    (f := fun i (s : Screen) => do
      let aLine ← s.getLineAtIndexFromLine i 0
      s.clearLine aLine line)
    (P := fun i s' => Draws s s' ∧ ∀ j x, 0 ≤ j → j < i → 0 ≤ x → x < s.realWidth →
        (s'.bufferLines.cell (j * s.realWidth + x)).ch = 0) 0 n (s := s) ?_
    ⟨.refl s, fun j x hj hj' => by omega⟩
  · obtain ⟨s', hok, hd, hcells⟩ := hloop
    exact ⟨s', hok, hd, fun i x hi hi' => hcells i x hi (by omega)⟩
  · rintro i s₁ hi hi' ⟨hd, hcells⟩
    obtain ⟨⟨b, d, line', fg, bg, lw, hb, hs, heq⟩, -⟩ := id hd
    have haddr : s.lineFrom i 0 = i * s.realWidth := by
      have hle := (line_le_iff (m := i) (l := s.totalHeight - 1) hw).mpr (by omega)
      simp only [lineFrom, Int.zero_add, hlast]
      rw [if_neg (by omega)]
    have hend := (line_le_iff (m := i + 1) (l := s.totalHeight) hw).mpr (by omega)
    rw [Int.add_mul, Int.one_mul] at hend
    have hcopy := Block.copy_of_le (ι := Site) s₁.bufferLines line (s := 0) hw (Int.le_refl 0)
      (by omega) (addr_nonneg_line hi hw) (by rw [heq]; simp only; rw [hb, hbuf]; exact hend)
    have hget : s₁.getLineAtIndexFromLine i 0 = .ok (i * s.realWidth) := by
      rw [heq, ← haddr]
      simp only [getLineAtIndexFromLine, nsAssert_pos hi, ok_bind]
      rfl
    have hclear : s₁.clearLine (i * s.realWidth) line = .ok { s₁ with
        bufferLines := s₁.bufferLines.paste (i * s.realWidth) line 0 s.realWidth } := by
      have hrw : s₁.realWidth = s.realWidth := by rw [heq]; rfl
      simp only [clearLine, hrw, hcopy, ok_bind]
    refine ⟨_, by rw [hget, ok_bind, hclear], hd.trans (clearLine_draws hclear), ?_⟩
    intro j x hj hj' hx hx'
    simp only
    rw [Block.paste_line_cell _ _ hx hx']
    split
    · exact hnul _
    · exact hcells j x hj (by omega) hx hx'

theorem init_fresh (fresh : ScreenChar) : ∃ s, Screen.init fresh = .ok s ∧
    Fresh defaultTerminalWidth.toNat defaultTerminalHeight.toNat s := by
  obtain ⟨tabs, htabs⟩ := initTabs_total
  have hd := getDefaultLine_draws 0 0 defaultTerminalWidth (uncleared fresh tabs)
  obtain ⟨hsize, hnul⟩ := getDefaultLine_ok (s := uncleared fresh tabs)
    (fun line h => by cases h) 0 0 defaultTerminalWidth
  have hb := getDefaultLine_bufferLines 0 0 defaultTerminalWidth (uncleared fresh tabs)
  generalize hdl : getDefaultLine 0 0 defaultTerminalWidth (uncleared fresh tabs) = dl
    at hd hb hsize hnul
  obtain ⟨s₀, line⟩ := dl
  have h₀ : s₀.realWidth = 81 ∧ s₀.totalHeight = 1024 ∧ s₀.lastBufferLine = 1023 * 81 ∧
      s₀.bufferLines.size = 1024 * 81 := by
    obtain ⟨⟨b, d, line', fg, bg, lw, hbs, -, rfl⟩, -⟩ := hd
    exact ⟨rfl, rfl, rfl, hbs⟩
  obtain ⟨s₁, h₁, hd₁, hcells⟩ := initRows_total (s := s₀) (n := 24)
    (by rw [h₀.1]; exact hsize) hnul (by rw [h₀.1]; decide)
    (by rw [h₀.1, h₀.2.1, h₀.2.2.1]; rfl) (by rw [h₀.1, h₀.2.1, h₀.2.2.2]) (by rw [h₀.2.1]; decide)
  have hd' := hd.trans hd₁
  rw [h₀.1] at hcells
  obtain ⟨s₂, h₂, hd₂, hb₂⟩ := setDirty_of_area
    (s := { s₁ with dirty := DirtyMap.alloc (s₁.height * s₁.width) }) (by
      simp only
      rw [hd'.width_eq, hd'.height_eq]
      exact (by decide : 0 ≤ defaultTerminalWidth * defaultTerminalHeight))
  have hok : Screen.init fresh = .ok s₂ := by
    simp only [Screen.init, htabs, ok_bind, show (uncleared fresh tabs).width =
      defaultTerminalWidth from rfl, hdl]
    rw [show (uncleared fresh tabs).height.toNat = 24 from rfl, h₁, ok_bind, h₂]
  refine ⟨s₂, hok, ?_⟩
  have hwf := init_wf hok
  have hrow : ∀ i : Nat, i < 24 → ∀ c ∈ s₂.bufferLines.line 81 i, c.isNul = true := by
    intro i hi c hc
    obtain ⟨x, hx, rfl⟩ := List.getElem_of_mem hc
    rw [Block.line_length] at hx
    rw [Block.line_getElem, hb₂]
    simpa [ScreenChar.isNul] using hcells i x (by omega) (by omega) (by omega) (by omega)
  have hring : s₂.totalHeight = 1024 ∧ s₂.scrollbackLine = 0 ∧ s₂.realWidth = 81 ∧
      s₂.numberOfLines = 24 := by
    obtain ⟨⟨b, d, line', fg, bg, lw, -, -, rfl⟩, -⟩ := hd'
    obtain ⟨⟨b', d', line'', fg', bg', lw', -, -, rfl⟩, -⟩ := hd₂
    exact ⟨rfl, rfl, rfl, rfl⟩
  have hblank : ∀ row ∈ s₂.rows, ∀ c ∈ row, c.isNul = true := by
    intro row hmem
    obtain ⟨i, hi, rfl⟩ := List.getElem_of_mem hmem
    rw [rows_length, hring.2.2.2] at hi
    rw [rows_getElem, hwf.row_eq (n := 81) hring.2.2.1, rowLine, hring.1, hring.2.1, Int.zero_add,
      wrapLine_of_lt (by omega)]
    exact hrow i (by omega)
  obtain ⟨⟨b, d, line', fg, bg, lw, -, -, rfl⟩, -⟩ := hd'
  obtain ⟨⟨b', d', line'', fg', bg', lw', -, -, rfl⟩, -⟩ := hd₂
  exact ⟨hwf, rfl, rfl, rfl, rfl, rfl, ⟨rfl, rfl⟩, ⟨rfl, rfl⟩, rfl, rfl, hblank⟩

/-! ## The first resize -/

/-- Only the cursor's row is kept of a screen that is still blank. -/
theorem Fresh.keptRows_eq (hs : s.Fresh w h) (hh : 0 < h) :
    ∃ row rest, s.rows = row :: rest ∧ s.keptRows = [row] := by
  have hlen : s.rows.length = h := by
    rw [rows_length, hs.wf.numberOfLines_eq, hs.count_eq, hs.height_eq]
    omega
  obtain ⟨row, rest, hrows⟩ : ∃ row rest, s.rows = row :: rest := by
    cases hr : s.rows with
    | nil => simp [hr] at hlen; omega
    | cons row rest => exact ⟨row, rest, rfl⟩
  have hone : s.rowsToCursor = 1 := by
    simp [rowsToCursor, hs.count_eq, hs.cursor.2]
  refine ⟨row, rest, hrows, ?_⟩
  rw [keptRows, hone, hrows, List.drop_one, List.tail_cons, List.rdropWhile_eq_nil_iff.mpr]
  · rfl
  · intro row' hrow'
    have hnul := hs.blank row' (by rw [hrows]; exact List.mem_cons_of_mem row hrow')
    exact List.all_eq_true.mpr fun c hc => hnul c (List.dropLast_subset row' hc)

/-- The copy loops make one blank row of it. -/
theorem Fresh.produces (hs : s.Fresh w h) (hh : 0 < h) {w' : Nat} {out : List (List ScreenChar)}
    (hout : s.Produces w' out) : ∃ row, out = [row] ∧ ∀ c ∈ row, c.isNul = true := by
  obtain ⟨row, rest, hrows, hkept⟩ := hs.keptRows_eq hh
  have hnul : ∀ c ∈ row, c.isNul = true := hs.blank row (by simp [hrows])
  by_cases hsame : s.width = w'
  · exact ⟨row, (hout.same hsame).trans hkept, hnul⟩
  · obtain ⟨new, rfl, hnew⟩ := hout.other hsame
    have hlines : linesBefore s.keptRows.length (logicalLines ScreenChar.isNul s.rows) =
        [[row]] := by
      rw [hkept, hrows, logicalLines_eq (by simp), firstLine_of_unmarked (marked_of_nul hnul),
        linesBefore_cons (by simp)]
      simp [linesBefore_zero]
    rw [hlines] at hnew
    cases hnew with
    | cons hrow hrest =>
        cases hrest
        simp only [lineText, List.flatMap_cons, List.flatMap_nil, List.append_nil,
          rowText_of_nul hnul] at hrow
        obtain ⟨row', rfl, hnul'⟩ := hrow.nil_text
        exact ⟨row', rfl, hnul'⟩

theorem Fresh.resizeWidth (hs : s.Fresh w h) (hh : 0 < h) (t : Terminal) (w' h' : Nat)
    (hw' : 0 < w') (hh' : 0 < h') :
    ∃ s', s.resizeWidth t w' h' = .ok s' ∧ s'.Fresh w' h' := by
  by_cases hsame : (w' : Int) = s.width ∧ (h' : Int) = s.height
  · obtain ⟨hw, hh⟩ := hsame
    rw [hs.width_eq] at hw
    rw [hs.height_eq] at hh
    obtain rfl : w' = w := by omega
    obtain rfl : h' = h := by omega
    exact ⟨s, by rw [Screen.resizeWidth, if_pos (by rw [hs.width_eq, hs.height_eq]; simp)], hs⟩
  · have hclosed : Closed ScreenChar.isNul s.rows := fun row hrow =>
      marked_of_nul (hs.blank row (List.mem_of_getLast? hrow))
    obtain ⟨s', out, hok, hout, hres⟩ := resizeWidth_spec t hs.wf (by rw [hs.cursor.2])
      (by rw [hs.cursor.2, hs.height_eq]; omega) hclosed hw' hh' hsame
    obtain ⟨row, rfl, hnul⟩ := hs.produces hh hout
    have hmax := hs.wf.max_pos
    obtain ⟨blank, hrows, -, hblank⟩ := hres.shows
    refine ⟨s', hok, ?_⟩
    exact {
      wf := hres.wf, width_eq := hres.width_eq, height_eq := hres.height_eq
      max_eq := hres.max_eq.trans hs.max_eq, margins := hres.margins
      charset_eq := hres.charset_eq.trans hs.charset_eq
      print_eq := hres.print_eq.trans hs.print_eq
      count_eq := by
        rw [hres.count_eq, List.length_singleton]
        omega
      top_eq := by
        rw [hres.top_eq, List.length_singleton, Nat.sub_eq_zero_of_le hh']
        rfl
      cursor := by
        rw [hres.cursorX_eq, hres.cursorY_eq, hs.cursor.1, List.length_singleton]
        omega
      blank := by
        intro row' hrow'
        rw [hrows, List.mem_append] at hrow'
        rcases hrow' with hrow' | hrow'
        · rw [List.mem_singleton.mp (List.mem_of_mem_drop hrow')]
          exact hnul
        · exact hblank row' hrow' }

end Screen

namespace VT100

theorem init_fresh (fresh : ScreenChar) : ∃ v, VT100.init fresh = .ok v ∧
    v.terminal = { Terminal.init with encoding := nsUtf8StringEncoding } ∧
    v.screen.Fresh kDefaultWidth.toNat kDefaultHeight.toNat := by
  obtain ⟨s₁, h₁, hs₁⟩ := Screen.init_fresh fresh
  obtain ⟨s₂, h₂, hs₂⟩ := hs₁.resizeWidth (by decide)
    { Terminal.init with encoding := nsUtf8StringEncoding } kDefaultWidth.toNat
    kDefaultHeight.toNat (by decide) (by decide)
  refine ⟨{ terminal := { Terminal.init with encoding := nsUtf8StringEncoding }
            screen := { s₂ with hasRefreshDelegate := true } }, ?_, rfl, ?_⟩
  · rw [VT100.init, h₁, ok_bind]
    exact congrArg (· >>= _) h₂
  · exact { hs₂ with wf := { hs₂.wf with } }

/-- A new object whose size has been set before any byte has arrived. -/
theorem sized_fresh (fresh : ScreenChar) {w h : Nat} (hw : 0 < w) (hh : 0 < h) :
    ∃ v v', VT100.init fresh = .ok v ∧ v.setScreenSize w h = .ok v' ∧
      v'.terminal = { Terminal.init with encoding := nsUtf8StringEncoding } ∧
      v'.screen.Fresh w h := by
  obtain ⟨v, hv, ht, hs⟩ := init_fresh fresh
  obtain ⟨s', hok, hs'⟩ := hs.resizeWidth (by decide) v.terminal w h hw hh
  exact ⟨v, { v with screen := s' }, hv, by rw [setScreenSize, hok]; rfl, ht, hs'⟩

/-- A new object that has been given its first bytes. -/
theorem init_put (fresh : ScreenChar) (data : List UInt8) :
    ∃ v v', VT100.init fresh = .ok v ∧ v.putStreamData data = .ok v' ∧ v'.Wf ∧
      v'.terminal.pending = data ∧ v.terminal.SameModes v'.terminal ∧
      v'.screen.Fresh kDefaultWidth.toNat kDefaultHeight.toNat := by
  obtain ⟨v, hv, ht, hs⟩ := init_fresh fresh
  have hwf := init_wf hv
  obtain ⟨t', hput, hwf', hmodes, hpending⟩ := Terminal.putStreamData_spec hwf.terminal data
  have hempty : v.terminal.pending = [] := by rw [ht]; rfl
  refine ⟨v, { v with terminal := t' }, hv, ?_, ⟨hwf', hwf.screen⟩, ?_, hmodes, hs⟩
  · rw [VT100.putStreamData, hput]
    rfl
  · rw [hpending, hempty, List.nil_append]

end VT100

end MobileTerminal
