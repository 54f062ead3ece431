import MobileTerminal.ShowsPlain

/-!
# How editing operations compose

Lines and characters are inserted and deleted by moving cells about in the ring,
one row or one cell after the other, with `memmove` where rows lie side by side.
Sent one after the other they obey the laws of a splice: an operation that is
sent twice is one operation with the sum of the counts (`edit_twice`), an
insertion and a deletion undo each other but for what the first has pushed out
(`edit_back`), and to scroll a region `n` times is to move it once
(`scroll_region`).

On a display these are facts about a grid of cells (`apply_apply`,
`inverse_apply`), for the four operations at once: they differ in direction and
in whether rows or columns move. The code reaches them through `run_display`,
and not through its own loops, which is what the display is there for.

`Fits` is all that is asked of the state: a cursor on the screen and, where rows
are moved, not below the region, and a count with which nothing overflows.
-/

namespace MobileTerminal

variable {F : Foundation}

/-! ## Editing a display

Lines and characters are treated at once. On a grid the two kinds differ only in
what is moved, and each operation has the other direction as its inverse. -/

inductive Edit where
  | insertLines
  | deleteLines
  | insertBlank
  | deleteCharacters

namespace Edit

variable {e : Edit} {d : Display} {m n : Int}

/-- The token that asks for it. -/
def type : Edit → TokenType
  | insertLines => .insln
  | deleteLines => .delln
  | insertBlank => .insblnk
  | deleteCharacters => .delch

def apply (e : Edit) (n : Int) (d : Display) : Display :=
  match e with
  | insertLines => d.insertLines n
  | deleteLines => d.deleteLines n
  | insertBlank => d.insertBlank n
  | deleteCharacters => d.deleteCharacters n

def inverse : Edit → Edit
  | insertLines => deleteLines
  | deleteLines => insertLines
  | insertBlank => deleteCharacters
  | deleteCharacters => insertBlank

/-- How many rows or columns there are from the cursor on. -/
def room (e : Edit) (d : Display) : Int :=
  match e with
  | insertLines | deleteLines => d.scrollBottom - d.cursorY + 1
  | insertBlank | deleteCharacters => d.width - d.cursorX

/-- What the code needs: the cursor on the screen, not below the region where rows are
moved, and no overflow. -/
def Fits (e : Edit) (n : Int) (d : Display) : Prop :=
  0 ≤ n ∧ 0 ≤ d.cursorY ∧
    match e with
    | insertLines | deleteLines =>
        d.cursorY ≤ d.scrollBottom ∧ d.height < 2 ^ 31 ∧ d.cursorY + n < 2 ^ 31
    | insertBlank | deleteCharacters => d.cursorY < d.height ∧ n < 2 ^ 31 - d.height - d.width

/-- What is left when an operation has been undone: the rows or columns that were pushed
out are blank. -/
def undone (e : Edit) (n : Int) (d : Display) : Display :=
  match e with
  | insertLines =>
      { d with cell := Cells.fillRows (d.scrollBottom - n + 1) d.scrollBottom 0 d.cell }
  | deleteLines => { d with cell := Cells.fillRows d.cursorY (d.cursorY + n - 1) 0 d.cell }
  | insertBlank => { d with cell := Cells.fill d.cursorY (d.width - n) d.width 0 d.cell }
  | deleteCharacters => { d with cell := Cells.fill d.cursorY d.cursorX (d.cursorX + n) 0 d.cell }

theorem fits_apply (e' : Edit) (k : Int) : e.Fits n (e'.apply k d) ↔ e.Fits n d := by
  cases e' <;> exact Iff.rfl

theorem apply_apply (hm : 0 ≤ m) (hn : 0 ≤ n) :
    e.apply m (e.apply n d) = e.apply (m + n) d := by
  cases e with
  | insertLines =>
      exact congrArg (fun g => { d with cell := g }) (Cells.insertRows_insertRows hm hn)
  | deleteLines =>
      exact congrArg (fun g => { d with cell := g }) (Cells.deleteRows_deleteRows hm hn)
  | insertBlank =>
      exact congrArg (fun g => { d with cell := g }) (Cells.insertColumns_insertColumns hm hn)
  | deleteCharacters =>
      exact congrArg (fun g => { d with cell := g }) (Cells.deleteColumns_deleteColumns hm hn)

theorem inverse_apply (hn : 0 ≤ n) (hroom : n ≤ e.room d) :
    e.inverse.apply n (e.apply n d) = e.undone n d := by
  cases e with
  | insertLines =>
      exact congrArg (fun g => { d with cell := g }) (Cells.deleteRows_insertRows hn hroom)
  | deleteLines =>
      exact congrArg (fun g => { d with cell := g }) (Cells.insertRows_deleteRows hn hroom)
  | insertBlank =>
      exact congrArg (fun g => { d with cell := g }) (Cells.deleteColumns_insertColumns hn hroom)
  | deleteCharacters =>
      exact congrArg (fun g => { d with cell := g }) (Cells.insertColumns_deleteColumns hn hroom)

theorem fits_inverse : e.inverse.Fits n d ↔ e.Fits n d := by
  cases e <;> exact Iff.rfl

end Edit

/-! ## Sending it -/

structure VT100TCC.Counted (tok : VT100TCC) (type : TokenType) (n : Int) : Prop where
  type_eq : tok.type = type
  count_eq : tok.csi.p.cell 0 = n
  size : tok.csi.p.size = csiParamMax
  count : tok.csi.count ≤ csiParamMax

namespace VT100

variable {v v' : VT100} {e : Edit} {d : Display} {m n : Int} {tok tok' tok'' : VT100TCC}

theorem Displays.admits_edit (h : v.Displays d) (hfits : e.Fits n d)
    (htok : tok.Counted e.type n) : v.Admits tok := by
  have hm := h.1.screen.margins
  obtain ⟨hn, hy, hfits⟩ := hfits
  refine ⟨htok.size, htok.count, ?_⟩
  unfold Screen.Admits
  rw [htok.type_eq, htok.count_eq]
  rw [h.2.cursorY] at hy
  cases e
  case insertLines | deleteLines =>
    simp only [h.2.cursorY, h.2.scrollBottom, h.2.height] at hfits
    exact ⟨⟨⟨hy, by omega⟩, hfits.2.1, hn, hfits.2.2⟩, hfits.1⟩
  case insertBlank | deleteCharacters =>
    simp only [h.2.cursorY, h.2.width, h.2.height] at hfits
    exact ⟨⟨hy, hfits.1⟩, hn, hfits.2⟩

theorem execute_edit (h : v.Displays d) (hfits : e.Fits n d) (htok : tok.Counted e.type n) :
    Refines Displays (execute F v tok) (e.apply n d) := by
  have hstep := execute_shows (F := F) h (h.admits_edit hfits htok)
  have hdisplay : d.execute F tok = e.apply n d := by
    unfold Display.execute Display.putToken
    cases e <;> simp only [Display.setMode, htok.type_eq, htok.count_eq, Edit.type, Edit.apply]
  rwa [hdisplay] at hstep

theorem run_edits {e' : Edit} (h : v.Displays d) (hfits : e.Fits m d) (hfits' : e'.Fits n d)
    (htok : tok.Counted e.type m) (htok' : tok'.Counted e'.type n) :
    Refines Displays ([tok, tok'].foldlM (execute F) v) (e'.apply n (e.apply m d)) := by
  obtain ⟨v₁, h₁, hs₁⟩ := execute_edit (F := F) h hfits htok
  obtain ⟨v₂, h₂, hs₂⟩ := execute_edit (F := F) hs₁ ((Edit.fits_apply e m).mpr hfits') htok'
  refine ⟨v₂, ?_, hs₂⟩
  rw [List.foldlM_cons, h₁, ok_bind, List.foldlM_cons, h₂, ok_bind]
  rfl

/-- Lines or characters that are inserted or deleted in two goes look as if they had been in
one. The counts add up as the parameters do, also where they exceed the rows or columns
there are. -/
theorem edit_twice (h : v.Wf) (hm : e.Fits m v.display) (hn : e.Fits n v.display)
    (hsum : e.Fits (m + n) v.display) (htok : tok.Counted e.type n)
    (htok' : tok'.Counted e.type m) (htok'' : tok''.Counted e.type (m + n)) :
    ∃ u u', [tok, tok'].foldlM (execute F) v = .ok u ∧ execute F v tok'' = .ok u' ∧
      Screen.LooksLike u.terminal u.screen u'.terminal u'.screen := by
  obtain ⟨u, hu, -, hshows⟩ := run_edits (F := F) (displays_display h) hn hm htok htok'
  obtain ⟨u', hu', -, hshows'⟩ := execute_edit (F := F) (displays_display h) hsum htok''
  rw [Edit.apply_apply hm.1 hn.1] at hshows
  exact ⟨u, u', hu, hu', hshows.looksLike hshows'⟩

/-- Lines can be inserted in the second of three rows. -/
theorem second_row_fits {max : Int} {first row : List ScreenChar}
    (hs : v.screen.Shown max 3 3 [first] row 2) (n : Int) (hn : 0 ≤ n) (hn' : n ≤ 2) :
    Edit.insertLines.Fits n v.display := by
  have hrow : v.display.cursorY = 1 := hs.cursorY_eq
  have hbottom : v.display.scrollBottom = 2 := hs.margins.2.trans (by rw [hs.height_eq]; rfl)
  have hheight : v.display.height = 3 := hs.height_eq
  exact ⟨hn, by omega, by omega, by omega, by omega⟩

/-- The rows `ab` and `cd` on an object of three columns and three rows: one line after the
other above `cd`, and two lines. -/
theorem text_edit_twice : ∃ v v₁ v₂ u u', VT100.init ⟨0, 0, 0⟩ = .ok v ∧
    v.setScreenSize 3 3 = .ok v₁ ∧ v₁.readInputStream Foundation.latin1 textBytes = .ok v₂ ∧
    [firstToken 3 [0x1b, 0x5b, 0x4c], firstToken 3 [0x1b, 0x5b, 0x4c]].foldlM
      (execute Foundation.latin1) v₂ = .ok u ∧
    execute Foundation.latin1 v₂ (firstToken 3 [0x1b, 0x5b, 0x32, 0x4c]) = .ok u' ∧
    Screen.LooksLike u.terminal u.screen u'.terminal u'.screen := by
  obtain ⟨v, v₁, v₂, first, row, hv, h₁, h₂, hrest, hs, -⟩ :=
    sized_text Foundation.latin1_asciiExact ⟨0, 0, 0⟩ (w := 3) (h := 3) (by decide) (by decide)
  have hone : (firstToken 3 [0x1b, 0x5b, 0x4c]).Counted Edit.insertLines.type 1 :=
    ⟨rfl, rfl, rfl, by decide⟩
  have htwo : (firstToken 3 [0x1b, 0x5b, 0x32, 0x4c]).Counted Edit.insertLines.type (1 + 1) :=
    ⟨rfl, rfl, rfl, by decide⟩
  obtain ⟨u, u', hu, hu', hlooks⟩ := edit_twice (F := Foundation.latin1) ⟨hrest.wf, hs.wf⟩
    (second_row_fits hs 1 (by decide) (by decide)) (second_row_fits hs 1 (by decide) (by decide))
    (second_row_fits hs 2 (by decide) (by decide)) hone hone htwo
  exact ⟨v, v₁, v₂, u, u', hv, h₁, h₂, hu, hu', hlooks⟩

/-- There and back: after an insertion and a deletion of as many lines or characters, in
either order, everything is as before, but for the rows or columns that were pushed out,
which are blank. -/
theorem edit_back (h : v.Displays d) (hfits : e.Fits n d) (hroom : n ≤ e.room d)
    (htok : tok.Counted e.type n) (htok' : tok'.Counted e.inverse.type n) :
    Refines Displays ([tok, tok'].foldlM (execute F) v) (e.undone n d) := by
  have hrun := run_edits (F := F) h hfits (Edit.fits_inverse.mpr hfits) htok htok'
  rwa [Edit.inverse_apply hfits.1 hroom] at hrun

/-- On an object of three columns and three rows, a line is inserted above `cd` and deleted
again. -/
theorem text_edit_back : ∃ v v₁ v₂ u, VT100.init ⟨0, 0, 0⟩ = .ok v ∧
    v.setScreenSize 3 3 = .ok v₁ ∧ v₁.readInputStream Foundation.latin1 textBytes = .ok v₂ ∧
    [firstToken 3 [0x1b, 0x5b, 0x4c], firstToken 3 [0x1b, 0x5b, 0x4d]].foldlM
      (execute Foundation.latin1) v₂ = .ok u ∧
    u.Displays (Edit.insertLines.undone 1 v₂.display) := by
  obtain ⟨v, v₁, v₂, first, row, hv, h₁, h₂, hrest, hs, -⟩ :=
    sized_text Foundation.latin1_asciiExact ⟨0, 0, 0⟩ (w := 3) (h := 3) (by decide) (by decide)
  have hinsert : (firstToken 3 [0x1b, 0x5b, 0x4c]).Counted Edit.insertLines.type 1 :=
    ⟨rfl, rfl, rfl, by decide⟩
  have hdelete : (firstToken 3 [0x1b, 0x5b, 0x4d]).Counted Edit.insertLines.inverse.type 1 :=
    ⟨rfl, rfl, rfl, by decide⟩
  have hfits := second_row_fits hs 1 (by decide) (by decide)
  have hroom : 1 ≤ Edit.insertLines.room v₂.display := by
    have hrow : v₂.display.cursorY = 1 := hs.cursorY_eq
    have hbottom : v₂.display.scrollBottom = 2 := hs.margins.2.trans (by rw [hs.height_eq]; rfl)
    rw [Edit.room]
    omega
  obtain ⟨u, hu, hshows⟩ := edit_back (F := Foundation.latin1)
    (displays_display ⟨hrest.wf, hs.wf⟩) hfits hroom hinsert hdelete
  exact ⟨v, v₁, v₂, u, hv, h₁, h₂, hu, hshows⟩

/-! ## Scrolling a region -/

theorem scrollUp_region (hpart : ¬d.FullMargins) : d.scrollUp =
    { d with cell := Cells.deleteRows d.scrollTop d.scrollBottom 1 0 d.cell } := by
  rw [Display.scrollUp, if_neg hpart]

theorem scrollUps_region (hpart : ¬d.FullMargins) (n : Nat) : Display.scrollUp^[n] d =
    { d with cell := Cells.deleteRows d.scrollTop d.scrollBottom n 0 d.cell } := by
  rw [← Cells.deleteRows_iterate]
  induction n with
  | zero => rfl
  | succ n ih =>
      rw [Function.iterate_succ_apply', ih, Function.iterate_succ_apply']
      exact scrollUp_region hpart

theorem scrollDowns_region (n : Nat) : Display.scrollDown^[n] d =
    { d with cell := Cells.insertRows d.scrollTop d.scrollBottom n 0 d.cell } := by
  rw [← Cells.insertRows_iterate]
  induction n with
  | zero => rfl
  | succ n ih =>
      rw [Function.iterate_succ_apply', ih, Function.iterate_succ_apply', Display.scrollDown]

/-- To scroll a region `n` times is to move its rows once, wherever it lies in the ring in
front of the wrap point. The rows that leave a region that is not the whole screen are
lost; they do not go to the scrollback. -/
theorem scroll_region (h : v.Displays d) (hm : d.scrollTop < d.scrollBottom)
    (hpart : ¬d.FullMargins) (hfront : v.screen.RegionInFront) (hn : 0 ≤ n)
    (hup : tok.Counted .su n) (hdown : tok'.Counted .sd n) :
    Refines Displays (execute F v tok)
        { d with cell := Cells.deleteRows d.scrollTop d.scrollBottom n 0 d.cell } ∧
      Refines Displays (execute F v tok')
        { d with cell := Cells.insertRows d.scrollTop d.scrollBottom n 0 d.cell } := by
  have hregion : v.screen.scrollTop < v.screen.scrollBottom := by
    rw [← h.2.scrollTop, ← h.2.scrollBottom]
    exact hm
  have hpart' : ¬v.screen.FullMargins := fun hfull => hpart (h.2.full_iff.mpr hfull)
  constructor
  · have hadmits : v.Admits tok := by
      refine ⟨hup.size, hup.count, ?_⟩
      simp only [Screen.Admits, hup.type_eq]
      exact ⟨Or.inr ⟨hregion, hfront⟩, fun hfull => absurd hfull hpart'⟩
    have hstep := execute_shows (F := F) h hadmits
    have hdisplay : d.execute F tok = Display.scrollUp^[n.toNat] d := by
      simp only [Display.execute, Display.setMode, Display.putToken, hup.type_eq, hup.count_eq]
    rwa [hdisplay, scrollUps_region hpart, Int.toNat_of_nonneg hn] at hstep
  · have hadmits : v.Admits tok' := by
      refine ⟨hdown.size, hdown.count, ?_⟩
      simp only [Screen.Admits, hdown.type_eq]
      exact ⟨hregion, hfront⟩
    have hstep := execute_shows (F := F) h hadmits
    have hdisplay : d.execute F tok' = Display.scrollDown^[n.toNat] d := by
      simp only [Display.execute, Display.setMode, Display.putToken, hdown.type_eq,
        hdown.count_eq]
    rwa [hdisplay, scrollDowns_region, Int.toNat_of_nonneg hn] at hstep

/-- Two rows up between the second row, where `cd` stands, and the third. -/
theorem text_rows_region : ∃ v v₁ v₂ u, VT100.init ⟨0, 0, 0⟩ = .ok v ∧
    v.readInputStream Foundation.latin1 textBytes = .ok v₁ ∧
    v₁.readInputStream Foundation.latin1 setMarginsBytes = .ok v₂ ∧
    execute Foundation.latin1 v₂ (firstToken 24 [0x1b, 0x5b, 0x32, 0x53]) = .ok u ∧
    u.Displays { v₂.display with cell := Cells.deleteRows 1 2 2 0 v₂.display.cell } := by
  obtain ⟨v, v₁, v₂, hv, h₁, h₂, hwf, ⟨htop, hbottom⟩, hline, htotal⟩ :=
    init_text_setMargins Foundation.latin1_asciiExact ⟨0, 0, 0⟩
  have htop' : v₂.display.scrollTop = 1 := htop
  have hbottom' : v₂.display.scrollBottom = 2 := hbottom
  have hfront : v₂.screen.RegionInFront := by
    rw [Screen.RegionInFront, hline, htop, htotal]
    decide
  have hup : (firstToken 24 [0x1b, 0x5b, 0x32, 0x53]).Counted .su 2 := ⟨rfl, rfl, rfl, by decide⟩
  have hdown : (firstToken 24 [0x1b, 0x5b, 0x32, 0x54]).Counted .sd 2 := ⟨rfl, rfl, rfl, by decide⟩
  obtain ⟨u, hu, hshows⟩ := (scroll_region (F := Foundation.latin1) (displays_display hwf)
    (by omega) (by rw [Display.FullMargins]; omega) hfront (by decide) hup hdown).1
  rw [htop', hbottom'] at hshows
  exact ⟨v, v₁, v₂, u, hv, h₁, h₂, hu, hshows⟩

end VT100

end MobileTerminal
