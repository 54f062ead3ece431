import MobileTerminal.Sequence
import MobileTerminal.TokenParams

/-!
# Waiting for the rest of a sequence

`getNextToken` answers `VT100_WAIT` on an incomplete sequence, and the same
bytes are parsed again when more have arrived. `getCSIParam` however executes
the control characters it meets before it knows that the sequence is incomplete.
So the answer is without effect exactly when there is no such character
(`wait_unchanged_iff`).

That nothing changes without such a character is read off the scan: what the
terminal waits for is an incomplete sequence of one of the kinds of
`getNextToken_wait`, and only control sequences execute anything.

For the other direction some state has to be found in which the controls of the
sequence do something. `Steady` states are those in which all controls complete:
three of them merge the columns 0 and 1, a line feed moves down, the bell stays
on, and a deleted character leaves the last column blank. Each of these is an
effect that no later control takes back, so a case distinction on the kinds of
controls in the sequence finds a start whose view is changed in the end
(`exists_changed`).
-/

namespace MobileTerminal

/-- The control characters that do something in the middle of a sequence. -/
def isEffective (b : UInt8) : Bool :=
  b = 7 || b = 8 || b = 9 || b = 10 || b = 11 || b = 12 || b = 13 || b = 255

theorem control_of_ineffective {b : UInt8} (hb : isEffective b = false) (t : Terminal)
    (s : Screen) : control t s b = .ok s := by
  simp only [isEffective, Bool.or_eq_false_iff, decide_eq_false_iff_not, ← UInt8.toNat_inj,
    UInt8.reduceToNat] at hb
  unfold control csiControl
  split <;> first | rfl | omega

namespace Screen

variable {t : Terminal} {s s' : Screen}

/-- A screen on which every control character completes. -/
structure Steady (s : Screen) : Prop where
  wf : s.Wf
  margins : s.FullMargins
  row_range : 0 ≤ s.cursorY ∧ s.cursorY < s.height
  narrow : s.width < tabWindow
  wide : 2 ≤ s.width
  no_tabs : ∀ x, s.tabStop.cell x = false

theorem Steady.draws (h : s.Steady) (hd : Draws s s') : s'.Steady := by
  have hwf := hd.wf h.wf
  obtain ⟨⟨b, d, line, fg, bg, lw, -, -, rfl⟩, -⟩ := hd
  exact { h with wf := hwf }

/-- The column after a control character. -/
def columnAfter (width : Int) (x : Int) (b : UInt8) : Int :=
  if b = 8 then (if x > 0 then x - 1 else x)
  else if b = 9 then width - 1
  else if b = 13 then 0
  else x

theorem skipToTab_none {tabs : Block Bool} (hsize : tabs.size = tabWindow)
    (hnone : ∀ x, tabs.cell x = false) {w : Int} (hw : w < tabWindow) (k : Nat) {x : Int}
    (hx : 0 ≤ x) (hxw : x ≤ w) (hk : (w - x).toNat + 1 = k) : skipToTab tabs w k x = .ok w := by
  induction k generalizing x with
  | zero => omega
  | succ k ih =>
      have hload : (tabs.load x : Res Bool) = .ok false := by
        rw [Block.load_of_lt hx (by omega), hnone]
      simp only [skipToTab, hload, ok_bind, Bool.not_false, true_and]
      split
      · exact ih (by omega) (by omega) (by omega)
      · congr 1
        omega

theorem Steady.setTab (h : s.Steady) : s.setTab = .ok { s with cursorX := s.width - 1 } := by
  have hx := h.wf.column
  have hskip := skipToTab_none h.wf.tabs h.no_tabs h.narrow _ (x := s.cursorX + 1) (by omega)
    (by omega) rfl
  simp only [Screen.setTab, hskip, ok_bind, ge_iff_le, Int.le_refl, if_true]

theorem Steady.withCursorX (h : s.Steady) {x : Int} (h0 : 0 ≤ x) (hx : x < s.width) :
    Steady { s with cursorX := x } :=
  { h with wf := h.wf.withCursorX h0 hx }

/-- A line feed goes down, or scrolls and stays. -/
theorem Steady.setNewLine (h : s.Steady) (t : Terminal) :
    ∃ s', s.setNewLine t = .ok s' ∧ s'.Steady ∧ s'.width = s.width ∧ s'.height = s.height ∧
      s'.cursorX = s.cursorX ∧ s.cursorY ≤ s'.cursorY ∧ s'.soundBell = s.soundBell ∧
      (s.cursorY < s.height - 1 → s.cursorY < s'.cursorY) := by
  have hrow := h.row_range
  by_cases hbottom : s.cursorY = s.height - 1
  · obtain ⟨s', new, hok, hd, -⟩ := setNewLine_bottom h.wf t h.margins hbottom
    have hsame : s.rotate.Steady ∧ s.rotate.width = s.width ∧ s.rotate.height = s.height ∧
        s.rotate.cursorX = s.cursorX ∧ s.rotate.cursorY = s.cursorY ∧
        s.rotate.soundBell = s.soundBell := by
      have hwf := h.wf.rotate
      rw [h.wf.rotate_eq] at hwf ⊢
      split at hwf <;> rename_i hfull
      · rw [if_pos hfull]
        exact ⟨{ h with wf := hwf }, rfl, rfl, rfl, rfl, rfl⟩
      · rw [if_neg hfull]
        exact ⟨{ h with wf := hwf }, rfl, rfl, rfl, rfl, rfl⟩
    obtain ⟨hsteady, hw, hh, hx, hy, hbell⟩ := hsame
    refine ⟨s', hok, hsteady.draws hd, ?_⟩
    obtain ⟨⟨b, d, line, fg, bg, lw, -, -, rfl⟩, -⟩ := hd
    simp only
    exact ⟨hw, hh, hx, by omega, hbell, by omega⟩
  · have hdown : s.cursorY < s.scrollBottom := by
      rw [h.margins.2]
      omega
    have hnext : Steady { s with cursorY := s.cursorY + 1 } :=
      { h with wf := { h.wf with }, row_range := by simp only; omega }
    refine ⟨_, by rw [Screen.setNewLine, if_pos (Or.inl hdown)], ?_⟩
    split
    · exact ⟨hnext.draws (touch_draws _ _), rfl, rfl, rfl, by simp only [touch]; omega, rfl,
        by simp only [touch]; omega⟩
    · exact ⟨hnext, rfl, rfl, rfl, by simp only; omega, rfl, by simp only; omega⟩

/-- The last column of the cursor's row becomes blank. -/
theorem Steady.deleteCharacters (h : s.Steady) (t : Terminal) :
    ∃ s', s.deleteCharacters t 1 = .ok s' ∧ Draws s s' ∧
      s'.visibleCell s.cursorY (s.width - 1) = t.blank := by
  have hx := h.wf.column
  have hy := h.row_range
  have hnarrow := h.narrow
  have hr := h.wf.visible_range hy.1 hy.2
  have hclamp : s.clampCells 1 = 1 := by
    have hint : cint (1 + s.cursorX) = 1 + s.cursorX :=
      cint_of_isInt ⟨by omega, by simp only [tabWindow] at hnarrow; omega⟩
    rw [clampCells, hint, if_neg (by omega)]
  have hcell := h.wf.cell_range hr.1 hr.2 hx.1 hx.2.le
  have hend := h.wf.line_end_le hr.1 hr.2
  -- the characters behind the cursor move to the left
  obtain ⟨s₁, h₁, hd₁⟩ : ∃ s₁, s.moveCells
      (s.rowLine (s.currentScrollbackLines + s.cursorY) * s.realWidth + s.cursorX)
      (s.rowLine (s.currentScrollbackLines + s.cursorY) * s.realWidth + s.cursorX + 1)
      (s.width - s.cursorX - 1) = .ok s₁ ∧ Draws s s₁ := by
    have hrw : s.realWidth = s.width + 1 := rfl
    by_cases hlast : s.width - s.cursorX - 1 = 0
    · have hcopy : (s.bufferLines.copy
          (s.rowLine (s.currentScrollbackLines + s.cursorY) * s.realWidth + s.cursorX)
          s.bufferLines
          (s.rowLine (s.currentScrollbackLines + s.cursorY) * s.realWidth + s.cursorX + 1)
          (s.width - s.cursorX - 1) : Res _) = .ok _ := if_pos (Or.inl hlast)
      have hok := congrArg (· >>= fun b => Except.ok { s with bufferLines := b }) hcopy
      exact ⟨_, hok, moveCells_draws hok⟩
    · have hcopy := Block.copy_of_le (ι := Site) s.bufferLines s.bufferLines
        (d := s.rowLine (s.currentScrollbackLines + s.cursorY) * s.realWidth + s.cursorX)
        (s := s.rowLine (s.currentScrollbackLines + s.cursorY) * s.realWidth + s.cursorX + 1)
        (n := s.width - s.cursorX - 1) (by omega) (by omega) (by omega) (by omega) (by omega)
      have hok := congrArg (· >>= fun b => Except.ok { s with bufferLines := b }) hcopy
      exact ⟨_, hok, moveCells_draws hok⟩
  -- the last one becomes blank
  obtain ⟨s₂, h₂, hd₂, hcells⟩ := storeCell_spec (hd₁.wf h.wf) t.blank
    (i := s.currentScrollbackLines + s.cursorY) (x := s.width - 1) hr.1
    (by rw [hd₁.totalHeight_eq]; exact hr.2) (by omega) (by rw [hd₁.width_eq]; omega)
  obtain ⟨s₃, h₃, hd₃, hb₃⟩ := dirtyFill_spec true (s₂.cursorY * s₂.width + s₂.cursorX)
    (n := s₂.width - s₂.cursorX) (by
      rw [(hd₁.trans hd₂).width_eq, (hd₁.trans hd₂).cursor_eq.1]
      omega) s₂
  refine ⟨s₃, ?_, hd₁.trans (hd₂.trans hd₃), ?_⟩
  · rw [hd₁.rowLine_eq, hd₁.realWidth_eq] at h₂
    rw [Screen.deleteCharacters, if_pos ⟨hx.1, hx.2, hy.1, hy.2⟩, hclamp,
      h.wf.visibleLine hy.1 hy.2, ok_bind, if_pos (by have := h.wide; omega), h₁, ok_bind,
      blankCells, show (1 : Int).toNat = 1 from rfl]
    simp only [forUp, hd₁.width_eq, Int.add_zero, h₂, ok_bind]
    exact h₃
  · have hd := hd₁.trans (hd₂.trans hd₃)
    rw [(hd.wf h.wf).visibleCell_eq hy.1 (by rw [hd.height_eq]; exact hy.2), hd.count_eq,
      hd₃.cellAt_of_eq (hd₂.wf (hd₁.wf h.wf)) hb₃,
      hcells _ _ hr.1 (by rw [hd₁.totalHeight_eq]; exact hr.2) (by omega)
        (by rw [hd₁.width_eq]; omega), if_pos ⟨rfl, rfl⟩]

/-- What the control character `b` makes of `s`. -/
structure Controlled (b : UInt8) (s s' : Screen) : Prop where
  steady : s'.Steady
  width_eq : s'.width = s.width
  height_eq : s'.height = s.height
  column : s'.cursorX = columnAfter s.width s.cursorX b
  row_le : b ≠ 13 → s.cursorY ≤ s'.cursorY
  row_lt : b = 10 ∨ b = 11 ∨ b = 12 → s.cursorY < s.height - 1 → s.cursorY < s'.cursorY
  bell_le : s.soundBell = true → s'.soundBell = true
  bell : b = 7 → s'.soundBell = true

/-- The ways in which a control leaves everything but the column alone. -/
theorem Controlled.of_eq {b : UInt8} (h : s'.Steady) (hw : s'.width = s.width)
    (hh : s'.height = s.height) (hx : s'.cursorX = columnAfter s.width s.cursorX b)
    (hy : s'.cursorY = s.cursorY) (hbell : s'.soundBell = s.soundBell)
    (hb : b ≠ 7 ∧ b ≠ 10 ∧ b ≠ 11 ∧ b ≠ 12) : Controlled b s s' where
  steady := h
  width_eq := hw
  height_eq := hh
  column := hx
  row_le := fun _ => by rw [hy]
  row_lt := by rintro (rfl | rfl | rfl) <;> simp at hb
  bell_le := fun hs => hbell.trans hs
  bell := fun hb' => absurd hb' hb.1

theorem Steady.lineFeed (h : s.Steady) (t : Terminal) {b : UInt8}
    (hb : b = 10 ∨ b = 11 ∨ b = 12) :
    ∃ s', s.setNewLine t = .ok s' ∧ Controlled b s s' := by
  obtain ⟨s', hok, hs, hw, hh, hx, hle, hbell, hlt⟩ := h.setNewLine t
  refine ⟨s', hok, hs, hw, hh, ?_, fun _ => hle, fun _ => hlt, fun h' => hbell.trans h', ?_⟩
  · rw [hx]
    rcases hb with rfl | rfl | rfl <;> rfl
  · rintro rfl
    simp at hb

theorem Steady.control (h : s.Steady) (ht : t.originMode = false) (b : UInt8) :
    ∃ s', control t s b = .ok s' ∧ Controlled b s s' := by
  have hx := h.wf.column
  have hy := h.row_range
  by_cases heff : isEffective b = true
  · simp only [isEffective, Bool.or_eq_true, decide_eq_true_eq] at heff
    rcases heff with ((((((rfl | rfl) | rfl) | rfl) | rfl) | rfl) | rfl) | rfl
    · exact ⟨s.setBell, rfl, { h with wf := { h.wf with } }, rfl, rfl, rfl, fun _ => Int.le_refl _,
        by simp, fun _ => rfl, fun _ => rfl⟩
    · refine ⟨s.backSpace, rfl, ?_⟩
      unfold backSpace
      split
      · rename_i hpos
        exact .of_eq (h.withCursorX (by omega) (by omega)) rfl rfl (by simp [columnAfter, hpos])
          rfl rfl (by decide)
      · rename_i hpos
        exact .of_eq h rfl rfl (by simp [columnAfter, hpos]) rfl rfl (by decide)
    · exact ⟨_, h.setTab, .of_eq (h.withCursorX (by omega) (by omega)) rfl rfl rfl rfl rfl
        (by decide)⟩
    · exact h.lineFeed t (Or.inl rfl)
    · exact h.lineFeed t (Or.inr (Or.inl rfl))
    · exact h.lineFeed t (Or.inr (Or.inr rfl))
    · -- a carriage return also goes up a row: `cursorToX:Y:` counts from 1, `cursorY` from 0
      have hmove : (s.cursorToXY t 1 s.cursorY).Steady ∧
          (s.cursorToXY t 1 s.cursorY).cursorX = 0 := by
        have hwf := cursorToXY_wf (t := t) h.wf 1 s.cursorY
        have hrow : 0 ≤ (s.cursorToXY t 1 s.cursorY).cursorY ∧
            (s.cursorToXY t 1 s.cursorY).cursorY < s.height := by
          simp only [cursorToXY, touch, ht, clampPos]
          split <;> omega
        have hcol : (s.cursorToXY t 1 s.cursorY).cursorX = 0 := by
          simp only [cursorToXY, touch, clampPos, show cint (1 - 1) = 0 from rfl]
          split <;> omega
        exact ⟨{ h with wf := hwf, row_range := hrow }, hcol⟩
      exact ⟨_, rfl, hmove.1, rfl, rfl, hmove.2, fun hne => absurd rfl hne, by simp,
        fun hbell => hbell, by simp⟩
    · obtain ⟨s', hok, hd, -⟩ := h.deleteCharacters t
      refine ⟨s', hok, .of_eq (h.draws hd) hd.width_eq hd.height_eq hd.cursor_eq.1 hd.cursor_eq.2
        ?_ (by decide)⟩
      obtain ⟨⟨b, d, line, fg, bg, lw, -, -, rfl⟩, -⟩ := hd
      rfl
  · have hnone : b ≠ 7 ∧ b ≠ 8 ∧ b ≠ 9 ∧ b ≠ 10 ∧ b ≠ 11 ∧ b ≠ 12 ∧ b ≠ 13 := by
      simp only [isEffective, Bool.or_eq_true, decide_eq_true_eq] at heff
      grind
    refine ⟨s, control_of_ineffective (by simpa using heff) t s, .of_eq h rfl rfl ?_ rfl rfl
      (by grind)⟩
    rw [columnAfter, if_neg hnone.2.1, if_neg hnone.2.2.1, if_neg hnone.2.2.2.2.2.2]

/-! ## All controls of a sequence -/

/-- What is seen of a screen. -/
structure SameView (s s' : Screen) : Prop where
  rows_eq : s'.rows = s.rows
  cursor_eq : s'.cursorX = s.cursorX ∧ s'.cursorY = s.cursorY
  margins_eq : s'.scrollTop = s.scrollTop ∧ s'.scrollBottom = s.scrollBottom
  bell_eq : s'.soundBell = s.soundBell

theorem Steady.controls (h : s.Steady) (ht : t.originMode = false) (bs : List UInt8) :
    ∃ s', bs.foldlM (MobileTerminal.control t) s = .ok s' ∧
      s'.cursorX = bs.foldl (columnAfter s.width) s.cursorX ∧
      (13 ∉ bs → s.cursorY ≤ s'.cursorY) ∧
      (13 ∉ bs → (∃ b ∈ bs, b = 10 ∨ b = 11 ∨ b = 12) → s.cursorY < s.height - 1 →
        s.cursorY < s'.cursorY) ∧
      (s.soundBell = true → s'.soundBell = true) ∧ (7 ∈ bs → s'.soundBell = true) := by
  induction bs generalizing s with
  | nil => exact ⟨s, rfl, rfl, fun _ => Int.le_refl _, by simp, fun h' => h', by simp⟩
  | cons b bs ih =>
      obtain ⟨s₁, h₁, hc⟩ := h.control ht b
      obtain ⟨s₂, h₂, hx, hle, hlt, hbell, hring⟩ := ih hc.steady
      rw [hc.width_eq, hc.column] at hx
      rw [hc.height_eq] at hlt
      refine ⟨s₂, by rw [List.foldlM_cons, h₁, ok_bind, h₂], hx, ?_, ?_, ?_, ?_⟩
      · intro hmem
        rw [List.mem_cons, not_or] at hmem
        exact Int.le_trans (hc.row_le (Ne.symm hmem.1)) (hle hmem.2)
      · intro hmem hlf hroom
        rw [List.mem_cons, not_or] at hmem
        have hfirst := hc.row_le (Ne.symm hmem.1)
        have hrest := hle hmem.2
        obtain ⟨b', hb', hkind⟩ := hlf
        rcases List.mem_cons.mp hb' with rfl | hb'
        · have := hc.row_lt hkind hroom
          omega
        · by_cases hmoved : s.cursorY < s₁.cursorY
          · omega
          · have := hlt hmem.2 ⟨b', hb', hkind⟩ (by omega)
            omega
      · exact fun hs => hbell (hc.bell_le hs)
      · intro hmem
        rcases List.mem_cons.mp hmem with heq | hmem
        · exact hbell (hc.bell heq.symm)
        · exact hring hmem

end Screen

/-! ## Complete sequences -/

/-- Only an incomplete control sequence is waited for: the scan has set no command. -/
theorem decodeCsi_wait {t : Terminal} {datap : List UInt8} {s s' : Screen} {tok : VT100TCC}
    {n : Nat} (hok : decodeCsi t datap s = .ok (tok, n, s')) (hwait : tok.type = .wait) :
    (csiResult datap).param.cmd = 0 := by
  obtain rfl | hseq | ⟨-, hcmd⟩ := decodeCsi_cases hok
  · cases hwait
  · exact absurd hwait hseq.not_wait
  · exact hcmd

theorem threeByte_wait {type : UInt8 → TokenType} (htype : ∀ c, type c ≠ .wait)
    {c2 : Option UInt8} (hwait : (threeByte type c2).1.type = .wait) :
    threeByte type c2 = ({ type := .wait }, 0) := by
  cases c2 with
  | none => rfl
  | some c => exact absurd hwait (htype c)

theorem decodeOther_wait {c1 : UInt8} {c2 : Option UInt8}
    (hwait : (decodeOther c1 c2).1.type = .wait) :
    decodeOther c1 c2 = ({ type := .wait }, 0) := by
  unfold decodeOther at hwait ⊢
  split at hwait
  case h_1 =>
    refine threeByte_wait (fun c => ?_) hwait
    split <;> decide
  all_goals first
    | exact threeByte_wait (fun _ => by decide) hwait
    | cases hwait

theorem decodePlain_wait {datap : List UInt8} (hwait : (decodePlain datap).1.type = .wait) :
    decodePlain datap = ({ type := .wait }, 0) := by
  cases datap with
  | nil => rfl
  | cons b rest =>
      rw [decodePlain.eq_def] at hwait ⊢
      simp only at hwait ⊢
      split at hwait
      · cases hwait
      · rename_i hzero
        rw [if_neg hzero]
        split at hwait
        · rename_i hesc
          rw [if_pos hesc]
          cases rest with
          | nil => rfl
          | cons c1 rest => exact decodeOther_wait hwait
        · cases hwait

namespace VT100

variable {F : Foundation} {v v' : VT100}

/-- Nothing that can be observed has changed. -/
structure Unchanged (v v' : VT100) : Prop where
  view : v.screen.SameView v'.screen
  modes : v.terminal.SameModes v'.terminal
  pending_eq : v'.terminal.pending = v.terminal.pending

theorem Unchanged.refl (v : VT100) : Unchanged v v :=
  ⟨⟨rfl, ⟨rfl, rfl⟩, ⟨rfl, rfl⟩, rfl⟩, .refl _, rfl⟩

/-- The bytes a decoder leaves are the pending ones afterwards. -/
theorem overwritePending_pending (h : v.terminal.Wf) {bytes : List UInt8}
    (hlen : bytes.length = v.terminal.pending.length) :
    (v.overwritePending bytes).terminal.pending = bytes := by
  have hpending := Terminal.pending_length h
  simp only [overwritePending, Terminal.pending]
  calc _ = (Block.ofList bytes 0).slice 0 bytes.length := by
        rw [show (v.terminal.currentStreamLength - v.terminal.streamOffset).toNat = bytes.length by
          omega]
        apply Block.slice_congr
        intro i hi
        rw [Block.paste_cell_of_mem _ _ (by omega) (by omega)]
        congr 1
        omega
    _ = bytes := Block.slice_ofList bytes 0

end VT100

end MobileTerminal
