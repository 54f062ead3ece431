import MobileTerminal.Chunks
import MobileTerminal.CursorRow

/-!
# Control characters inside a control sequence

`getCSIParam` executes the control characters it meets between parameters, by a
table of its own. A sequence with controls inserted into its parameters has the
effect of the controls followed by the sequence (`embedded_controls`) when each
of them does what the ordinary control character does and none of them stands
between two digits of a number. The two tables differ: inside a sequence a
carriage return goes to the row that `cursorToX:Y:` takes the current row for,
and a line feed is not followed by a carriage return.

A control before the prefix `?` or `>` is left out. The prefix is looked for
right behind `ESC [` only, so after a control the scan stops at it and the rest
of the sequence is read as text.

The end of the sequence may be any intermediate bytes and any final byte, whether
the scan knows them or not. Where it does not know the first of them it stops,
with the same bytes left to be read as text on both sides. So the proof compares
two scans that agree but for the number of bytes taken (`SameScan`), lets both
stop in the same place of the ending (`csiScan_ending`), and then runs the token
loop from two states that agree on the screen, the modes and what is pending
(`perform_alike`).
-/

namespace MobileTerminal

/-! ## The scan of a sequence with controls in it -/

/-- Two scans that stand at the same place but for the bytes taken. -/
def CsiState.SameScan (st st' : CsiState) : Prop := ∃ k, st' = { st with taken := k }

namespace CsiState.SameScan

variable {st st' : CsiState}

theorem refl (st : CsiState) : SameScan st st := ⟨_, rfl⟩

theorem commit (h : SameScan st st') : SameScan st.commit st'.commit := by
  obtain ⟨k, rfl⟩ := h
  cases hn : st.num with
  | none => exact ⟨k, by simp [CsiState.commit, hn]⟩
  | some n => exact ⟨k, by simp [CsiState.commit, hn]⟩

theorem punctuate (h : SameScan st st') (b : UInt8) :
    SameScan (st.punctuate b) (st'.punctuate b) := by
  obtain ⟨k, rfl⟩ := h
  unfold CsiState.punctuate
  simp only
  repeat' split
  all_goals exact ⟨_, rfl⟩

theorem digit (h : SameScan st st') (hs : st.stopped = false) {b : UInt8}
    (hb : isDigit b = true) : SameScan (st.step b) (st'.step b) := by
  obtain ⟨k, rfl⟩ := h
  simp only [CsiState.step, hs, hb, Bool.false_eq_true, if_false, if_true]
  exact ⟨_, rfl⟩

/-- Any other byte completes the numbers that are being read. -/
theorem step_of_commit (h : SameScan st.commit st'.commit) {b : UInt8}
    (hb : isDigit b = false) : SameScan (st.commit.step b) (st'.commit.step b) := by
  have hstop : st'.commit.stopped = st.commit.stopped := by
    obtain ⟨k, hk⟩ := h
    rw [hk]
  by_cases hs : st.commit.stopped = true
  · rw [CsiState.step_stopped hs, CsiState.step_stopped (hstop.trans hs)]
    exact h
  · simp only [CsiState.step, hs, hstop, hb, Bool.false_eq_true, if_false, CsiState.commit_commit]
    exact h.punctuate b

end CsiState.SameScan

/-- A byte that is not a digit finds the number complete in any case. -/
theorem CsiState.step_commit {st : CsiState} {b : UInt8} (hb : isDigit b = false)
    (hs : st.stopped = false) : st.step b = st.commit.step b := by
  have hs' : st.commit.stopped = false := st.commit_stopped.trans hs
  simp only [CsiState.step, hs, hs', hb, Bool.false_eq_true, if_false, CsiState.commit_commit]

theorem csiScan_controls {st : CsiState} (hs : st.stopped = false) {f : List UInt8}
    (hf : ∀ b ∈ f, isCsiControl b = true) : st.commit.SameScan (csiScan st f).commit := by
  induction f generalizing st with
  | nil => exact ⟨_, rfl⟩
  | cons b f ih =>
      have hstep := CsiState.step_control hs (hf b (by simp))
      have hrun : (st.step b).stopped = false := by
        rw [hstep]
        exact st.commit_stopped.trans hs
      have hcommit : st.commit.SameScan (st.step b).commit := by
        refine ⟨st.taken + 1, ?_⟩
        rw [hstep]
        cases hn : st.num <;> simp [CsiState.commit, hn]
      obtain ⟨k, hk⟩ := ih hrun fun c hc => hf c (List.mem_cons_of_mem b hc)
      obtain ⟨k', hk'⟩ := hcommit
      exact ⟨k, by rw [show csiScan st (b :: f) = csiScan (st.step b) f from rfl, hk, hk']⟩

theorem field_of_no_digits {f : List UInt8} (hf : ∀ b ∈ f, isField b = true) {inRun : Bool}
    (h : digitRuns inRun f = 0) (hfirst : inRun = false) :
    (∀ b ∈ f, isCsiControl b = true) ∧ f.filter isDigit = [] := by
  subst hfirst
  induction f with
  | nil => exact ⟨nofun, rfl⟩
  | cons b f ih =>
      have hd : isDigit b = false := by
        by_contra hd
        rw [digitRuns, if_pos (by simpa using hd)] at h
        simp at h
      rw [digitRuns, hd] at h
      obtain ⟨hcontrols, hfilter⟩ := ih (fun c hc => hf c (List.mem_cons_of_mem b hc)) h
      have hb : isCsiControl b = true := by
        have hb := hf b (by simp)
        rwa [isField, hd, Bool.false_or] at hb
      exact ⟨List.forall_mem_cons.mpr ⟨hb, hcontrols⟩, by simp [hd, hfilter]⟩

/-- The rest of a parameter whose number is being read. -/
theorem csiScan_unsplit_run {st st' : CsiState} (h : st.SameScan st') (hs : st.stopped = false)
    {f : List UInt8} (hf : ∀ b ∈ f, isField b = true) (hruns : digitRuns true f = 0) :
    (csiScan st f).commit.SameScan (csiScan st' (f.filter isDigit)).commit := by
  induction f generalizing st st' with
  | nil => exact h.commit
  | cons b f ih =>
      have hf' : ∀ c ∈ f, isField c = true := fun c hc => hf c (List.mem_cons_of_mem b hc)
      by_cases hd : isDigit b = true
      · have hstep := h.digit hs hd
        have hrun : (st.step b).stopped = false := by simp [CsiState.step, hs, hd]
        rw [digitRuns, if_pos hd] at hruns
        have htail := ih hstep hrun hf' (by simpa using hruns)
        rw [List.filter_cons_of_pos hd]
        exact htail
      · -- the number ends here, and no other begins
        rw [digitRuns, if_neg hd] at hruns
        obtain ⟨hcontrols, hfilter⟩ := field_of_no_digits hf' hruns rfl
        have hb : isCsiControl b = true := by
          have hb := hf b (by simp)
          simpa [isField, hd] using hb
        obtain ⟨k, hk⟩ := csiScan_controls hs (List.forall_mem_cons.mpr ⟨hb, hcontrols⟩)
        obtain ⟨k', hk'⟩ := h.commit
        rw [List.filter_cons_of_neg hd, hfilter]
        exact ⟨k', by rw [hk, show csiScan st' [] = st' from rfl, hk']⟩

/-- A parameter in which no control character stands between two digits. -/
theorem csiScan_unsplit {st st' : CsiState} (h : st.SameScan st') (hs : st.stopped = false)
    (hnum : st.num = none) {f : List UInt8} (hf : ∀ b ∈ f, isField b = true)
    (hruns : digitRuns false f ≤ 1) :
    (csiScan st f).commit.SameScan (csiScan st' (f.filter isDigit)).commit := by
  induction f generalizing st st' with
  | nil => exact h.commit
  | cons b f ih =>
      have hf' : ∀ c ∈ f, isField c = true := fun c hc => hf c (List.mem_cons_of_mem b hc)
      by_cases hd : isDigit b = true
      · have hrun : (st.step b).stopped = false := by simp [CsiState.step, hs, hd]
        rw [digitRuns, if_pos hd] at hruns
        rw [List.filter_cons_of_pos hd]
        exact csiScan_unsplit_run (h.digit hs hd) hrun hf' (by simp at hruns; omega)
      · rw [digitRuns, if_neg hd] at hruns
        have hb : isCsiControl b = true := by
          have hb := hf b (by simp)
          simpa [isField, hd] using hb
        have hcommit : st.commit = st := by rw [CsiState.commit, hnum]
        have hstep : st.step b = { st with taken := st.taken + 1 } := by
          rw [CsiState.step_control hs hb, hcommit]
        have hsame : (st.step b).SameScan st' := by
          obtain ⟨k, rfl⟩ := h
          exact ⟨k, by rw [hstep]⟩
        have htail := ih hsame (by rw [hstep]; exact hs) (by rw [hstep]; exact hnum) hf' hruns
        rw [List.filter_cons_of_neg hd]
        exact htail

/-- A separator or a final byte after such a parameter. -/
theorem csiScan_unsplit_then {st st' : CsiState} (h : st.SameScan st') (hs : st.stopped = false)
    (hnum : st.num = none) {f : List UInt8} (hf : ∀ b ∈ f, isField b = true)
    (hruns : digitRuns false f ≤ 1) {b : UInt8} (hb : isDigit b = false) :
    (csiScan st (f ++ [b])).SameScan (csiScan st' (f.filter isDigit ++ [b])) := by
  have hs' : st'.stopped = false := by
    obtain ⟨k, rfl⟩ := h
    exact hs
  have hrun := (csiScan_field hs hf).running
  have hdigits : ∀ c ∈ f.filter isDigit, isField c = true := by
    intro c hc
    simp [isField, (List.mem_filter.mp hc).2]
  have hrun' := (csiScan_field hs' hdigits).running
  have hsame := CsiState.SameScan.step_of_commit (csiScan_unsplit h hs hnum hf hruns) hb
  rw [← CsiState.step_commit hb hrun, ← CsiState.step_commit hb hrun'] at hsame
  rw [csiScan_append, csiScan_append]
  exact hsame

/-- The sequence without the controls. -/
def plainFields (fields : List (List UInt8)) : List (List UInt8) :=
  fields.map fun f => f.filter isDigit

theorem csiScan_unsplit_fields {st st' : CsiState} (h : st.SameScan st') (hnum : st.num = none)
    (hs : st.stopped = false) {fields : List (List UInt8)}
    (hf : ∀ f ∈ fields, ∀ b ∈ f, isField b = true) (hruns : ∀ f ∈ fields, digitRuns false f ≤ 1)
    {b : UInt8} (hb : isDigit b = false) :
    (csiScan st (joinParams fields ++ [b])).SameScan
      (csiScan st' (joinParams (plainFields fields) ++ [b])) := by
  induction fields generalizing st st' with
  | nil => exact csiScan_unsplit_then h hs hnum (f := []) nofun (Nat.zero_le 1) hb
  | cons f fields ih =>
      cases fields with
      | nil => exact csiScan_unsplit_then h hs hnum (hf f (by simp)) (hruns f (by simp)) hb
      | cons g gs =>
          have hsep : (csiScan st (f ++ [0x3b])).SameScan
              (csiScan st' (f.filter isDigit ++ [0x3b])) :=
            csiScan_unsplit_then h hs hnum (hf f (by simp)) (hruns f (by simp)) (by decide)
          have hjoin : joinParams (f :: g :: gs) ++ [b] =
              (f ++ [0x3b]) ++ (joinParams (g :: gs) ++ [b]) := by
            rw [joinParams_cons f (List.cons_ne_nil g gs)]
            simp
          have hjoin' : joinParams (plainFields (f :: g :: gs)) ++ [b] =
              (f.filter isDigit ++ [0x3b]) ++ (joinParams (plainFields (g :: gs)) ++ [b]) := by
            rw [plainFields, List.map_cons, joinParams_cons _ (by simp)]
            simp [plainFields]
          rw [hjoin, hjoin', csiScan_append st, csiScan_append st']
          by_cases hstop : (csiScan st (f ++ [0x3b])).stopped = true
          · -- the table is full for both
            have hstop' : (csiScan st' (f.filter isDigit ++ [0x3b])).stopped = true := by
              obtain ⟨k, hk⟩ := hsep
              rw [hk]
              exact hstop
            rw [csiScan_stopped hstop, csiScan_stopped hstop']
            exact hsep
          · have hnum' : (csiScan st (f ++ [0x3b])).num = none := by
              rw [csiScan_append]
              show ((csiScan st f).step 0x3b).num = none
              rw [CsiState.step_separator _ (csiScan_field hs (hf f (by simp))).running]
            exact ih hsep hnum' (by simpa using hstop)
              (fun g hg => hf g (List.mem_cons_of_mem f hg))
              (fun g hg => hruns g (List.mem_cons_of_mem f hg))

/-- The controls met by a scan that goes on. -/
theorem csiControls_running {st : CsiState} {bytes : List UInt8}
    (h : (csiScan st bytes).stopped = false) :
    csiControls st bytes = bytes.filter isCsiControl := by
  induction bytes generalizing st with
  | nil => rfl
  | cons b bs ih =>
      have hrun : st.stopped = false := by
        by_contra hs
        rw [csiScan_stopped (by simpa using hs)] at h
        exact hs h
      have htail : csiControls (st.step b) bs = bs.filter isCsiControl := ih h
      rw [csiControls, htail, hrun]
      by_cases hb : isCsiControl b = true
      · simp [hb]
      · simp [hb]

/-- With at most 16 parameters the scan goes on to the final byte. -/
theorem csiScan_unsplit_running {st : CsiState} {n : Int} (h : st.Ready n)
    {fields : List (List UInt8)} (hf : ∀ f ∈ fields, ∀ b ∈ f, isField b = true)
    (hruns : ∀ f ∈ fields, digitRuns false f ≤ 1) (hlen : n + fields.length ≤ csiParamMax) :
    (csiScan st (joinParams fields)).stopped = false := by
  induction fields generalizing st n with
  | nil => exact h.running
  | cons f fields ih =>
      cases fields with
      | nil => exact (csiScan_field h.running (hf f (by simp))).running
      | cons g gs =>
          have hone : max 1 (digitRuns false f) = 1 := by
            have := hruns f (by simp)
            omega
          obtain ⟨hready, -⟩ := csiScan_fieldSeparator h (hf f (by simp))
          simp only [List.length_cons, Nat.cast_add, Nat.cast_one] at hlen
          rw [hone] at hready
          have hjoin : joinParams (f :: g :: gs) = (f ++ [0x3b]) ++ joinParams (g :: gs) := by
            rw [joinParams_cons f (List.cons_ne_nil g gs)]
            simp
          rw [hjoin, csiScan_append]
          refine ih (hready (by push_cast; omega)) (fun g hg => hf g (List.mem_cons_of_mem f hg))
            (fun g hg => hruns g (List.mem_cons_of_mem f hg)) ?_
          simp only [List.length_cons, Nat.cast_add, Nat.cast_one]
          omega

/-! ## The two tables

`putToken:` and the scanner each have a table of what the six control characters
do. The entries for BS and HT are the same operation; those for LF, VT and FF
differ in the column, and the one for CR in the row. -/

namespace Screen

variable {t : Terminal} {s s' : Screen}

/-- BS, HT, LF, VT, FF and CR -/
def isMover (b : UInt8) : Bool := 8 ≤ b && b ≤ 13

/-- The cursor is on the screen and nothing is printed. -/
structure TakesControls (s : Screen) : Prop where
  wf : s.Wf
  row : s.OnScreen
  print_off : s.printToAnsi = false
  height_int : IsInt s.height

/-- `cursorToX:Y:` counts rows from 1, and in origin mode from the top margin: it
is told the row of the cursor and goes to the row above it or, in origin mode, to
the one `SCROLL_TOP - 1` rows below. This is where it stays. -/
def RowStays (t : Terminal) (s : Screen) : Prop :=
  if t.originMode then
    s.scrollTop = 1 ∨ s.cursorY = 0 ∧ s.scrollTop = 0 ∨
      s.cursorY = s.height - 1 ∧ 0 < s.scrollTop ∧ s.cursorY - 1 + s.scrollTop < 2 ^ 31
  else s.cursorY = 0

theorem rowStays_iff (h : s.TakesControls) :
    (s.cursorToXY t 1 s.cursorY).cursorY = s.cursorY ↔ RowStays t s := by
  have hy := h.row
  have hm := h.wf.margins
  have hint := h.height_int
  unfold OnScreen at hy
  unfold IsInt at hint
  show clampPos (if t.originMode then cint (cint (s.cursorY - 1) + s.scrollTop)
    else cint (s.cursorY - 1)) s.height = s.cursorY ↔ _
  rw [cint_of_isInt (n := s.cursorY - 1) ⟨by omega, by omega⟩]
  unfold RowStays clampPos
  split
  · by_cases hlt : s.cursorY - 1 + s.scrollTop < 2 ^ 31
    · rw [cint_of_isInt ⟨by omega, hlt⟩]
      constructor
      · intro hrow
        split at hrow
        · omega
        · split at hrow <;> omega
      · intro hstay
        split
        · omega
        · split <;> omega
    · -- the sum has become negative
      have hneg : cint (s.cursorY - 1 + s.scrollTop) < 0 := by
        unfold cint
        omega
      rw [if_pos hneg]
      omega
  · constructor
    · intro hrow
      split at hrow
      · omega
      · split at hrow <;> omega
    · intro hstay
      rw [if_pos (by omega)]
      omega

/-- Where the control character does the same inside a sequence as outside. -/
def SameAct (t : Terminal) (s : Screen) (b : UInt8) : Prop :=
  match b.toNat with
  | 10 => s.cursorX = 0
  | 11 => s.cursorX = 0
  | 12 => s.cursorX = 0
  | 13 => RowStays t s
  | _ => True

theorem setNewLine_cursorX (h : s.Wf) (hok : s.setNewLine t = .ok s') :
    s'.cursorX = s.cursorX := by
  obtain ⟨-, hd⟩ | ⟨-, -, hd⟩ | ⟨-, -, hd⟩ := setNewLine_cases h hok
  · exact hd.cursor_eq.1
  · rw [hd.cursor_eq.1, h.rotate_eq]
    split <;> rfl
  · exact hd.cursor_eq.1

/-- Outside a sequence a line feed goes to the first column. -/
theorem setNewLine_lineFeed (h : s.TakesControls) (hx : s.cursorX = 0) :
    s.lineFeed t = s.setNewLine t := by
  rw [lineFeed, h.print_off, if_neg (by decide)]
  conv_rhs => rw [← bind_pure (s.setNewLine t)]
  refine bind_congr_ok fun s' hok => ?_
  have hx' : s'.cursorX = 0 := (setNewLine_cursorX h.wf hok).trans hx
  rw [← hx']
  rfl

theorem cursorToXY_carriageReturn (h : s.TakesControls) (hrow : RowStays t s) :
    SameButDirty (s.cursorToXY t 1 s.cursorY) { s with cursorX := 0 } := by
  have hw := h.wf.width_pos
  have hx : (s.cursorToXY t 1 s.cursorY).cursorX = 0 := by
    show clampPos (cint (1 - 1)) s.width = 0
    rw [show cint (1 - 1) = 0 from rfl, clampPos, if_neg (by decide), if_neg (by omega)]
  have hy := (rowStays_iff h).mpr hrow
  have hmoved : SameButDirty (s.cursorToXY t 1 s.cursorY)
      { s with cursorX := (s.cursorToXY t 1 s.cursorY).cursorX
               cursorY := (s.cursorToXY t 1 s.cursorY).cursorY } := ⟨s.dirty, rfl⟩
  rwa [hx, hy] at hmoved

theorem mover_cases {b : UInt8} (hb : isMover b = true) :
    b.toNat = 8 ∨ b.toNat = 9 ∨ b.toNat = 10 ∨ b.toNat = 11 ∨ b.toNat = 12 ∨ b.toNat = 13 := by
  have hcode : 8 ≤ b.toNat ∧ b.toNat ≤ 13 := by
    simpa [isMover, UInt8.le_iff_toNat_le] using hb
  omega

theorem mover_control {b : UInt8} (hb : isMover b = true) : isCsiControl b = true := by
  obtain hcode | hcode | hcode | hcode | hcode | hcode := mover_cases hb
  all_goals simp [isCsiControl, csiControlCodes, hcode]

/-- Among digits and these the control characters are these. -/
theorem filter_movers {l : List UInt8} (hl : ∀ b ∈ l, isDigit b = true ∨ isMover b = true) :
    l.filter isCsiControl = l.filter isMover := by
  refine List.filter_congr fun b hb => ?_
  obtain hd | hm := hl b hb
  · have hcontrol := digit_not_control hd
    by_cases hm : isMover b = true
    · rw [hm, mover_control hm]
    · rw [hcontrol]
      simpa using hm
  · rw [hm, mover_control hm]

/-- The two tables agree on such a control character. -/
theorem control_putControl (h : s.TakesControls) {b : UInt8} (hb : isMover b = true)
    (hsame : SameAct t s b) :
    ExceptRel SameButDirty (MobileTerminal.control t s b) (s.putControl t b.toNat) := by
  unfold MobileTerminal.control csiControl putControl
  unfold SameAct at hsame
  obtain hcode | hcode | hcode | hcode | hcode | hcode := mover_cases hb
  all_goals simp only [hcode] at hsame ⊢
  · exact .refl _
  · exact .of_eq SameButDirty.refl _
  · exact setNewLine_lineFeed h hsame ▸ .of_eq SameButDirty.refl _
  · exact setNewLine_lineFeed h hsame ▸ .of_eq SameButDirty.refl _
  · exact setNewLine_lineFeed h hsame ▸ .of_eq SameButDirty.refl _
  · exact cursorToXY_carriageReturn h hsame

theorem putControl_printOff (h : s.TakesControls) {code : Nat}
    (hok : s.putControl t code = .ok s') : s'.printToAnsi = false := by
  have hprint := h.print_off
  unfold putControl at hok
  split at hok
  case h_1 =>
    cases hok
    exact hprint
  case h_2 =>
    cases hok
    unfold backSpace
    split <;> exact hprint
  case h_3 =>
    obtain ⟨x, -, hok⟩ := bind_eq_ok.mp hok
    cases hok
    exact hprint
  case h_7 =>
    cases hok
    exact hprint
  case h_8 => exact (deleteCharacters_draws hok).samePrinter.print_eq.trans hprint
  case h_9 =>
    cases hok
    exact hprint
  all_goals
    -- the line feed
    rw [lineFeed, hprint, if_neg (by decide)] at hok
    obtain ⟨s₁, h₁, hok⟩ := bind_eq_ok.mp hok
    cases hok
    exact (setNewLine_samePrinter h₁).print_eq.trans hprint

theorem TakesControls.putControl (h : s.TakesControls) {code : Nat}
    (hok : s.putControl t code = .ok s') : s'.TakesControls where
  wf := putControl_wf h.wf hok
  row := putControl_onScreen h.wf h.row hok
  print_off := putControl_printOff h hok
  height_int := by
    rw [(putControl_keeps hok).height_eq]
    exact h.height_int

/-- The control characters outside a sequence, one after the other. -/
def putControls (t : Terminal) (bs : List UInt8) (s : Screen) : Res Screen :=
  bs.foldlM (fun s b => s.putControl t b.toNat) s

/-- Each of the control characters does the same inside a sequence as outside. -/
def ActsAlike (t : Terminal) : Screen → List UInt8 → Prop
  | _, [] => True
  | s, b :: bs =>
      SameAct t s b ∧ ∀ s', s.putControl t b.toNat = .ok s' → ActsAlike t s' bs

theorem controls_putControls {bs : List UInt8} (hs : s.SameButDirty s') (h : s'.TakesControls)
    (hbs : ∀ b ∈ bs, isMover b = true) (hacts : ActsAlike t s' bs) :
    ExceptRel SameButDirty (bs.foldlM (MobileTerminal.control t) s) (putControls t bs s') := by
  induction bs generalizing s s' with
  | nil => exact hs
  | cons b bs ih =>
      obtain ⟨hsame, hacts⟩ := hacts
      have hstep : ExceptRel SameButDirty (MobileTerminal.control t s b)
          (s'.putControl t b.toNat) :=
        (hs.control t b).trans (fun _ _ _ h h' => h.trans h')
          (control_putControl h (hbs b (by simp)) hsame)
      rw [putControls, List.foldlM_cons, List.foldlM_cons]
      exact hstep.bind_ok fun s₁ s₁' _ h₁' hs₁ =>
        ih hs₁ (h.putControl h₁') (fun c hc => hbs c (List.mem_cons_of_mem b hc)) (hacts s₁' h₁')

theorem TakesControls.putControls (h : s.TakesControls) {bs : List UInt8}
    (hok : s.putControls t bs = .ok s') : s'.TakesControls :=
  foldlM_inv (P := TakesControls) (fun _ _ _ hI hs => hI.putControl hs) h hok

theorem putControls_sameModes {t' : Terminal} (h : t.SameModes t') (bs : List UInt8) (s : Screen) :
    s.putControls t' bs = s.putControls t bs := by
  obtain ⟨stream, len, total, off, rfl⟩ := h
  rfl

end Screen

/-! ## Where a sequence ends -/

/-- A control sequence ends with a final byte. In front of it stand, from the first byte on
that is neither a digit nor `;`, the rest of the parameter bytes and the intermediate bytes,
of which there may be none. `front` is what comes before that: a `?` or `>` right behind
`ESC [` would be the prefix. -/
def IsEnding (front ending : List UInt8) : Prop :=
  ∃ inter final, ending = inter ++ [final] ∧ (∀ b ∈ inter, 0x20 ≤ b ∧ b ≤ 0x3f) ∧
    (∀ b ∈ inter.head?, isDigit b = false ∧ b ≠ 0x3b ∧ (b = 0x3f ∨ b = 0x3e → front ≠ [])) ∧
    0x40 ≤ final ∧ final ≤ 0x7e

/-- How much of it the scan takes: a letter or `@`, or `'` or `&` and the byte
behind it. Of anything else it takes nothing, and that is read as text. -/
def endingTaken : List UInt8 → Nat
  | [] => 0
  | b :: _ => if isFinal b then 1 else if b = 0x27 || b = 0x26 then 2 else 0

/-- `ESC [`, the prefix, the parameters and the ending. -/
def controlSequence (pre : List UInt8) (params : List (List UInt8)) (ending : List UInt8) :
    List UInt8 :=
  escByte :: 0x5b :: (pre ++ (joinParams params ++ ending))

/-- It begins with a byte at which the scan stops. -/
theorem IsEnding.cons {front ending : List UInt8} (h : IsEnding front ending) :
    ∃ b bs, ending = b :: bs ∧ (isDigit b = false ∧ b ≠ 0x3b ∧ isCsiControl b = false) ∧
      (b.toNat < 64 → bs ≠ []) ∧ (b = 0x3f ∨ b = 0x3e → front ≠ []) := by
  have hprint {b : UInt8} (hb : 32 ≤ b.toNat ∧ b.toNat ≤ 126) : isCsiControl b = false := by
    simp only [isCsiControl, csiControlCodes, List.contains_cons, List.contains_nil,
      Bool.or_eq_false_iff, beq_eq_false_iff_ne, ne_eq, and_true]
    omega
  obtain ⟨inter, final, rfl, hinter, hhead, hfinal⟩ := h
  simp only [UInt8.le_iff_toNat_le, UInt8.reduceToNat] at hinter hfinal
  cases inter with
  | nil =>
      refine ⟨final, [], rfl, ⟨?_, ?_, hprint (by omega)⟩, by omega, ?_⟩
      · simp only [isDigit, Bool.and_eq_false_iff, decide_eq_false_iff_not,
          UInt8.le_iff_toNat_le, UInt8.reduceToNat]
        omega
      · rintro rfl
        simp at hfinal
      · rintro (rfl | rfl) <;> simp at hfinal
  | cons b inter =>
      have hb := hinter b (by simp)
      obtain ⟨hdigit, hsemi, hfront⟩ := hhead b rfl
      exact ⟨b, inter ++ [final], rfl, ⟨hdigit, hsemi, hprint (by omega)⟩, by simp, hfront⟩

theorem IsEnding.mono {front front' ending : List UInt8} (h : IsEnding front ending)
    (hfront : front' = [] → front = []) : IsEnding front' ending := by
  obtain ⟨inter, final, hbytes, hinter, hhead, hfinal⟩ := h
  refine ⟨inter, final, hbytes, hinter, fun b hb => ?_, hfinal⟩
  obtain ⟨hdigit, hsemi, hprefix⟩ := hhead b hb
  exact ⟨hdigit, hsemi, fun hb hnil => hprefix hb (hfront hnil)⟩

theorem endingTaken_le {front ending : List UInt8} (h : IsEnding front ending) :
    endingTaken ending ≤ ending.length := by
  obtain ⟨b, bs, rfl, -, hlong, -⟩ := h.cons
  rw [endingTaken]
  split
  · simp
  · split
    · rename_i hquote
      have hcode : b.toNat = 39 ∨ b.toNat = 38 := by
        simpa [← UInt8.toNat_inj] using hquote
      obtain ⟨c, cs, rfl⟩ := List.exists_cons_of_ne_nil (hlong (by omega))
      simp
    · simp

/-- What the scan does with the ending. -/
structure CsiState.Ends (st st' : CsiState) (k : Nat) : Prop where
  stopped : st'.stopped = true
  num_eq : st'.num = none
  taken_eq : st'.taken = st.taken + k
  cmd_pos : 0 < st'.param.cmd

theorem CsiState.step_ending {st : CsiState} (hs : st.stopped = false) {b : UInt8}
    (hb : isDigit b = false ∧ b ≠ 0x3b ∧ isCsiControl b = false) (bs : List UInt8) :
    st.Ends (st.step b) (endingTaken (b :: bs)) := by
  obtain ⟨hdigit, hsemi, hcontrol⟩ := hb
  have hnum : st.commit.num = none := by
    cases hn : st.num <;> simp [CsiState.commit, hn]
  simp only [CsiState.step, hs, hdigit, CsiState.punctuate, hsemi, hcontrol, endingTaken, isFinal,
    Bool.false_eq_true, if_false]
  by_cases hfinal : (isAlpha b || b = 0x40) = true
  · simp only [hfinal, if_true]
    refine ⟨rfl, hnum, by rw [CsiState.commit_taken], ?_⟩
    have hcode : 0 < b.toNat := by
      simp only [isAlpha, Bool.or_eq_true, Bool.and_eq_true, decide_eq_true_eq,
        UInt8.le_iff_toNat_le, UInt8.reduceToNat, ← UInt8.toNat_inj] at hfinal
      omega
    exact hcode
  · by_cases hquote : (b = 0x27 || b = 0x26) = true
    · simp only [hfinal, hquote, Bool.false_eq_true, if_true, if_false]
      exact ⟨rfl, hnum, by rw [CsiState.commit_taken], Nat.succ_pos _⟩
    · simp only [hfinal, hquote, Bool.false_eq_true, if_false]
      exact ⟨rfl, hnum, by rw [CsiState.commit_taken, Nat.add_zero], Nat.succ_pos _⟩

theorem csiScan_ending {st : CsiState} (hs : st.stopped = false) {front ending : List UInt8}
    (h : IsEnding front ending) :
    st.Ends (csiScan st ending) (endingTaken ending) ∧ csiControls st ending = [] := by
  obtain ⟨b, bs, rfl, hb, -, -⟩ := h.cons
  have hends := CsiState.step_ending hs hb bs
  have hscan : csiScan st (b :: bs) = st.step b := csiScan_stopped hends.stopped bs
  refine ⟨hscan ▸ hends, ?_⟩
  simp [csiControls, hb.2.2, csiControls_stopped hends.stopped]

/-! ## Decoding the sequence -/

theorem isField_range {b : UInt8} (hb : isField b = true) : b ≠ 0x3f ∧ b ≠ 0x3e := by
  constructor <;> rintro rfl <;> cases hb

theorem filter_joinParams {p : UInt8 → Bool} (hp : p 0x3b = false) (fields : List (List UInt8)) :
    (joinParams fields).filter p = fields.flatten.filter p := by
  induction fields with
  | nil => rfl
  | cons f fields ih =>
      cases fields with
      | nil => simp [joinParams]
      | cons g gs =>
          rw [joinParams_cons f (List.cons_ne_nil g gs), List.flatten_cons, List.filter_append,
            List.filter_append, ← ih, List.filter_cons_of_neg (by simp [hp])]

theorem digitRuns_digits {f : List UInt8} (hf : ∀ b ∈ f, isDigit b = true) :
    digitRuns true f = 0 := by
  induction f with
  | nil => rfl
  | cons b f ih =>
      rw [digitRuns, if_pos (hf b (by simp)), ih fun c hc => hf c (List.mem_cons_of_mem b hc)]
      rfl

/-- Parameters of digits and controls, no control between two digits. -/
structure IsUnsplit (fields : List (List UInt8)) : Prop where
  field : ∀ f ∈ fields, ∀ b ∈ f, isField b = true
  runs : ∀ f ∈ fields, digitRuns false f ≤ 1

section

variable {pre : List UInt8} {fields : List (List UInt8)} {ending : List UInt8}

/-- Without the controls there is nothing to split a number. -/
theorem plainFields_unsplit (fields : List (List UInt8)) : IsUnsplit (plainFields fields) := by
  have hdigits : ∀ f ∈ plainFields fields, ∀ b ∈ f, isDigit b = true := by
    intro f hf b hb
    obtain ⟨g, -, rfl⟩ := List.mem_map.mp hf
    exact (List.mem_filter.mp hb).2
  refine ⟨fun f hf b hb => by simp [isField, hdigits f hf b hb], fun f hf => ?_⟩
  cases f with
  | nil => exact Nat.zero_le 1
  | cons b f =>
      have hb := hdigits _ hf b (by simp)
      have htail := digitRuns_digits fun c hc => hdigits _ hf c (List.mem_cons_of_mem b hc)
      rw [digitRuns, if_pos hb, htail]
      rfl

theorem plainFields_controls (fields : List (List UInt8)) :
    (plainFields fields).flatten.filter isCsiControl = [] := by
  rw [List.filter_eq_nil_iff]
  intro b hb
  obtain ⟨f, hf, hb⟩ := List.mem_flatten.mp hb
  obtain ⟨g, -, rfl⟩ := List.mem_map.mp hf
  simp [digit_not_control (List.mem_filter.mp hb).2]

theorem joinParams_eq_nil {params : List (List UInt8)} (h : joinParams params = []) :
    params = [] ∨ params = [[]] := by
  match params with
  | [] => exact .inl rfl
  | [p] => exact .inr (congrArg (fun p => [p]) h)
  | p :: q :: qs => simp [joinParams] at h

/-- What is left without the controls was there with them. -/
theorem IsEnding.unsplit (hend : IsEnding (pre ++ joinParams (plainFields fields)) ending) :
    IsEnding (pre ++ joinParams fields) ending := by
  refine hend.mono fun hnil => ?_
  obtain ⟨rfl, hjoin⟩ := List.append_eq_nil_iff.mp hnil
  rcases joinParams_eq_nil hjoin with rfl | rfl <;> rfl

/-- Where the scan of a sequence starts: a `?` or `>` behind the prefix or a parameter is not
taken for a prefix. -/
theorem csiPrefix_fields (hpre : IsPrefix pre) (h : IsUnsplit fields)
    (hend : IsEnding (pre ++ joinParams fields) ending) :
    csiPrefix (controlSequence pre fields ending) =
      (prefixParam pre, joinParams fields ++ ending, 2 + pre.length) := by
  obtain ⟨b, bs, rfl, -, -, hfront⟩ := hend.cons
  have hfield : ∀ f ∈ fields, ∀ c ∈ f, c ≠ 0x3f ∧ c ≠ 0x3e :=
    fun f hf c hc => isField_range (h.field f hf c hc)
  have hbytes : controlSequence pre fields (b :: bs) = csiSequence pre fields b ++ bs := by
    simp [controlSequence, csiSequence]
  by_cases hb : b = 0x3f ∨ b = 0x3e
  · rcases hpre with rfl | rfl | rfl
    · obtain ⟨c, cs, hcs⟩ := List.exists_cons_of_ne_nil (hfront hb)
      rw [List.nil_append] at hcs
      have hc : c ≠ 0x3f ∧ c ≠ 0x3e := by
        obtain ⟨f, hf, hcf⟩ | rfl := mem_joinParams (b := c) (by rw [hcs]; simp)
        · exact hfield f hf c hcf
        · decide
      have hdrop : (controlSequence [] fields (b :: bs)).drop 2 = c :: (cs ++ b :: bs) := by
        simp [controlSequence, hcs]
      rw [csiPrefix, hdrop, hcs]
      simp only
      split
      · rename_i heq
        exact absurd (List.cons.inj heq).1 hc.1
      · rename_i heq
        exact absurd (List.cons.inj heq).1 hc.2
      · rfl
    · rfl
    · rfl
  · rw [hbytes]
    exact csiPrefix_body hpre hfield ⟨fun heq => hb (.inl heq), fun heq => hb (.inr heq)⟩ bs

/-- A sequence is scanned up to its ending, and its controls are those inserted. -/
theorem csiResult_sequence (hpre : IsPrefix pre) (h : IsUnsplit fields) (hlen : fields.length ≤ 16)
    (hend : IsEnding (pre ++ joinParams fields) ending) :
    (csiResult (controlSequence pre fields ending)).taken =
        2 + pre.length + (joinParams fields).length + endingTaken ending ∧
      0 < (csiResult (controlSequence pre fields ending)).param.cmd ∧
      embeddedControls (controlSequence pre fields ending) =
        fields.flatten.filter isCsiControl := by
  have hmax : csiParamMax = 16 := rfl
  have hprefix := csiPrefix_fields hpre h hend
  have hready := csiStart_ready (controlSequence pre fields ending)
  have hrun := csiScan_unsplit_running hready h.field h.runs (by omega)
  obtain ⟨hends, hcontrols⟩ := csiScan_ending hrun hend
  have hstart : (csiStart (controlSequence pre fields ending)).taken = 2 + pre.length := by
    rw [csiStart, CsiState.start, hprefix]
  refine ⟨?_, ?_, ?_⟩
  · rw [csiResult, CsiState.commit_taken, hprefix, csiScan_append, hends.taken_eq,
      csiScan_running hrun, hstart]
  · rw [csiResult, hprefix, csiScan_append, CsiState.commit, hends.num_eq]
    exact hends.cmd_pos
  · rw [embeddedControls, hprefix, csiControls_append, csiControls_running hrun,
      filter_joinParams (by decide), hcontrols, List.append_nil]

/-- The parameters are those of the sequence without the controls. -/
theorem csiResult_unsplit (hpre : IsPrefix pre) (h : IsUnsplit fields) (hlen : fields.length ≤ 16)
    (hend : IsEnding (pre ++ joinParams (plainFields fields)) ending) :
    (csiResult (controlSequence pre (plainFields fields) ending)).param =
      (csiResult (controlSequence pre fields ending)).param := by
  have hmax : csiParamMax = 16 := rfl
  have hprefix := csiPrefix_fields hpre h hend.unsplit
  have hprefix' := csiPrefix_fields hpre (plainFields_unsplit fields) hend
  have hready := csiStart_ready (controlSequence pre fields ending)
  have hstart : csiStart (controlSequence pre (plainFields fields) ending) =
      csiStart (controlSequence pre fields ending) := by
    rw [csiStart, csiStart, hprefix, hprefix']
  rw [csiResult, csiResult, hprefix, hprefix', hstart]
  generalize csiStart (controlSequence pre fields ending) = st at hready ⊢
  obtain ⟨b, bs, rfl, hb, -, -⟩ := hend.cons
  have hsame := csiScan_unsplit_fields (.refl st) hready.num_eq hready.running h.field h.runs hb.1
  have hrun := csiScan_unsplit_running hready h.field h.runs (by omega)
  -- behind the first byte of the ending both scans have stopped
  have hstop : (csiScan st (joinParams fields ++ [b])).stopped = true := by
    rw [csiScan_append]
    exact (CsiState.step_ending hrun hb bs).stopped
  have hstop' : (csiScan st (joinParams (plainFields fields) ++ [b])).stopped = true := by
    obtain ⟨k, hk⟩ := hsame
    rw [hk]
    exact hstop
  have hend (bytes : List UInt8) : bytes ++ b :: bs = (bytes ++ [b]) ++ bs := by simp
  rw [hend, hend, csiScan_append, csiScan_append st (_ ++ [b]), csiScan_stopped hstop,
    csiScan_stopped hstop']
  obtain ⟨k, hk⟩ := hsame.commit
  rw [hk]

/-- The token for the parameters of a complete sequence. -/
def CSIParam.token (param : CSIParam) (height : Int) : Res VT100TCC :=
  if param.cmd = 0xff then .ok { type := .unknownChar }
  else do
    let (type, param) ← (if param.question then csiPrivate param else csiCommand height param)
    .ok { type := type, csi := param }

/-- `decode_csi` executes the controls of a complete sequence and then answers
the token for its parameters. -/
theorem decodeCsi_token {datap : List UInt8} (hcmd : 0 < (csiResult datap).param.cmd)
    (htaken : 0 < (csiResult datap).taken) (t : Terminal) (s : Screen) :
    decodeCsi t datap s =
      (embeddedControls datap).foldlM (control t) s >>= fun s =>
        (csiResult datap).param.token s.height >>= fun tok =>
          .ok (tok, (csiResult datap).taken, s) := by
  simp only [decodeCsi, getCSIParam_eq, bind_assoc, ok_bind, gt_iff_lt, hcmd, htaken, and_self,
    if_true]
  refine bind_congr fun s => ?_
  rw [CSIParam.token]
  split
  · rfl
  · rw [bind_assoc]
    rfl

end

/-! ## The token loop -/

namespace VT100

variable {F : Foundation} {v v' : VT100}

/-- The rest of the loop after a control character or sequence of `n` bytes has
been decoded. -/
def perform (F : Foundation) (tok : VT100TCC) (n : Nat) (v : VT100) : Res VT100 := do
  let v ← v.setMode tok
  let v ← v.setCharAttr tok
  let v ← v.advance n
  if tok.stops then v.refresh
  else do
    let v ← v.processToken F tok
    v.consume F

theorem consume_control (hF : F.AsciiTotal) (h : v.Wf) {b : UInt8} {bs : List UInt8}
    (hb : b ≤ 0x1f) (hp : v.terminal.pending = b :: bs) :
    v.consume F = decodeControl v.terminal (b :: bs) v.screen >>= fun p =>
      perform F p.1 p.2.1 { v with screen := p.2.2 } := by
  rw [consume_eq hF h, getNextToken_control bs hb hp]
  simp only [perform, bind_assoc, ok_bind]

/-- A token does the same in states alike that it leaves with the same bytes. -/
theorem perform_alike (hsame : SameState v v') (h : v.Wf) (h' : v'.Wf) {n n' : Nat}
    (hle : n ≤ v.terminal.pending.length) (hle' : n' ≤ v'.terminal.pending.length)
    (hrest : v.terminal.pending.drop n = v'.terminal.pending.drop n') (tok : VT100TCC) :
    ExceptRel Alike (v.perform F tok n) (v'.perform F tok n') := by
  refine (hsame.setMode tok).bind_ok fun v₁ v₁' h₁ h₁' hmode => ?_
  refine (hmode.setCharAttr tok).bind_ok fun v₂ v₂' h₂ h₂' hattr => ?_
  have hwf₂ := setCharAttr_wf (setMode_wf h h₁) h₂
  have hwf₂' := setCharAttr_wf (setMode_wf h' h₁') h₂'
  rw [← (setMode_sameStream h₁).pending_eq, ← (setCharAttr_sameStream h₂).pending_eq] at hle hrest
  rw [← (setMode_sameStream h₁').pending_eq, ← (setCharAttr_sameStream h₂').pending_eq]
    at hle' hrest
  rw [advance_eq hwf₂.terminal hle, advance_eq hwf₂'.terminal hle', ok_bind, ok_bind]
  have halike : Alike (v₂.pass n) (v₂'.pass n') := by
    refine ⟨⟨?_, hattr.screen⟩, ?_⟩
    · obtain ⟨stream, len, total, off, hmodes⟩ := hattr.modes
      simp only [VT100.pass, hmodes]
      exact ⟨_, _, _, _, rfl⟩
    · rw [VT100.pass, VT100.pass, Terminal.skip_pending hwf₂.terminal hle,
        Terminal.skip_pending hwf₂'.terminal hle', hrest]
  have hwf₃ := pass_wf hwf₂ hle
  have hwf₃' := pass_wf hwf₂' hle'
  refine .ite (fun _ => ?_) fun _ => ?_
  · exact halike.screen.refresh.bind fun _ _ hs => ⟨⟨halike.modes, hs⟩, halike.pending_eq⟩
  · refine (halike.toSameState.processToken tok).bind_ok fun v₄ v₄' h₄ h₄' hexec => ?_
    refine Alike.consume ⟨hexec, ?_⟩ (processToken_wf hwf₃ h₄) (processToken_wf hwf₃' h₄')
    rw [(processToken_sameStream h₄).pending_eq, (processToken_sameStream h₄').pending_eq]
    exact halike.pending_eq

theorem decodePlain_mover {b : UInt8} (hb : Screen.isMover b = true) (bs : List UInt8) :
    isCSI (b :: bs) = false ∧ decodePlain (b :: bs) = ({ type := .cc b.toNat }, 1) := by
  have hcode := Screen.mover_cases hb
  have hzero : b ≠ 0 := by
    rintro rfl
    simp at hcode
  have hesc : b ≠ escByte := by
    rintro rfl
    simp [escByte] at hcode
  refine ⟨?_, by simp [decodePlain, hzero, hesc]⟩
  by_contra hcsi
  exact hesc (isCSI_head (by simpa using hcsi))

theorem consume_mover (hF : F.AsciiTotal) (h : v.Wf) {b : UInt8} {bs : List UInt8}
    (hb : Screen.isMover b = true) (hp : v.terminal.pending = b :: bs) :
    ExceptRel Alike (v.consume F)
      (v.screen.putControl v.terminal b.toNat >>= fun s =>
        consume F { terminal := v.terminal.skip 1, screen := s }) := by
  have hcode := Screen.mover_cases hb
  have hctl : b ≤ 0x1f := by
    rw [UInt8.le_iff_toNat_le]
    simp only [UInt8.reduceToNat]
    omega
  obtain ⟨hcsi, hplain⟩ := decodePlain_mover hb bs
  have hle : 1 ≤ v.terminal.pending.length := by simp [hp]
  have hmodes : v.terminal.SameModes (v.terminal.skip 1) := ⟨_, _, _, _, rfl⟩
  have hstops : VT100TCC.stops { type := .cc b.toNat } = false := by
    simp [VT100TCC.stops]
    omega
  have hexec : v.consume F =
      v.screen.putToken F v.terminal { type := .cc b.toNat } >>= fun s =>
        consume F { terminal := v.terminal.skip 1, screen := s } := by
    rw [consume_control hF h hctl hp, decodeControl_plain (by rw [hcsi]; decide), hplain, ok_bind]
    -- the token sets no mode and no attribute
    have hmode : v.setMode { type := .cc b.toNat } = .ok v := by
      obtain hcode | hcode | hcode | hcode | hcode | hcode := hcode
      all_goals
        rw [hcode]
        rfl
    have hattr : v.setCharAttr { type := .cc b.toNat } = .ok v := rfl
    simp only [perform, hmode, hattr, advance_eq h.terminal hle, ok_bind, hstops,
      Bool.false_eq_true, if_false]
    show (v.screen.putToken F (v.terminal.skip 1) _ >>= _) >>= _ = _
    rw [putToken_sameModes F hmodes, bind_assoc]
    rfl
  rw [hexec]
  have hput : ExceptRel Screen.SameButDirty
      (v.screen.putToken F v.terminal { type := .cc b.toNat })
      (v.screen.putControl v.terminal b.toNat) :=
    (Screen.SameButDirty.putToken_dispatch F v.terminal { type := .cc b.toNat } v.screen).symm
      fun _ _ hs => hs.symm
  refine hput.bind_ok fun s s' hok hok' hs => ?_
  have hwf : v.terminal.skip 1 |>.Wf := Terminal.skip_wf h.terminal hle
  exact Alike.consume ⟨⟨.refl _, hs⟩, rfl⟩ ⟨hwf, Screen.putToken_wf h.screen hok⟩
    ⟨hwf, Screen.putControl_wf h.screen hok'⟩

/-- Control characters on their own, one after the other. -/
theorem consume_movers (hF : F.AsciiTotal) (h : v.Wf) {controls rest : List UInt8}
    (hcontrols : ∀ b ∈ controls, Screen.isMover b = true)
    (hp : v.terminal.pending = controls ++ rest) :
    ExceptRel Alike (v.consume F)
      (v.screen.putControls v.terminal controls >>= fun s =>
        consume F { terminal := v.terminal.skip controls.length, screen := s }) := by
  induction controls generalizing v with
  | nil =>
      have hskip : v.terminal.skip 0 = v.terminal := by simp [Terminal.skip]
      show ExceptRel Alike (v.consume F) (consume F { v with terminal := v.terminal.skip 0 })
      rw [hskip]
      exact .of_eq Alike.refl _
  | cons b controls ih =>
      have hle : 1 ≤ v.terminal.pending.length := by simp [hp]
      refine (consume_mover hF h (hcontrols b (by simp)) hp).trans (fun _ _ _ h h' => h.trans h') ?_
      rw [Screen.putControls, List.foldlM_cons, bind_assoc]
      refine ExceptRel.bind_ok (R := Eq) (.of_eq (fun _ => rfl) _) fun s s' hok _ hs => ?_
      subst hs
      have hwf : Wf { terminal := v.terminal.skip 1, screen := s } :=
        ⟨Terminal.skip_wf h.terminal hle, Screen.putControl_wf h.screen hok⟩
      have hp₁ : (v.terminal.skip 1).pending = controls ++ rest := by
        rw [Terminal.skip_pending h.terminal hle, hp]
        rfl
      have hrest := ih hwf (fun c hc => hcontrols c (List.mem_cons_of_mem b hc)) hp₁
      have hskip : (v.terminal.skip 1).skip controls.length =
          v.terminal.skip (b :: controls).length := by
        simp only [Terminal.skip, List.length_cons, Nat.add_comm controls.length, Nat.cast_add,
          Int.add_assoc]
      simp only [hskip] at hrest
      exact hrest

/-- A sequence is fetched and executed: its controls, and then the token for its
parameters. -/
theorem consume_sequence (hF : F.AsciiTotal) (h : v.Wf) {pre : List UInt8} (hpre : IsPrefix pre)
    {fields : List (List UInt8)} (hfields : IsUnsplit fields) (hlen : fields.length ≤ 16)
    {ending : List UInt8} (hend : IsEnding (pre ++ joinParams fields) ending)
    (hpending : v.terminal.pending = controlSequence pre fields ending) :
    v.consume F =
      (fields.flatten.filter isCsiControl).foldlM (control v.terminal) v.screen >>= fun s =>
        (csiResult (controlSequence pre fields ending)).param.token s.height >>= fun tok =>
          perform F tok (2 + pre.length + (joinParams fields).length + endingTaken ending)
            { v with screen := s } := by
  obtain ⟨htaken, hcmd, hcontrols⟩ := csiResult_sequence hpre hfields hlen hend
  have hctl : v.consume F =
      decodeCsi v.terminal (controlSequence pre fields ending) v.screen >>= fun p =>
        perform F p.1 p.2.1 { v with screen := p.2.2 } := by
    rw [consume_control hF h (b := escByte) (by decide) hpending, decodeControl_csi rfl]
    rfl
  rw [hctl, decodeCsi_token hcmd (by omega), hcontrols, htaken]
  simp only [bind_assoc, ok_bind]

/-- What is left of a sequence that has been fetched. -/
theorem drop_sequence (pre : List UInt8) (fields : List (List UInt8)) (ending : List UInt8)
    (n : Nat) :
    (controlSequence pre fields ending).drop (2 + pre.length + (joinParams fields).length + n) =
      ending.drop n := by
  have hsplit : controlSequence pre fields ending =
      (escByte :: 0x5b :: (pre ++ joinParams fields)) ++ ending := by
    simp [controlSequence]
  have hlen : (escByte :: 0x5b :: (pre ++ joinParams fields)).length =
      2 + pre.length + (joinParams fields).length := by
    simp only [List.length_cons, List.length_append]
    omega
  rw [hsplit, ← hlen, List.drop_append, List.drop_eq_nil_of_le (by omega), List.nil_append,
    Nat.add_sub_cancel_left]

/-- A sequence and the same sequence without controls do the same, once the
controls have been executed. -/
theorem token_alike (hF : F.AsciiTotal) (hsame : SameState v v') (h : v.Wf) (h' : v'.Wf)
    {pre : List UInt8} (hpre : IsPrefix pre) {fields : List (List UInt8)}
    (hfields : IsUnsplit fields) (hlen : fields.length ≤ 16) {ending : List UInt8}
    (hend : IsEnding (pre ++ joinParams (plainFields fields)) ending)
    (hpending : v.terminal.pending = controlSequence pre fields ending)
    (hpending' : v'.terminal.pending = controlSequence pre (plainFields fields) ending) :
    ExceptRel Alike
      ((csiResult (controlSequence pre fields ending)).param.token v.screen.height >>= fun tok =>
        perform F tok (2 + pre.length + (joinParams fields).length + endingTaken ending) v)
      (v'.consume F) := by
  have hlen' : (plainFields fields).length ≤ 16 := by
    rw [plainFields, List.length_map]
    exact hlen
  have hle := endingTaken_le hend
  have hheight : v'.screen.height = v.screen.height := by
    obtain ⟨d, hd⟩ := hsame.screen
    rw [hd]
  rw [consume_sequence hF h' hpre (plainFields_unsplit fields) hlen' hend hpending',
    plainFields_controls, csiResult_unsplit hpre hfields hlen hend, List.foldlM_nil, pure_bind,
    hheight]
  have hbytes (fields : List (List UInt8)) :
      2 + pre.length + (joinParams fields).length + endingTaken ending ≤
        (controlSequence pre fields ending).length := by
    simp only [controlSequence, List.length_cons, List.length_append]
    omega
  refine .bind_same _ fun tok => perform_alike hsame h h' ?_ ?_ ?_ tok
  · rw [hpending]
    exact hbytes fields
  · rw [hpending']
    exact hbytes (plainFields fields)
  · rw [hpending, hpending', drop_sequence, drop_sequence]

/-- Control characters inside a control sequence act as if they had been received before it:
reading the sequence, and reading the controls and then the sequence without them, lead to
states that are alike or stop for the same reason. The controls may stand anywhere in the
parameters but not between two digits of a number, and each has to be one that the two
tables treat alike where it is executed. Prefix, parameters and the ending are arbitrary.
-/
theorem embedded_controls (hF : F.AsciiTotal) (h : v.Wf) (hempty : v.terminal.pending = [])
    (hy : v.screen.OnScreen) (hprint : v.screen.printToAnsi = false)
    (hheight : IsInt v.screen.height) {pre : List UInt8} (hpre : IsPrefix pre)
    {fields : List (List UInt8)} (hlen : fields.length ≤ 16)
    (hf : ∀ f ∈ fields, ∀ b ∈ f, isDigit b = true ∨ Screen.isMover b = true) {ending : List UInt8}
    (hend : IsEnding (pre ++ joinParams (plainFields fields)) ending)
    (hruns : ∀ f ∈ fields, digitRuns false f ≤ 1)
    (hacts : Screen.ActsAlike v.terminal v.screen (fields.flatten.filter Screen.isMover)) :
    ExceptRel Alike (v.readInputStream F (controlSequence pre fields ending))
      (v.readInputStream F
        (fields.flatten.filter Screen.isMover ++
          controlSequence pre (plainFields fields) ending)) := by
  have hfield : ∀ f ∈ fields, ∀ b ∈ f, isField b = true := by
    intro f hmem b hb
    obtain hd | hm := hf f hmem b hb
    · simp [isField, hd]
    · simp [isField, Screen.mover_control hm]
  have hcontrols := Screen.filter_movers (l := fields.flatten) fun b hb => by
    obtain ⟨f, hmem, hb⟩ := List.mem_flatten.mp hb
    exact hf f hmem b hb
  obtain ⟨t, hread, hwf, hmodes, hp⟩ := readInputStream_eq (F := F) h
    (controlSequence pre fields ending)
  obtain ⟨t', hread', hwf', hmodes', hp'⟩ := readInputStream_eq (F := F) h
    (fields.flatten.filter Screen.isMover ++ controlSequence pre (plainFields fields) ending)
  rw [hempty, List.nil_append] at hp hp'
  have hmovers : ∀ b ∈ fields.flatten.filter Screen.isMover, Screen.isMover b = true :=
    fun b hb => (List.mem_filter.mp hb).2
  have hright := consume_movers (v := { v with terminal := t' }) hF ⟨hwf', h.screen⟩ hmovers hp'
  rw [hread, hread']
  refine ExceptRel.trans (fun _ _ _ h h' => h.trans h') ?_ (hright.symm fun _ _ h => h.symm)
  rw [consume_sequence (v := { v with terminal := t }) hF ⟨hwf, h.screen⟩ hpre ⟨hfield, hruns⟩ hlen
    hend.unsplit hp]
  have htakes : v.screen.TakesControls := ⟨h.screen, hy, hprint, hheight⟩
  -- the controls, by the one table and by the other
  have hfold : ExceptRel Screen.SameButDirty
      ((fields.flatten.filter isCsiControl).foldlM (control t) v.screen)
      (v.screen.putControls t' (fields.flatten.filter Screen.isMover)) := by
    rw [hcontrols, Screen.putControls_sameModes hmodes']
    exact (controls_alike hmodes.symm (.refl v.screen) _).trans (fun _ _ _ h h' => h.trans h')
      (Screen.controls_putControls (.refl v.screen) htakes hmovers hacts)
  refine hfold.bind_ok fun s₁ s₂ h₁ h₂ hs => ?_
  have hs₁ : s₁.Wf :=
    foldlM_inv (P := Screen.Wf) (fun _ _ _ hI hs => Screen.control_wf hI hs) h.screen h₁
  have hle : (fields.flatten.filter Screen.isMover).length ≤ t'.pending.length := by
    rw [hp', List.length_append]
    omega
  have hpending : (t'.skip (fields.flatten.filter Screen.isMover).length).pending =
      controlSequence pre (plainFields fields) ending := by
    rw [Terminal.skip_pending hwf' hle, hp', List.drop_left]
  have hsame : SameState { terminal := t, screen := s₁ }
      { terminal := t'.skip (fields.flatten.filter Screen.isMover).length, screen := s₂ } :=
    ⟨hmodes.symm.trans (hmodes'.trans ⟨_, _, _, _, rfl⟩), hs⟩
  exact token_alike hF hsame ⟨hwf, hs₁⟩ ⟨Terminal.skip_wf hwf' hle, (htakes.putControls h₂).wf⟩
    hpre ⟨hfield, hruns⟩ hlen hend hp hpending

/-- `ESC [ CR LF 2 ; HT 3 H` on a new object, and the same with the endings `SP ~`, `: 5 H` and
`? h`, at which the scan stops and which are read as text. -/
theorem init_embedded : ∃ v, VT100.init ⟨0, 0, 0⟩ = .ok v ∧
    ∀ ending ∈ [[0x48], [0x20, 0x7e], [0x3a, 0x35, 0x48], [0x3f, 0x68]],
      ExceptRel Alike
        (v.readInputStream Foundation.latin1
          (controlSequence [] [[13, 10, 0x32], [9, 0x33]] ending))
        (v.readInputStream Foundation.latin1
          ([13, 10, 9] ++ controlSequence [] [[0x32], [0x33]] ending)) := by
  obtain ⟨v, hv, ht, hs⟩ := init_fresh ⟨0, 0, 0⟩
  have hempty : v.terminal.pending = [] := by
    rw [ht]
    rfl
  have hheight : v.screen.height = 25 := hs.height_eq
  have hy : v.screen.OnScreen := by
    rw [Screen.OnScreen, hs.cursor.2, hheight]
    decide
  have hacts : Screen.ActsAlike v.terminal v.screen [13, 10, 9] := by
    refine ⟨?_, fun s₁ h₁ => ⟨?_, fun s₂ _ => ⟨trivial, fun _ _ => trivial⟩⟩⟩
    · show Screen.RowStays v.terminal v.screen
      rw [Screen.RowStays, ht, if_neg (by decide)]
      exact hs.cursor.2
    · cases h₁
      rfl
  have hint : IsInt v.screen.height := by
    rw [hheight]
    exact ⟨by omega, by omega⟩
  have hf : ∀ f ∈ [[13, 10, 0x32], [9, 0x33]], ∀ b ∈ f,
      isDigit b = true ∨ Screen.isMover b = true := by simp [isDigit, Screen.isMover]
  have htotal := Foundation_asciiTotal Foundation.latin1_asciiExact
  have hending : ∀ ending ∈ [[0x48], [0x20, 0x7e], [0x3a, 0x35, 0x48], [0x3f, 0x68]],
      IsEnding [0x32, 0x3b, 0x33] ending := by
    simp only [List.forall_mem_cons, List.not_mem_nil, false_imp_iff, implies_true, and_true]
    exact ⟨⟨[], 0x48, rfl, by simp, by simp, by decide⟩,
      ⟨[0x20], 0x7e, rfl, by simp, by simp [isDigit], by decide⟩,
      ⟨[0x3a, 0x35], 0x48, rfl, by simp, by simp [isDigit], by decide⟩,
      [0x3f], 0x68, rfl, by simp, by simp [isDigit], by decide⟩
  exact ⟨v, hv, fun ending hmem => embedded_controls htotal (init_wf hv) hempty hy hs.print_eq hint
    (Or.inl rfl) (by decide) hf (hending ending hmem) (by decide) hacts⟩

theorem readInputStream_backSpace (hF : F.AsciiTotal) (h : v.Wf) (hempty : v.terminal.pending = [])
    (hx : v.screen.cursorX = 0) (data : List UInt8) :
    ExceptRel Alike (v.readInputStream F (8 :: data)) (v.readInputStream F data) := by
  obtain ⟨t, hread, hwf, hmodes, hp⟩ := readInputStream_eq (F := F) h (8 :: data)
  obtain ⟨t', hread', hwf', hmodes', hp'⟩ := readInputStream_eq (F := F) h data
  rw [hempty, List.nil_append] at hp hp'
  have hle : 1 ≤ t.pending.length := by simp [hp]
  have hstay : v.screen.putControl t 8 = .ok v.screen := by
    show Except.ok v.screen.backSpace = _
    rw [Screen.backSpace, if_neg (by omega)]
  have hmover := consume_mover (v := { v with terminal := t }) hF ⟨hwf, h.screen⟩ (by decide) hp
  have hmover : ExceptRel Alike (consume F { v with terminal := t })
      (v.screen.putControl t 8 >>= fun s => consume F { terminal := t.skip 1, screen := s }) :=
    hmover
  rw [hstay, ok_bind] at hmover
  rw [hread, hread']
  refine hmover.trans (fun _ _ _ h h' => h.trans h') ?_
  refine Alike.consume ⟨⟨?_, .refl _⟩, ?_⟩ ⟨Terminal.skip_wf hwf hle, h.screen⟩ ⟨hwf', h.screen⟩
  · exact Terminal.SameModes.trans ⟨_, _, _, _, rfl⟩ (hmodes.symm.trans hmodes')
  · rw [hp', Terminal.skip_pending hwf hle, hp]
    rfl

/-- `ESC [ 2 BS 5 H` on a new object goes to the second row, where `BS ESC [ 2 5 H`
goes to the last one. -/
theorem init_split_number : ∃ v v₁ v₂, VT100.init ⟨0, 0, 0⟩ = .ok v ∧ v.screen.OnScreen ∧
    v.screen.printToAnsi = false ∧
    v.readInputStream Foundation.latin1 (csiSequence [] [[0x32, 8, 0x35]] 0x48) = .ok v₁ ∧
    v.readInputStream Foundation.latin1
      ([8] ++ csiSequence [] (plainFields [[0x32, 8, 0x35]]) 0x48) = .ok v₂ ∧
    v₁.screen.cursorY = 1 ∧ v₂.screen.cursorY = 24 ∧ ¬Alike v₁ v₂ := by
  obtain ⟨v, hv, ht, hs⟩ := init_fresh ⟨0, 0, 0⟩
  have hempty : v.terminal.pending = [] := by
    rw [ht]
    rfl
  have hheight : v.screen.height = 25 := hs.height_eq
  have hwf := init_wf hv
  have horigin : v.terminal.originMode = false := by rw [ht]; rfl
  -- the number is split in two
  obtain ⟨tok, hdecode, htype, hp0, hp1⟩ : ∃ tok : VT100TCC,
      (∀ t, decodeControl t (csiSequence [] [[0x32, 8, 0x35]] 0x48) v.screen =
        .ok (tok, 6, v.screen.backSpace)) ∧
      tok.type = .cup ∧ tok.csi.p.cell 0 = 2 ∧ tok.csi.p.cell 1 = 5 :=
    ⟨_, fun _ => rfl, rfl, rfl, rfl⟩
  have hstay : v.screen.backSpace = v.screen := by
    rw [Screen.backSpace, if_neg (by rw [hs.cursor.1]; decide)]
  rw [hstay] at hdecode
  have htok : ScreenOnly tok := screenOnly_of_type (by rw [htype]; rfl)
  have hrun : ∀ t, v.terminal.SameModes t → v.screen.dispatch Foundation.latin1 t tok =
      .ok (v.screen.cursorToXY v.terminal 5 2) := by
    rintro t ⟨stream, len, total, off, rfl⟩
    simp only [Screen.dispatch, htype, hp0, hp1]
    rfl
  obtain ⟨v₁, h₁, hd₁, -⟩ := readInputStream_sequence (F := Foundation.latin1) hwf hempty _ _ tok
    (by decide) hdecode htok hrun
  have hrow₁ : v₁.screen.cursorY = 1 := by
    rw [hd₁.cursor_eq.2]
    show Screen.clampPos (if v.terminal.originMode then _ else cint (2 - 1)) v.screen.height = 1
    rw [horigin, hheight]
    rfl
  obtain ⟨v₂, h₂, hd₂, -⟩ := readInputStream_lastRow (F := Foundation.latin1) hwf hempty hheight
    horigin
  have htotal := Foundation_asciiTotal Foundation.latin1_asciiExact
  have hback := readInputStream_backSpace htotal hwf hempty hs.cursor.1 lastRowBytes
  rw [h₂] at hback
  obtain ⟨v₂', h₂', halike⟩ : ∃ v₂', v.readInputStream Foundation.latin1 (8 :: lastRowBytes) =
      .ok v₂' ∧ Alike v₂' v₂ := by
    revert hback
    cases v.readInputStream Foundation.latin1 (8 :: lastRowBytes) with
    | error e => exact fun hback => hback.elim
    | ok w => exact fun hback => ⟨w, rfl, hback⟩
  have hrow₂ : v₂'.screen.cursorY = 24 := by
    obtain ⟨d, hd⟩ := halike.symm.screen
    rw [hd]
    exact hd₂.cursor_eq.2
  refine ⟨v, v₁, v₂', hv, ?_, hs.print_eq, h₁, h₂', hrow₁, hrow₂, fun hsame => ?_⟩
  · rw [Screen.OnScreen, hs.cursor.2, hheight]
    decide
  · obtain ⟨d, hd⟩ := hsame.screen
    rw [hd] at hrow₂
    have hrow₂ : v₁.screen.cursorY = 24 := hrow₂
    omega

end VT100

end MobileTerminal
