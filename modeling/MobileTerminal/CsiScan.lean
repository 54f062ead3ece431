import MobileTerminal.Decode

/-!
# The scanner inside `getCSIParam`

`getCSIParam` does two things at once: it scans the bytes of a control sequence
and it executes the control characters it meets on the way. This file takes the
two apart. The scan is an automaton that reads one byte at a time
(`CsiState.step`) and is absorbing once it has stopped; the executed control
characters are a list of bytes (`csiControls`); and `getCSIParam_eq` says that
`getCSIParam` is the one followed by the other.

The automaton has no inner loop: a number that is being read is part of its
state (`num`) and is committed by the first byte that is not a digit. The source
commits it where its digit loop ends, which makes no difference
(`csiScan_commit`).

Reading the bytes in two pieces is then reading one piece after the other
(`csiScan_append`, `csiControls_append`). Everything later is about the
automaton: what a sequence with few or many parameters leads to, what a table of
parameters can hold, what a control between two digits does, and where a
sequence that is cut in two waits.

A scan says how many bytes it takes. That is at most the number of bytes there
are, but for `'` and `&`, which take one more with them even when it has not
arrived.
-/

namespace MobileTerminal

/-- The control characters `getCSIParam` executes or passes over. -/
def csiControlCodes : List Nat := [5, 7, 8, 9, 10, 11, 12, 13, 14, 15, 17, 19, 24, 26, 255]

def isCsiControl (b : UInt8) : Bool := csiControlCodes.contains b.toNat

/-- What such a byte does. -/
def control (t : Terminal) (s : Screen) (b : UInt8) : Res Screen :=
  (csiControl t b.toNat s).getD (.ok s)

theorem csiControl_isSome (t : Terminal) (s : Screen) (b : UInt8) :
    (csiControl t b.toNat s).isSome = isCsiControl b := by
  unfold csiControl isCsiControl csiControlCodes
  split <;> simp_all

theorem csiControl_eq (t : Terminal) (s : Screen) (b : UInt8) :
    csiControl t b.toNat s = if isCsiControl b then some (control t s b) else none := by
  rw [← csiControl_isSome t s b, control]
  cases csiControl t b.toNat s <;> rfl

/-- Everything a control character in the middle of a sequence can do. -/
theorem control_cases (t : Terminal) (s : Screen) (b : UInt8) :
    control t s b = .ok s ∨ control t s b = .ok s.setBell ∨ control t s b = .ok s.backSpace ∨
      control t s b = s.setTab ∨ control t s b = s.setNewLine t ∨
      control t s b = .ok (s.cursorToXY t 1 s.cursorY) ∨
      control t s b = s.deleteCharacters t 1 := by
  unfold control csiControl
  split <;> simp

/-! ## The automaton -/

/-- Where a scan stands: whether it has stopped, the bytes taken, the number
whose digits are being read, `readNumericParameter` and the parameters. -/
structure CsiState where
  stopped : Bool
  taken : Nat
  num : Option Int
  numeric : Bool
  param : CSIParam

namespace CsiState

/-- The number that is being read is complete. -/
def commit (st : CsiState) : CsiState :=
  match st.num with
  | none => st
  | some n => { st with num := none, numeric := true, param := st.param.addNumber n }

theorem commit_commit (st : CsiState) : st.commit.commit = st.commit := by
  cases hn : st.num <;> simp [commit, hn]

theorem commit_stopped (st : CsiState) : st.commit.stopped = st.stopped := by
  unfold commit
  split <;> rfl

/-- `n * 10 + *datap - '0'` -/
def addDigit (num : Option Int) (b : UInt8) : Int :=
  match num with
  | none => b.toNat - 0x30
  | some n => cint (n * 10 + (b.toNat - 0x30))

/-- A byte that is not a digit, with no number pending. -/
def punctuate (st : CsiState) (b : UInt8) : CsiState :=
  if b = 0x3b then
    let param := st.param.addBlank st.numeric
    { st with stopped := decide (param.count ≥ csiParamMax), taken := st.taken + 1
              numeric := false, param := param }
  else if isAlpha b || b = 0x40 then
    { st with stopped := true, taken := st.taken + 1, param := { st.param with cmd := b.toNat } }
  else if b = 0x27 || b = 0x26 then
    { st with stopped := true, taken := st.taken + 2, param := { st.param with cmd := 0xff } }
  else if isCsiControl b then { st with taken := st.taken + 1 }
  else { st with stopped := true, param := { st.param with cmd := 0xff } }

def step (st : CsiState) (b : UInt8) : CsiState :=
  if st.stopped then st
  else if isDigit b then { st with taken := st.taken + 1, num := some (addDigit st.num b) }
  else st.commit.punctuate b

end CsiState

/-- The scan of a list of bytes. -/
def csiScan (st : CsiState) (bytes : List UInt8) : CsiState := bytes.foldl CsiState.step st

/-- The control characters met by the scan. -/
def csiControls : CsiState → List UInt8 → List UInt8
  | _, [] => []
  | st, b :: bs =>
      if !st.stopped && isCsiControl b then b :: csiControls (st.step b) bs
      else csiControls (st.step b) bs

theorem csiScan_append (st : CsiState) (a b : List UInt8) :
    csiScan st (a ++ b) = csiScan (csiScan st a) b :=
  List.foldl_append

theorem csiControls_append (st : CsiState) (a b : List UInt8) :
    csiControls st (a ++ b) = csiControls st a ++ csiControls (csiScan st a) b := by
  induction a generalizing st with
  | nil => rfl
  | cons c a ih =>
      simp only [List.cons_append, csiControls, ih]
      split
      · rfl
      · rfl

/-! ## `getCSIParam` is the scan and then the controls -/

theorem scanNumber_length (n : Int) (bytes : List UInt8) :
    (scanNumber n bytes).2.length ≤ bytes.length := by
  induction bytes generalizing n with
  | nil => exact Nat.le_refl _
  | cons b bs ih =>
      simp only [scanNumber]
      split
      · exact Nat.le_succ_of_le (ih _)
      · exact Nat.le_refl _

/-- The digits stop at a byte that is none. -/
theorem scanNumber_head (n : Int) (bytes : List UInt8) {b : UInt8} {bs : List UInt8}
    (h : (scanNumber n bytes).2 = b :: bs) : isDigit b = false := by
  induction bytes generalizing n with
  | nil => cases h
  | cons c cs ih =>
      simp only [scanNumber] at h
      split at h
      · exact ih _ h
      · rename_i hc
        cases h
        simpa using hc

theorem alpha_not_control {b : UInt8} (h : (isAlpha b || b = 0x40) = true) :
    isCsiControl b = false := by
  have hmem : b.toNat ∉ csiControlCodes := by
    simp only [isAlpha, Bool.or_eq_true, Bool.and_eq_true, decide_eq_true_eq,
      UInt8.le_iff_toNat_le, UInt8.reduceToNat, ← UInt8.toNat_inj] at h
    simp only [csiControlCodes, List.mem_cons, List.not_mem_nil, or_false]
    omega
  simpa [isCsiControl] using hmem

theorem digit_not_control {b : UInt8} (h : isDigit b = true) : isCsiControl b = false := by
  simp only [isDigit, Bool.and_eq_true, decide_eq_true_eq, UInt8.le_iff_toNat_le,
    UInt8.reduceToNat] at h
  have hmem : b.toNat ∉ csiControlCodes := by
    simp only [csiControlCodes, List.mem_cons, List.not_mem_nil, or_false]
    omega
  simpa [isCsiControl] using hmem

theorem csiScan_digits (st : CsiState) (hs : st.stopped = false) {n : Int}
    (hn : st.num = some n) (bytes : List UInt8) :
    csiScan st bytes = csiScan { st with
        num := some (scanNumber n bytes).1
        taken := st.taken + (bytes.length - (scanNumber n bytes).2.length) }
        (scanNumber n bytes).2 ∧
      csiControls st bytes = csiControls { st with
        num := some (scanNumber n bytes).1
        taken := st.taken + (bytes.length - (scanNumber n bytes).2.length) }
        (scanNumber n bytes).2 := by
  induction bytes generalizing st n with
  | nil => simp [scanNumber, ← hn]
  | cons b bs ih =>
      simp only [scanNumber]
      by_cases hb : isDigit b = true
      · have hstep : st.step b = { st with
            taken := st.taken + 1, num := some (cint (n * 10 + (b.toNat - 0x30))) } := by
          simp [CsiState.step, CsiState.addDigit, hs, hb, hn]
        have hlen := scanNumber_length (cint (n * 10 + (b.toNat - 0x30))) bs
        have htaken : st.taken + 1 +
            (bs.length - (scanNumber (cint (n * 10 + (b.toNat - 0x30))) bs).2.length) =
            st.taken + (bs.length + 1 -
              (scanNumber (cint (n * 10 + (b.toNat - 0x30))) bs).2.length) := by
          omega
        obtain ⟨ih₁, ih₂⟩ := ih (st.step b) (by rw [hstep]; exact hs) (by rw [hstep])
        rw [hstep] at ih₁ ih₂
        simp only [htaken] at ih₁ ih₂
        simp only [csiScan, List.foldl_cons, csiControls, hs, digit_not_control hb, hb, hstep,
          if_true, List.length_cons] at *
        exact ⟨ih₁, ih₂⟩
      · simp [hb, ← hn]

/-- Whether a pending number is committed before or after the next byte makes no
difference, unless that byte is another digit. -/
theorem csiScan_commit (st : CsiState) (hs : st.stopped = false) (bytes : List UInt8)
    (h : ∀ b bs, bytes = b :: bs → isDigit b = false) :
    (csiScan st.commit bytes).commit = (csiScan st bytes).commit ∧
      csiControls st.commit bytes = csiControls st bytes := by
  have hidem := st.commit_commit
  have hstopped := st.commit_stopped
  cases bytes with
  | nil => exact ⟨hidem, rfl⟩
  | cons b bs =>
      have hb := h b bs rfl
      have hstep : st.commit.step b = st.step b := by
        simp [CsiState.step, hstopped, hs, hb, hidem]
      simp only [csiScan, List.foldl_cons, csiControls, hstopped, hstep, and_self]

/-- The scan that starts after `k` bytes with no number pending. -/
def CsiState.start (k : Nat) (numeric : Bool) (param : CSIParam) : CsiState :=
  { stopped := false, taken := k, num := none, numeric := numeric, param := param }

theorem csiScan_stopped {st : CsiState} (h : st.stopped = true) (bytes : List UInt8) :
    csiScan st bytes = st := by
  induction bytes with
  | nil => rfl
  | cons b bs ih =>
      simp only [csiScan, List.foldl_cons, CsiState.step, h, if_true] at *
      exact ih

theorem csiControls_stopped {st : CsiState} (h : st.stopped = true) (bytes : List UInt8) :
    csiControls st bytes = [] := by
  induction bytes with
  | nil => rfl
  | cons b bs ih =>
      have hstep : st.step b = st := by simp [CsiState.step, h]
      simp [csiControls, h, hstep, ih]

theorem punctuate_num {st : CsiState} (b : UInt8) (h : st.num = none) :
    (st.punctuate b).num = none := by
  unfold CsiState.punctuate
  repeat' split
  all_goals exact h

/-- One round of the scanning loop for a byte that is not a digit. -/
theorem csiLoop_punctuate (t : Terminal) (fuel : Nat) (b : UInt8) (bs : List UInt8)
    (numeric : Bool) (k : Nat) (param : CSIParam) (s : Screen) (hd : isDigit b = false) :
    csiLoop t (fuel + 1) (b :: bs) numeric k param s =
      (if isCsiControl b then control t s b else .ok s) >>= fun s =>
        let st := (CsiState.start k numeric param).punctuate b
        if st.stopped then .ok (st.taken, st.param, s)
        else csiLoop t fuel bs st.numeric st.taken st.param s := by
  simp only [csiLoop, hd, csiControl_eq, CsiState.punctuate, Bool.false_eq_true, if_false]
  by_cases hsemi : b = 0x3b
  · subst hsemi
    simp only [CsiState.start, show isCsiControl 0x3b = false from rfl, if_true,
      Bool.false_eq_true, if_false, ok_bind]
    by_cases hfull : (param.addBlank numeric).count ≥ csiParamMax
    · rw [if_pos hfull, if_pos (by simpa using hfull)]
    · rw [if_neg hfull, if_neg (by simpa using hfull)]
  · by_cases halpha : (isAlpha b || b = 0x40) = true
    · simp only [hsemi, if_false, halpha, if_true, alpha_not_control halpha]
      rfl
    · by_cases hquote : b = 0x27 ∨ b = 0x26
      · rcases hquote with rfl | rfl <;> rfl
      · obtain ⟨hq1, hq2⟩ := not_or.mp hquote
        cases hc : isCsiControl b with
        | true => simp [hsemi, halpha, hq1, hq2, CsiState.start]
        | false => simp [hsemi, halpha, hq1, hq2, CsiState.start]

theorem csiLoop_eq (t : Terminal) (fuel : Nat) (bytes : List UInt8) (hf : bytes.length ≤ fuel)
    (numeric : Bool) (k : Nat) (param : CSIParam) (s : Screen) :
    csiLoop t fuel bytes numeric k param s =
      (csiControls (.start k numeric param) bytes).foldlM (control t) s >>= fun s =>
        .ok ((csiScan (.start k numeric param) bytes).commit.taken,
          (csiScan (.start k numeric param) bytes).commit.param, s) := by
  induction fuel generalizing bytes numeric k param s with
  | zero =>
      obtain rfl : bytes = [] := List.length_eq_zero_iff.mp (by omega)
      rfl
  | succ fuel ih =>
      cases bytes with
      | nil => rfl
      | cons b bs =>
          have hlen : bs.length ≤ fuel := by
            simpa using hf
          by_cases hd : isDigit b = true
          · -- the rest of the number is read at once
            have hrest := scanNumber_length (b.toNat - 0x30) bs
            obtain ⟨hscan, hcontrols⟩ := csiScan_digits
              { CsiState.start (k + 1) numeric param with num := some (b.toNat - 0x30) }
              rfl rfl bs
            obtain ⟨hscan', hcontrols'⟩ := csiScan_commit
              { CsiState.start (k + 1 + (bs.length - (scanNumber (b.toNat - 0x30) bs).2.length))
                  numeric param with num := some (scanNumber (b.toNat - 0x30) bs).1 }
              rfl (scanNumber (b.toNat - 0x30) bs).2
              (fun _ _ h => scanNumber_head _ bs h)
            have hstep : (CsiState.start k numeric param).step b =
                { CsiState.start (k + 1) numeric param with num := some (b.toNat - 0x30) } := by
              simp [CsiState.step, CsiState.start, CsiState.addDigit, hd]
            have hcs : csiControls (.start k numeric param) (b :: bs) =
                csiControls ((CsiState.start k numeric param).step b) bs := by
              simp [csiControls, digit_not_control hd]
            have hss : csiScan (.start k numeric param) (b :: bs) =
                csiScan ((CsiState.start k numeric param).step b) bs := rfl
            rw [hcs, hss, hstep, hscan, hcontrols]
            erw [← hscan', ← hcontrols']
            simp only [csiLoop, hd, if_true]
            exact ih _ (by omega) _ _ _ _
          · have hstep : (CsiState.start k numeric param).step b =
                (CsiState.start k numeric param).punctuate b := by
              simp [CsiState.step, CsiState.start, CsiState.commit, hd]
            have hss : csiScan (.start k numeric param) (b :: bs) =
                csiScan ((CsiState.start k numeric param).punctuate b) bs := by
              rw [← hstep]
              rfl
            have hcs : csiControls (.start k numeric param) (b :: bs) =
                (if isCsiControl b then [b] else []) ++
                  csiControls ((CsiState.start k numeric param).punctuate b) bs := by
              simp only [csiControls, hstep]
              cases isCsiControl b <;> rfl
            rw [hss, hcs, csiLoop_punctuate t fuel b bs numeric k param s (by simpa using hd)]
            generalize hst : (CsiState.start k numeric param).punctuate b = st
            have hnum : st.num = none := hst ▸ punctuate_num b rfl
            have hrun : ∀ s, (if st.stopped then .ok (st.taken, st.param, s)
                else csiLoop t fuel bs st.numeric st.taken st.param s) =
                (csiControls st bs).foldlM (control t) s >>= fun s =>
                  .ok ((csiScan st bs).commit.taken, (csiScan st bs).commit.param, s) := by
              intro s
              cases hstop : st.stopped with
              | true =>
                  rw [csiScan_stopped hstop, csiControls_stopped hstop]
                  simp [CsiState.commit, hnum]
              | false =>
                  have hstart : CsiState.start st.taken st.numeric st.param = st := by
                    rw [CsiState.start, ← hnum, ← hstop]
                  simpa [hstart] using ih bs hlen st.numeric st.taken st.param s
            cases hc : isCsiControl b with
            | true =>
                simp only [if_true, List.singleton_append, List.foldlM_cons, bind_assoc]
                exact bind_congr hrun
            | false => exact hrun s

/-- The state in which the scan of `datap` starts, after the optional prefix. -/
def csiStart (datap : List UInt8) : CsiState :=
  .start (csiPrefix datap).2.2 false (csiPrefix datap).1

/-- What the scan of `datap` ends with. -/
def csiResult (datap : List UInt8) : CsiState :=
  (csiScan (csiStart datap) (csiPrefix datap).2.1).commit

/-- The control characters that `getCSIParam` executes on its way. -/
def embeddedControls (datap : List UInt8) : List UInt8 :=
  csiControls (csiStart datap) (csiPrefix datap).2.1

/-- `getCSIParam` is the scan and then the controls: the parameters and the number of bytes
are those of `csiResult`, and the screen is what the controls the scan has met make of it.
-/
theorem getCSIParam_eq (t : Terminal) (datap : List UInt8) (s : Screen) :
    getCSIParam t datap s =
      (embeddedControls datap).foldlM (control t) s >>= fun s =>
        .ok ((csiResult datap).taken, (csiResult datap).param, s) :=
  csiLoop_eq t _ _ (Nat.le_refl _) _ _ _ s

/-! ## How many bytes are taken -/

namespace CsiState

@[simp] theorem commit_taken (st : CsiState) : st.commit.taken = st.taken := by
  unfold commit
  split <;> rfl

/-- A byte is taken or not; `'` and `&` take one more with them. -/
theorem step_taken (st : CsiState) (b : UInt8) :
    st.taken ≤ (st.step b).taken ∧
      ((st.step b).taken ≤ st.taken + 1 ∨ (b = 0x27 ∨ b = 0x26) ∧ st.stopped = false ∧
        (st.step b).stopped = true ∧ (st.step b).taken = st.taken + 2) := by
  unfold step
  split
  · exact ⟨Nat.le_refl _, Or.inl (Nat.le_succ _)⟩
  · split
    · exact ⟨Nat.le_succ _, Or.inl (Nat.le_refl _)⟩
    · rename_i hrun _
      unfold punctuate
      split
      · simp
      · split
        · simp
        · split
          · rename_i hquote
            simp only [Bool.or_eq_true, decide_eq_true_eq] at hquote
            simp [hquote, hrun]
          · split <;> simp

end CsiState

theorem csiScan_taken_le (st : CsiState) (bytes : List UInt8) :
    st.taken ≤ (csiScan st bytes).taken := by
  induction bytes generalizing st with
  | nil => exact Nat.le_refl _
  | cons b bs ih => exact Nat.le_trans (st.step_taken b).1 (ih (st.step b))

theorem two_le_csiResult_taken (datap : List UInt8) : 2 ≤ (csiResult datap).taken := by
  have hstart : 2 ≤ (csiStart datap).taken := by
    simp only [csiStart, CsiState.start, csiPrefix]
    split <;> simp
  rw [csiResult, CsiState.commit_taken]
  exact Nat.le_trans hstart (csiScan_taken_le _ _)

theorem decodeControl_csi {datap : List UInt8} (h : isCSI datap = true) (t : Terminal)
    (s : Screen) : decodeControl t datap s = decodeCsi t datap s := by
  unfold decodeControl
  rw [if_pos h]

/-- `decode_control` on bytes that do not start with `ESC [`: the screen is left
alone. -/
def decodePlain : List UInt8 → VT100TCC × Nat
  | [] => ({ type := .wait }, 0)
  | b :: rest =>
      if b = 0 then ({ type := .skip }, ((b :: rest).takeWhile (· = 0)).length)
      else if b = escByte then
        match rest with
        | [] => ({ type := .wait }, 0)
        | c1 :: rest' => decodeOther c1 rest'.head?
      else ({ type := .cc b.toNat }, 1)

theorem decodeControl_plain {datap : List UInt8} (h : ¬isCSI datap = true) (t : Terminal)
    (s : Screen) :
    decodeControl t datap s = .ok ((decodePlain datap).1, (decodePlain datap).2, s) := by
  rw [decodeControl.eq_def, if_neg h]
  split
  · rfl
  · rename_i b rest
    rw [decodePlain.eq_def]
    simp only
    split
    · rfl
    · split
      · cases rest <;> rfl
      · rfl

/-- Without a final byte the answer is `VT100_WAIT`, after the controls. -/
theorem decodeCsi_incomplete {datap : List UInt8} (h : (csiResult datap).param.cmd = 0)
    (t : Terminal) (s : Screen) :
    decodeCsi t datap s =
      (embeddedControls datap).foldlM (control t) s >>= fun s => .ok ({ type := .wait }, 0, s) := by
  rw [decodeCsi, getCSIParam_eq, bind_assoc]
  refine bind_congr fun s => ?_
  simp [h]

end MobileTerminal
