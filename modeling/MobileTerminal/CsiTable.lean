import Mathlib.Data.List.GetD
import MobileTerminal.CsiParams
import MobileTerminal.TokenParams

/-!
# The table of parameters

What a complete control sequence leaves in `CSIParam`, and how far its counter
goes. A parameter is kept under the number of parameters counted before it; a
blank one is counted at the separator after it and leaves the `-1` that was
there. The counter is compared with the size of the table at a separator only:
control characters inside the last parameter cut it into several numbers, and
all of them are counted.

The first half is the round trip: `ESC [`, one to sixteen parameters and a final
byte are read back as they were written (`getCSIParam_roundtrip`). Its induction
is over the parameters, with `Filled done` as what holds between two of them:
the parameters `done` stand in the table, the rest of it is blank, and the
counter is their number.

The second half is about every sequence, with control characters wherever they
may stand. A parameter then takes as many places as it has runs of digits, one
if it has none and a separator follows (`fieldCount`). `TooMany` picks out the
sequences whose last parameter holds more numbers than there are places left,
and exactly for these `decode_csi` or `setCharAttr:` reaches behind the table
(`params_in_range_iff`).
-/

namespace MobileTerminal

variable {t : Terminal} {s s' : Screen}

/-! ## What the parameters are read as -/

/-- The digits `p` read after the number `n`. -/
def decimalFrom (n : Int) (p : List UInt8) : Int := p.foldl (fun n b => n * 10 + (b.toNat - 0x30)) n

/-- The number written by the digits `p`. -/
def decimal (p : List UInt8) : Int := decimalFrom 0 p

/-- What the table holds for a parameter: its number, or `-1` when it is blank. -/
def paramValue (p : List UInt8) : Int := if p = [] then -1 else decimal p

theorem digit_range {b : UInt8} (h : isDigit b = true) :
    0 ≤ (b.toNat : Int) - 0x30 ∧ (b.toNat : Int) - 0x30 < 10 := by
  simp only [isDigit, Bool.and_eq_true, decide_eq_true_eq, UInt8.le_iff_toNat_le,
    UInt8.reduceToNat] at h
  omega

theorem le_decimalFrom {n : Int} (hn : 0 ≤ n) {p : List UInt8}
    (hp : ∀ b ∈ p, isDigit b = true) : n ≤ decimalFrom n p := by
  induction p generalizing n with
  | nil => exact Int.le_refl n
  | cons b p ih =>
      obtain ⟨h0, -⟩ := digit_range (hp b (List.mem_cons_self ..))
      have hnext : n ≤ n * 10 + (b.toNat - 0x30) := by omega
      exact Int.le_trans hnext
        (ih (by omega) fun c hc => hp c (List.mem_cons_of_mem _ hc))

theorem cint_digit (n : Int) (d : Int) : cint (cint n * 10 + d) = cint (n * 10 + d) := by
  unfold cint
  omega

/-- The digits that follow one digit: every step wraps, so the whole number does. -/
theorem csiScan_decimal {st : CsiState} (hs : st.stopped = false) {n : Int}
    (hn : st.num = some (cint n)) {p : List UInt8} (hp : ∀ b ∈ p, isDigit b = true) :
    csiScan st p =
      { st with taken := st.taken + p.length, num := some (cint (decimalFrom n p)) } := by
  induction p generalizing st n with
  | nil =>
      rw [decimalFrom, List.foldl_nil, ← hn]
      rfl
  | cons b p ih =>
      have hb := hp b (List.mem_cons_self ..)
      have hp' : ∀ c ∈ p, isDigit c = true := fun c hc => hp c (List.mem_cons_of_mem _ hc)
      have hstep : st.step b = { st with
          taken := st.taken + 1, num := some (cint (n * 10 + (b.toNat - 0x30))) } := by
        simp only [CsiState.step, hs, Bool.false_eq_true, if_false, hb, if_true,
          CsiState.addDigit, hn, cint_digit]
      have hrun : (st.step b).stopped = false := by rw [hstep]; exact hs
      have hnum : (st.step b).num = some (cint (n * 10 + (b.toNat - 0x30))) := by rw [hstep]
      have htail := ih hrun hnum hp'
      rw [show csiScan st (b :: p) = csiScan (st.step b) p from rfl, htail, hstep]
      simp only [List.length_cons]
      congr 1
      omega

/-- The number that is being read when a parameter has been passed. -/
def paramNumber (p : List UInt8) : Option Int := if p = [] then none else some (cint (decimal p))

/-- What the table holds for a parameter of any size: its number wraps. -/
def paramCell (p : List UInt8) : Int := if p = [] then -1 else cint (decimal p)

theorem paramCell_eq {p : List UInt8} (hp : ∀ b ∈ p, isDigit b = true)
    (hsmall : decimal p < 2 ^ 31) : paramCell p = paramValue p := by
  have hle : 0 ≤ decimal p := le_decimalFrom (Int.le_refl 0) hp
  rw [paramCell, paramValue, cint_of_isInt ⟨by omega, hsmall⟩]

theorem csiScan_value {st : CsiState} (hs : st.stopped = false) (hnum : st.num = none)
    {p : List UInt8} (hp : ∀ b ∈ p, isDigit b = true) :
    csiScan st p = { st with taken := st.taken + p.length, num := paramNumber p } := by
  cases p with
  | nil =>
      rw [paramNumber, if_pos rfl, ← hnum]
      rfl
  | cons b p =>
      have hb := hp b (List.mem_cons_self ..)
      obtain ⟨hd0, hd10⟩ := digit_range hb
      have hdec : decimal (b :: p) = decimalFrom (b.toNat - 0x30) p := by
        simp [decimal, decimalFrom]
      have hdigit : cint ((b.toNat : Int) - 0x30) = b.toNat - 0x30 :=
        cint_of_isInt ⟨by omega, by omega⟩
      have hstep : st.step b = { st with
          taken := st.taken + 1, num := some (b.toNat - 0x30) } := by
        simp only [CsiState.step, hs, Bool.false_eq_true, if_false, hb, if_true,
          CsiState.addDigit, hnum]
      have hrun : (st.step b).stopped = false := by rw [hstep]; exact hs
      have hnum' : (st.step b).num = some (cint ((b.toNat : Int) - 0x30)) := by
        rw [hstep, hdigit]
      have htail := csiScan_decimal hrun hnum' fun c hc => hp c (List.mem_cons_of_mem _ hc)
      rw [show csiScan st (b :: p) = csiScan (st.step b) p from rfl, htail, hstep, paramNumber,
        if_neg (List.cons_ne_nil b p), hdec]
      simp only [List.length_cons]
      congr 1
      omega

/-- Before a parameter, with the parameters `done` in the table. -/
structure CsiState.Filled (st : CsiState) (start : CSIParam) (done : List (List UInt8)) :
    Prop where
  ready : st.Ready done.length
  cell_eq : ∀ i : Nat, st.param.p.cell i = paramCell (done.getD i [])
  question_eq : st.param.question = start.question
  modifier_eq : st.param.modifier = start.modifier

/-- What is in the table once a further parameter has been passed. -/
structure CSIParam.Table (param start : CSIParam) (done : List (List UInt8)) (p : List UInt8) :
    Prop where
  cell_eq : ∀ i : Nat, param.p.cell i = paramCell ((done ++ [p]).getD i [])
  question_eq : param.question = start.question
  modifier_eq : param.modifier = start.modifier
  count_eq : param.count = done.length + (if p = [] then 0 else 1)

theorem CsiState.Filled.commit {st : CsiState} {start : CSIParam} {done : List (List UInt8)}
    (h : st.Filled start done) (hlen : (done.length : Int) < csiParamMax) (p : List UInt8) (k : Nat) :
    ({ st with taken := k, num := paramNumber p } : CsiState).commit.param.Table start done p := by
  have hcount := h.ready.count_eq
  by_cases hp : p = []
  · -- a blank parameter reads as one that has not been passed
    subst hp
    refine ⟨fun i => ?_, h.question_eq, h.modifier_eq, by simpa [paramNumber, CsiState.commit]⟩
    have hgetD : (done ++ [[]]).getD i [] = done.getD i [] := by
      rcases Nat.lt_trichotomy i done.length with hi | rfl | hi
      · rw [List.getD_append _ _ _ _ hi]
      · simp
      · rw [List.getD_eq_default _ _ (by simp; omega), List.getD_eq_default _ _ (Nat.le_of_lt hi)]
    rw [hgetD]
    exact h.cell_eq i
  · simp only [paramNumber, if_neg hp, CsiState.commit, CSIParam.addNumber, hcount, if_pos hlen]
    refine ⟨fun i => ?_, h.question_eq, h.modifier_eq, by simp [hp]⟩
    simp only [Block.set]
    rcases Nat.lt_trichotomy i done.length with hi | rfl | hi
    · rw [if_neg (by omega), List.getD_append _ _ _ _ hi]
      exact h.cell_eq i
    · simp [paramCell, hp]
    · rw [if_neg (by omega), h.cell_eq i, List.getD_eq_default _ _ (Nat.le_of_lt hi),
        List.getD_eq_default _ _ (by simp; omega)]

theorem CsiState.Filled.separator {st : CsiState} {start : CSIParam} {done : List (List UInt8)}
    (h : st.Filled start done) (hlen : (done.length : Int) + 1 < csiParamMax) {p : List UInt8}
    (hp : ∀ b ∈ p, isDigit b = true) :
    (csiScan st (p ++ [0x3b])).Filled start (done ++ [p]) := by
  have htable := h.commit (by omega) p (st.taken + p.length)
  have hscan := csiScan_value h.ready.running h.ready.num_eq hp
  obtain ⟨st', hst', -, -, hready, -⟩ := csiScan_separator h.ready p hp []
  have hready' := hready hlen
  rw [← (show csiScan st' [] = st' from rfl), ← hst'] at hready'
  have hparam : (csiScan st (p ++ [0x3b])).param.p =
        ({ st with taken := st.taken + p.length, num := paramNumber p } : CsiState).commit.param.p ∧
      (csiScan st (p ++ [0x3b])).param.question =
        ({ st with taken := st.taken + p.length,
                   num := paramNumber p } : CsiState).commit.param.question ∧
      (csiScan st (p ++ [0x3b])).param.modifier =
        ({ st with taken := st.taken + p.length,
                   num := paramNumber p } : CsiState).commit.param.modifier := by
    rw [csiScan_append, hscan]
    generalize hst₁ : ({ st with taken := st.taken + p.length, num := paramNumber p } : CsiState) =
      st₁
    have hrun : st₁.stopped = false := hst₁ ▸ h.ready.running
    rw [show csiScan st₁ [0x3b] = st₁.step 0x3b from rfl, CsiState.step_separator st₁ hrun,
      CsiState.separated, CSIParam.addBlank]
    split
    · exact ⟨rfl, rfl, rfl⟩
    · exact ⟨rfl, rfl, rfl⟩
  refine ⟨?_, fun i => ?_, ?_, ?_⟩
  · simpa using hready'
  · rw [hparam.1]
    exact htable.cell_eq i
  · rw [hparam.2.1]
    exact htable.question_eq
  · rw [hparam.2.2]
    exact htable.modifier_eq

theorem CsiState.Filled.final {st : CsiState} {start : CSIParam} {done : List (List UInt8)}
    (h : st.Filled start done) (hlen : (done.length : Int) < csiParamMax) {p : List UInt8}
    (hp : ∀ b ∈ p, isDigit b = true) {final : UInt8} (hf : isFinal final = true) (rest : List UInt8) :
    (csiScan st (p ++ final :: rest)).param.Table start done p := by
  have htable := h.commit hlen p (st.taken + p.length)
  rw [csiScan_append, csiScan_value h.ready.running h.ready.num_eq hp]
  generalize hst₁ : ({ st with taken := st.taken + p.length, num := paramNumber p } : CsiState) =
    st₁ at htable
  have hrun : st₁.stopped = false := hst₁ ▸ h.ready.running
  have hstop : (st₁.step final).stopped = true := by rw [CsiState.step_final st₁ hrun hf]
  rw [show csiScan st₁ (final :: rest) = csiScan (st₁.step final) rest from rfl,
    csiScan_stopped hstop, CsiState.step_final st₁ hrun hf]
  exact ⟨htable.cell_eq, htable.question_eq, htable.modifier_eq, htable.count_eq⟩

theorem joinParams_cons (p : List UInt8) {ps : List (List UInt8)} (h : ps ≠ []) :
    joinParams (p :: ps) = p ++ 0x3b :: joinParams ps := by
  cases ps with
  | nil => exact (h rfl).elim
  | cons q qs => rfl

theorem mem_joinParams {params : List (List UInt8)} {b : UInt8} (h : b ∈ joinParams params) :
    (∃ p ∈ params, b ∈ p) ∨ b = 0x3b := by
  induction params with
  | nil => cases h
  | cons p ps ih =>
      by_cases hps : ps = []
      · subst hps
        exact .inl ⟨p, List.mem_singleton_self p, h⟩
      · rw [joinParams_cons p hps, List.mem_append, List.mem_cons] at h
        rcases h with h | h | h
        · exact .inl ⟨p, List.mem_cons_self, h⟩
        · exact .inr h
        · rcases ih h with ⟨q, hq, hb⟩ | hb
          · exact .inl ⟨q, List.mem_cons_of_mem p hq, hb⟩
          · exact .inr hb

/-- The induction over the parameters; `last` is the last of them. -/
theorem CsiState.Filled.params {st : CsiState} {start : CSIParam} {done : List (List UInt8)}
    (h : st.Filled start done) {ps : List (List UInt8)} {last : List UInt8}
    (hlen : (done.length : Int) + ps.length < csiParamMax) (hp : IsParams (ps ++ [last]))
    {final : UInt8} (hf : isFinal final = true) (rest : List UInt8) :
    (csiScan st (joinParams (ps ++ [last]) ++ final :: rest)).param.Table start (done ++ ps)
      last := by
  induction ps generalizing st done with
  | nil =>
      rw [List.append_nil]
      exact h.final (by simpa using hlen) (hp last (by simp)) hf rest
  | cons p ps ih =>
      simp only [List.length_cons] at hlen
      have hsep := h.separator (p := p) (by omega) (hp p (by simp))
      have hsplit : joinParams (p :: ps ++ [last]) ++ final :: rest =
          (p ++ [0x3b]) ++ (joinParams (ps ++ [last]) ++ final :: rest) := by
        rw [List.cons_append, joinParams_cons p (by simp)]
        simp
      rw [hsplit, csiScan_append, show done ++ p :: ps = done ++ [p] ++ ps by simp]
      refine ih hsep ?_ (fun q hq => hp q (List.mem_cons_of_mem _ hq))
      simp only [List.length_append, List.length_cons, List.length_nil]
      omega

/-- `param` is what `ESC [`, `pre`, `params` and `final` say. -/
structure CSIParam.Holds (param : CSIParam) (pre : List UInt8) (params : List (List UInt8))
    (final : UInt8) : Prop where
  cmd_eq : param.cmd = final.toNat
  question_eq : param.question = decide (pre = [0x3f])
  modifier_eq : param.modifier = if pre = [0x3e] then 0x3e else 0
  p_eq : ∀ i : Nat, i < 16 → (param.p.load i : Res Int) = .ok (paramValue (params.getD i []))
  count_eq : param.count = if params.getLast? = some [] then params.length - 1 else params.length

theorem csiStart_filled {pre : List UInt8} (hpre : IsPrefix pre) {params : List (List UInt8)}
    (hp : IsParams params) {final : UInt8} (hf : isFinal final = true) (rest : List UInt8) :
    (csiStart (csiSequence pre params final ++ rest)).Filled (prefixParam pre) [] := by
  refine ⟨csiStart_ready _, ?_, ?_, ?_⟩
  all_goals
    rw [csiStart, csiPrefix_sequence hpre hp.no_prefix hf rest]
    first | exact fun i => rfl | rfl

theorem csiResult_table {pre : List UInt8} (hpre : IsPrefix pre) {ps : List (List UInt8)}
    {last : List UInt8} (hp : IsParams (ps ++ [last])) (hlen : ps.length + 1 ≤ 16) {final : UInt8}
    (hf : isFinal final = true) (rest : List UInt8) :
    (csiResult (csiSequence pre (ps ++ [last]) final ++ rest)).param.Table (prefixParam pre) ps
      last := by
  have hmax : csiParamMax = 16 := rfl
  have hroom : (([] : List (List UInt8)).length : Int) + ps.length < csiParamMax := by
    simp only [List.length_nil]
    omega
  have htable := (csiStart_filled hpre hp hf rest).params hroom hp hf rest
  have hdone := csiScan_few (csiStart_ready (csiSequence pre (ps ++ [last]) final ++ rest))
    (Int.le_refl 0) (by omega) hp (by simp; omega) hf rest
  have hparam : (csiResult (csiSequence pre (ps ++ [last]) final ++ rest)).param =
      (csiScan (csiStart (csiSequence pre (ps ++ [last]) final ++ rest))
        (joinParams (ps ++ [last]) ++ final :: rest)).param := by
    rw [csiResult, csiPrefix_sequence hpre hp.no_prefix hf rest, CsiState.commit, hdone.1.num_eq]
  rwa [← hparam, List.nil_append] at htable

/-- The parameters of a control sequence are read back: the scan of a sequence
with 1 to 16 parameters takes exactly its bytes, whatever follows them, and
leaves the screen alone. -/
theorem getCSIParam_roundtrip {pre : List UInt8} (hpre : IsPrefix pre)
    {params : List (List UInt8)} (hp : IsParams params) (hne : params ≠ [])
    (hlen : params.length ≤ 16) (hsmall : ∀ p ∈ params, decimal p < 2 ^ 31) {final : UInt8}
    (hf : isFinal final = true) (rest : List UInt8) (t : Terminal) (s : Screen) :
    ∃ param, getCSIParam t (csiSequence pre params final ++ rest) s =
        .ok ((csiSequence pre params final).length, param, s) ∧
      param.Holds pre params final := by
  have hmax : csiParamMax = 16 := rfl
  obtain ⟨hcmd, hsize, -⟩ := VT100.csiResult_few hpre hp hf hlen rest
  refine ⟨_, VT100.getCSIParam_few hpre hp hf hlen rest t s, ?_⟩
  obtain ⟨ps, last, rfl⟩ : ∃ ps last, params = ps ++ [last] :=
    ⟨params.dropLast, params.getLast hne, (List.dropLast_append_getLast hne).symm⟩
  have hlen' : ps.length + 1 ≤ 16 := by simpa using hlen
  have htable := csiResult_table hpre hp hlen' hf rest
  have hvalue : ∀ i : Nat, paramCell ((ps ++ [last]).getD i []) =
      paramValue ((ps ++ [last]).getD i []) := by
    intro i
    by_cases hi : i < (ps ++ [last]).length
    · rw [List.getD_eq_getElem _ _ hi]
      exact paramCell_eq (hp _ (List.getElem_mem hi)) (hsmall _ (List.getElem_mem hi))
    · rw [List.getD_eq_default _ _ (by omega)]
      rfl
  refine ⟨hcmd, htable.question_eq, htable.modifier_eq, fun i hi => ?_, ?_⟩
  · rw [Block.load_of_lt (by omega) (by rw [hsize]; omega), htable.cell_eq i, hvalue]
  · rw [htable.count_eq, List.getLast?_concat, List.length_append]
    by_cases hlast : last = []
    · simp [hlast]
    · simp [hlast]

/-- `ESC [ ? 0 7 ; ; 2 5 ; h` and one more byte, on a new object. -/
theorem init_getCSIParam : ∃ v param, VT100.init ⟨0, 0, 0⟩ = .ok v ∧
    getCSIParam v.terminal
        (csiSequence [0x3f] [[0x30, 0x37], [], [0x32, 0x35], []] 0x68 ++ [0x31]) v.screen =
      .ok (11, param, v.screen) ∧
    param.Holds [0x3f] [[0x30, 0x37], [], [0x32, 0x35], []] 0x68 ∧ param.count = 3 := by
  obtain ⟨v, -, hv, -⟩ := VT100.init_put ⟨0, 0, 0⟩ []
  have hpre : IsPrefix [0x3f] := Or.inr (Or.inl rfl)
  have hp : IsParams [[0x30, 0x37], [], [0x32, 0x35], []] := by simp [IsParams, isDigit]
  have hf : isFinal 0x68 = true := rfl
  obtain ⟨param, hok, hholds⟩ := getCSIParam_roundtrip hpre hp (by simp) (by simp)
    (by simp [decimal, decimalFrom]) hf [0x31] v.terminal v.screen
  exact ⟨v, param, hv, hok, hholds, hholds.count_eq⟩

/-! ## How far the counter goes

Control characters may stand anywhere in a parameter. One between two digits
ends the number, so the parameter takes as many places as it has runs of digits. -/

/-- The bytes of a parameter: digits, and control characters executed between them. -/
def isField (b : UInt8) : Bool := isDigit b || isCsiControl b

/-- The numbers in a parameter: its runs of digits. `inRun` says that a digit
stands before it. -/
def digitRuns : Bool → List UInt8 → Nat
  | _, [] => 0
  | inRun, b :: bs =>
      if isDigit b then (if inRun then 0 else 1) + digitRuns true bs else digitRuns false bs

/-- How many places the parameters take that end with a separator: one each, or
as many as there are numbers in it. -/
def fieldCount (fields : List (List UInt8)) : Nat :=
  (fields.map fun f => max 1 (digitRuns false f)).sum

/-- What reading `k` numbers does to the parameters. -/
structure CsiState.Counts (st st' : CsiState) (k : Nat) : Prop where
  running : st'.stopped = false
  count_eq : st'.commit.param.count = st.commit.param.count + k
  numeric_eq : st'.commit.numeric = (st.commit.numeric || decide (0 < k))
  cmd_eq : st'.commit.param.cmd = st.commit.param.cmd
  size_eq : st'.commit.param.p.size = st.commit.param.p.size

theorem CsiState.Counts.trans {st st₁ st₂ : CsiState} {k l : Nat} (h₁ : st.Counts st₁ k)
    (h₂ : st₁.Counts st₂ l) : st.Counts st₂ (k + l) := by
  refine ⟨h₂.running, ?_, ?_, h₂.cmd_eq.trans h₁.cmd_eq, h₂.size_eq.trans h₁.size_eq⟩
  · rw [h₂.count_eq, h₁.count_eq]
    omega
  · rw [h₂.numeric_eq, h₁.numeric_eq, Bool.or_assoc]
    congr 1
    by_cases hk : 0 < k
    · simp [hk]
    · simp [show k = 0 by omega]

theorem CsiState.counts_digit {st : CsiState} (hs : st.stopped = false) {b : UInt8}
    (hb : isDigit b = true) : st.Counts (st.step b) (if st.num.isSome then 0 else 1) := by
  have hstep : st.step b =
      { st with taken := st.taken + 1, num := some (CsiState.addDigit st.num b) } := by
    simp [CsiState.step, hs, hb]
  have hsize : ∀ n (param : CSIParam), (param.addNumber n).p.size = param.p.size := by
    intro n param
    unfold CSIParam.addNumber
    simp only
    split <;> rfl
  rw [hstep]
  cases hn : st.num with
  | none =>
      refine ⟨hs, ?_, ?_, ?_, ?_⟩
      all_goals simp [CsiState.commit, hn, hsize]
      all_goals rfl
  | some n =>
      refine ⟨hs, ?_, ?_, ?_, ?_⟩
      all_goals simp [CsiState.commit, hn, hsize]
      all_goals rfl

theorem control_not_other {b : UInt8} (h : isCsiControl b = true) :
    isDigit b = false ∧ b ≠ 0x3b ∧ isFinal b = false ∧ b ≠ 0x27 ∧ b ≠ 0x26 := by
  refine ⟨?_, ?_, ?_, ?_, ?_⟩
  · by_contra hd
    rw [digit_not_control (by simpa using hd)] at h
    cases h
  · rintro rfl
    cases h
  · by_contra hf
    rw [alpha_not_control (show isFinal b = true by simpa only [Bool.not_eq_false] using hf)] at h
    cases h
  · rintro rfl
    cases h
  · rintro rfl
    cases h

theorem CsiState.step_control {st : CsiState} (hs : st.stopped = false) {b : UInt8}
    (hb : isCsiControl b = true) : st.step b = { st.commit with taken := st.taken + 1 } := by
  obtain ⟨hd, hsemi, hf, hq, hq'⟩ := control_not_other hb
  have halpha : (isAlpha b || decide (b = 0x40)) = false := hf
  simp only [CsiState.step, hs, hd, CsiState.punctuate, hsemi, halpha, hq, hq', hb,
    CsiState.commit_taken, Bool.false_eq_true, if_false, if_true, decide_false, Bool.or_self]

theorem CsiState.counts_control {st : CsiState} (hs : st.stopped = false) {b : UInt8}
    (hb : isCsiControl b = true) : st.Counts (st.step b) 0 := by
  have hcommit : ({ st.commit with taken := st.taken + 1 } : CsiState).commit =
      { st.commit with taken := st.taken + 1 } := by
    cases hn : st.num <;> simp [CsiState.commit, hn]
  rw [CsiState.step_control hs hb]
  refine ⟨?_, ?_, ?_, ?_, ?_⟩
  · rw [← hs, ← st.commit_stopped]
  · rw [hcommit]
    simp
  · rw [hcommit]
    simp
  · rw [hcommit]
  · rw [hcommit]

theorem csiScan_field {st : CsiState} (hs : st.stopped = false) {f : List UInt8}
    (hf : ∀ b ∈ f, isField b = true) : st.Counts (csiScan st f) (digitRuns st.num.isSome f) := by
  induction f generalizing st with
  | nil => exact ⟨hs, by simp [digitRuns, csiScan], by simp [digitRuns, csiScan], rfl, rfl⟩
  | cons b f ih =>
      have hb := hf b (List.mem_cons_self ..)
      have hf' : ∀ c ∈ f, isField c = true := fun c hc => hf c (List.mem_cons_of_mem _ hc)
      have hscan : csiScan st (b :: f) = csiScan (st.step b) f := rfl
      by_cases hd : isDigit b = true
      · have hstep := CsiState.counts_digit hs hd
        have hsome : (st.step b).num.isSome = true := by simp [CsiState.step, hs, hd]
        have htail := ih hstep.running hf'
        rw [hsome] at htail
        rw [hscan, digitRuns, if_pos hd]
        exact hstep.trans htail
      · have hc : isCsiControl b = true := by
          simpa [isField, hd] using hb
        have hstep := CsiState.counts_control hs hc
        have hnone : (st.step b).num.isSome = false := by
          rw [CsiState.step_control hs hc]
          cases hn : st.num <;> simp [CsiState.commit, hn]
        have htail := ih hstep.running hf'
        rw [hnone] at htail
        rw [hscan, digitRuns, if_neg hd, ← Nat.zero_add (digitRuns false f)]
        exact hstep.trans htail

/-- A separator after a parameter with control characters in it. -/
theorem csiScan_fieldSeparator {st : CsiState} {n : Int} (h : st.Ready n) {f : List UInt8}
    (hf : ∀ b ∈ f, isField b = true) :
    let st' := csiScan st (f ++ [0x3b])
    (n + max 1 (digitRuns false f) < csiParamMax → st'.Ready (n + max 1 (digitRuns false f))) ∧
      (csiParamMax ≤ n + max 1 (digitRuns false f) →
        st'.stopped = true ∧ st'.num = none ∧ st'.param.cmd = 0) := by
  intro st'
  have hcounts := csiScan_field h.running hf
  have hcommit : st.commit = st := by rw [CsiState.commit, h.num_eq]
  rw [h.num_eq, Option.isSome_none] at hcounts
  generalize hk : digitRuns false f = k at *
  have hstep : st' = (csiScan st f).step 0x3b := by
    rw [show st' = csiScan (csiScan st f) [0x3b] from csiScan_append ..]
    rfl
  rw [hstep, CsiState.step_separator _ hcounts.running]
  have hcount := hcounts.count_eq
  have hnumeric := hcounts.numeric_eq
  rw [hcommit, h.count_eq] at hcount
  rw [hcommit, h.numeric_eq, Bool.false_or] at hnumeric
  have hcmd : (csiScan st f).commit.param.cmd = 0 := by
    rw [hcounts.cmd_eq, hcommit, h.cmd_eq]
  have hsize : (csiScan st f).commit.param.p.size = csiParamMax := by
    rw [hcounts.size_eq, hcommit, h.size_eq]
  have hsep : (csiScan st f).separated.count = n + max 1 k ∧
      (csiScan st f).separated.cmd = 0 ∧ (csiScan st f).separated.p.size = csiParamMax := by
    rw [CsiState.separated, CSIParam.addBlank, hnumeric]
    by_cases h0 : 0 < k
    · rw [if_pos (by simpa using h0)]
      exact ⟨by omega, hcmd, hsize⟩
    · rw [if_neg (by simpa using h0)]
      exact ⟨by simp only; omega, hcmd, hsize⟩
  constructor
  · intro hlt
    exact ⟨by simp [hsep.1]; omega, rfl, rfl, by simpa using hsep.1, hsep.2.1, hsep.2.2⟩
  · intro hge
    exact ⟨by simp [hsep.1]; omega, rfl, hsep.2.1⟩

/-- The final byte after a parameter with control characters in it. -/
theorem csiScan_fieldFinal {st : CsiState} {n : Int} (h : st.Ready n) {f : List UInt8}
    (hf : ∀ b ∈ f, isField b = true) {final : UInt8} (hfinal : isFinal final = true)
    (rest : List UInt8) :
    let st' := csiScan st (f ++ final :: rest)
    st'.num = none ∧ st'.param.cmd = final.toNat ∧ st'.param.count = n + digitRuns false f ∧
      st'.param.p.size = csiParamMax := by
  intro st'
  have hcounts := csiScan_field h.running hf
  have hcommit : st.commit = st := by rw [CsiState.commit, h.num_eq]
  rw [h.num_eq, Option.isSome_none] at hcounts
  have hstop : ((csiScan st f).step final).stopped = true := by
    rw [CsiState.step_final _ hcounts.running hfinal]
  have hst' : st' = (csiScan st f).step final := by
    rw [show st' = csiScan (csiScan st f) (final :: rest) from csiScan_append ..]
    exact csiScan_stopped hstop rest
  rw [hst', CsiState.step_final _ hcounts.running hfinal]
  refine ⟨rfl, rfl, ?_, ?_⟩
  · rw [hcounts.count_eq, hcommit, h.count_eq]
  · rw [hcounts.size_eq, hcommit, h.size_eq]

/-- Parameters with control characters in them: if the separators leave room, the
scan reaches the final byte, else it stops without a command. -/
theorem csiScan_fields {st : CsiState} {n : Int} (h : st.Ready n) (hn : n < csiParamMax)
    {fields : List (List UInt8)} {last : List UInt8}
    (hf : ∀ f ∈ fields ++ [last], ∀ b ∈ f, isField b = true) {final : UInt8}
    (hfinal : isFinal final = true) (rest : List UInt8) :
    let st' := csiScan st (joinParams (fields ++ [last]) ++ final :: rest)
    st'.num = none ∧
      (n + fieldCount fields < csiParamMax →
        st'.param.cmd = final.toNat ∧
          st'.param.count = n + fieldCount fields + digitRuns false last ∧
          st'.param.p.size = csiParamMax) ∧
      (csiParamMax ≤ n + fieldCount fields → st'.param.cmd = 0) := by
  induction fields generalizing st n with
  | nil =>
      obtain ⟨hnum, hcmd, hcount, hsize⟩ :=
        csiScan_fieldFinal h (hf last (by simp)) hfinal rest
      refine ⟨hnum, fun _ => ⟨hcmd, ?_, hsize⟩, fun hge => ?_⟩
      · simpa [fieldCount, joinParams] using hcount
      · simp only [fieldCount, List.map_nil, List.sum_nil] at hge
        omega
  | cons f fields ih =>
      have hsplit : joinParams (f :: fields ++ [last]) ++ final :: rest =
          (f ++ [0x3b]) ++ (joinParams (fields ++ [last]) ++ final :: rest) := by
        rw [List.cons_append, joinParams_cons f (by simp)]
        simp
      have hcount : fieldCount (f :: fields) = max 1 (digitRuns false f) + fieldCount fields := by
        simp [fieldCount]
      obtain ⟨hroom, hfull⟩ := csiScan_fieldSeparator h (hf f (by simp))
      rw [hsplit, csiScan_append, hcount]
      by_cases hlt : n + max 1 (digitRuns false f) < csiParamMax
      · have htail := ih (hroom hlt) hlt (fun g hg => hf g (List.mem_cons_of_mem _ hg))
        push_cast at htail ⊢
        simp only [← Int.add_assoc]
        exact htail
      · obtain ⟨hstop, hnum, hcmd⟩ := hfull (by omega)
        rw [csiScan_stopped hstop]
        refine ⟨hnum, fun hroom' => ?_, fun _ => hcmd⟩
        omega

/-! ## Taking a scanned sequence apart

The other direction: from a scan that has met a command to the parameters that
the bytes must have consisted of. -/

/-- A scan that has met a command stopped at a final byte, and there was nothing
but parameters and separators before it. -/
theorem csiScan_command {st : CsiState} (hs : st.stopped = false) (hcmd : st.param.cmd = 0)
    {bytes : List UInt8} (h0 : (csiScan st bytes).param.cmd ≠ 0)
    (hff : (csiScan st bytes).param.cmd ≠ 0xff) :
    ∃ body final rest, bytes = body ++ final :: rest ∧ isFinal final = true ∧
      ∀ b ∈ body, isField b = true ∨ b = 0x3b := by
  induction bytes generalizing st with
  | nil => exact (h0 hcmd).elim
  | cons b bs ih =>
      have hcommit : st.commit.param.cmd = 0 := by
        cases hn : st.num <;> simpa [CsiState.commit, hn]
      rw [show csiScan st (b :: bs) = csiScan (st.step b) bs from rfl] at h0 hff
      -- the byte does not stop the scan
      have hnext : (isField b = true ∨ b = 0x3b) → (st.step b).stopped = false →
          (st.step b).param.cmd = 0 → ∃ body final rest, b :: bs = body ++ final :: rest ∧
            isFinal final = true ∧ ∀ b ∈ body, isField b = true ∨ b = 0x3b := by
        intro hb hs' hcmd'
        obtain ⟨body, final, rest, rfl, hfinal, hbody⟩ := ih hs' hcmd' h0 hff
        exact ⟨b :: body, final, rest, rfl, hfinal, List.forall_mem_cons.mpr ⟨hb, hbody⟩⟩
      by_cases hd : isDigit b = true
      · refine hnext (Or.inl (by simp [isField, hd])) ?_ ?_
        · simp [CsiState.step, hs, hd]
        · simpa [CsiState.step, hs, hd] using hcmd
      · by_cases hsemi : b = 0x3b
        · subst hsemi
          have hcmd' : (st.step 0x3b).param.cmd = 0 := by
            rw [CsiState.step_separator st hs, CsiState.separated, CSIParam.addBlank]
            split <;> exact hcommit
          cases hstop : (st.step 0x3b).stopped with
          | true =>
              rw [csiScan_stopped hstop] at h0
              exact (h0 hcmd').elim
          | false => exact hnext (Or.inr rfl) hstop hcmd'
        · by_cases hf : isFinal b = true
          · exact ⟨[], b, bs, rfl, hf, by simp⟩
          · by_cases hc : isCsiControl b = true
            · refine hnext (Or.inl (by simp [isField, hc])) ?_ ?_
              · rw [CsiState.step_control hs hc, ← hs, ← st.commit_stopped]
              · rw [CsiState.step_control hs hc]
                exact hcommit
            · -- anything else stops it with the command `0xff`
              have hstep : (st.step b).stopped = true ∧ (st.step b).param.cmd = 0xff := by
                have halpha : (isAlpha b || decide (b = 0x40)) = false := by
                  simpa [isFinal] using hf
                simp only [CsiState.step, hs, hd, CsiState.punctuate, hsemi, halpha, hc,
                  Bool.false_eq_true, if_false]
                split <;> exact ⟨rfl, rfl⟩
              rw [csiScan_stopped hstep.1] at hff
              exact (hff hstep.2).elim

theorem exists_fields {body : List UInt8} (h : ∀ b ∈ body, isField b = true ∨ b = 0x3b) :
    ∃ fields last, body = joinParams (fields ++ [last]) ∧
      ∀ f ∈ fields ++ [last], ∀ b ∈ f, isField b = true := by
  induction body with
  | nil => exact ⟨[], [], rfl, by simp⟩
  | cons b body ih =>
      obtain ⟨fields, last, rfl, hf⟩ := ih fun c hc => h c (List.mem_cons_of_mem _ hc)
      rcases h b (List.mem_cons_self ..) with hb | rfl
      · cases fields with
        | nil =>
            refine ⟨[], b :: last, rfl, ?_⟩
            simpa [hb] using hf
        | cons f fields =>
            refine ⟨(b :: f) :: fields, last, ?_, ?_⟩
            · simp [joinParams_cons]
            · simpa [hb] using hf
      · refine ⟨[] :: fields, last, ?_, ?_⟩
        · simp [joinParams_cons]
        · simpa using hf

/-- The sequences that go over the table: their last parameter, which no
separator follows, holds more numbers than there are places left. -/
def TooMany (datap : List UInt8) : Prop :=
  ∃ pre fields last final rest, IsPrefix pre ∧
    (∀ f ∈ fields ++ [last], ∀ b ∈ f, isField b = true) ∧ isFinal final = true ∧
    datap = csiSequence pre (fields ++ [last]) final ++ rest ∧
    fieldCount fields < 16 ∧ 16 < fieldCount fields + digitRuns false last

theorem field_unprefixed {fields : List (List UInt8)}
    (hf : ∀ f ∈ fields, ∀ b ∈ f, isField b = true) :
    ∀ f ∈ fields, ∀ b ∈ f, b ≠ 0x3f ∧ b ≠ 0x3e := by
  intro f hff b hb
  have h := hf f hff b hb
  constructor <;> rintro rfl <;> cases h

theorem csiResult_fields {pre : List UInt8} (hpre : IsPrefix pre) {fields : List (List UInt8)}
    {last : List UInt8} (hf : ∀ f ∈ fields ++ [last], ∀ b ∈ f, isField b = true) {final : UInt8}
    (hfinal : isFinal final = true) (rest : List UInt8) :
    let param := (csiResult (csiSequence pre (fields ++ [last]) final ++ rest)).param
    (fieldCount fields < 16 → param.cmd = final.toNat ∧
        param.count = fieldCount fields + digitRuns false last ∧ param.p.size = csiParamMax) ∧
      (16 ≤ fieldCount fields → param.cmd = 0) := by
  have hmax : csiParamMax = 16 := rfl
  obtain ⟨hnum, hroom, hfull⟩ :=
    csiScan_fields (csiStart_ready (csiSequence pre (fields ++ [last]) final ++ rest))
      (by omega) hf hfinal rest
  rw [csiResult, csiPrefix_sequence hpre (field_unprefixed hf) hfinal rest]
  simp only [CsiState.commit, hnum]
  refine ⟨fun hlt => ?_, fun hge => hfull (by omega)⟩
  obtain ⟨hcmd, hcount, hsize⟩ := hroom (by omega)
  exact ⟨hcmd, by omega, hsize⟩

theorem exists_sequence {datap : List UInt8} (hcsi : isCSI datap = true)
    (h0 : (csiResult datap).param.cmd ≠ 0) (hff : (csiResult datap).param.cmd ≠ 0xff) :
    ∃ pre fields last final rest, IsPrefix pre ∧
      (∀ f ∈ fields ++ [last], ∀ b ∈ f, isField b = true) ∧ isFinal final = true ∧
      datap = csiSequence pre (fields ++ [last]) final ++ rest := by
  have hcommit : ∀ st : CsiState, st.commit.param.cmd = st.param.cmd := by
    intro st
    cases hn : st.num <;> simp [CsiState.commit, hn, CSIParam.addNumber]
  rw [csiResult, hcommit] at h0 hff
  obtain ⟨body, final, rest, hbytes, hfinal, hbody⟩ :=
    csiScan_command (csiStart_ready datap).running (csiStart_ready datap).cmd_eq h0 hff
  obtain ⟨fields, last, rfl, hf⟩ := exists_fields hbody
  have hpre : ∃ pre, IsPrefix pre ∧ datap = escByte :: 0x5b :: (pre ++ (csiPrefix datap).2.1) := by
    obtain ⟨tail, rfl⟩ : ∃ tail, datap = escByte :: 0x5b :: tail := by
      rcases datap with - | ⟨a, - | ⟨b, tail⟩⟩
      · simp [isCSI] at hcsi
      · simp [isCSI] at hcsi
      · have hab : a = escByte ∧ b = 0x5b := by simpa [isCSI] using hcsi
        obtain ⟨rfl, rfl⟩ := hab
        exact ⟨tail, rfl⟩
    unfold csiPrefix
    simp only [List.drop_succ_cons, List.drop_zero]
    split
    · exact ⟨[0x3f], Or.inr (Or.inl rfl), rfl⟩
    · exact ⟨[0x3e], Or.inr (Or.inr rfl), rfl⟩
    · exact ⟨[], Or.inl rfl, rfl⟩
  obtain ⟨pre, hpre, hdatap⟩ := hpre
  refine ⟨pre, fields, last, final, rest, hpre, hf, hfinal, ?_⟩
  rw [hdatap, hbytes]
  simp [csiSequence]

/-- The counter is over 16 exactly for those sequences. -/
theorem csiResult_count {datap : List UInt8} (hcsi : isCSI datap = true)
    (h0 : (csiResult datap).param.cmd ≠ 0) (hff : (csiResult datap).param.cmd ≠ 0xff) :
    0 ≤ (csiResult datap).param.count ∧ (csiResult datap).param.p.size = csiParamMax ∧
      (¬TooMany datap → (csiResult datap).param.count ≤ csiParamMax) := by
  have hmax : csiParamMax = 16 := rfl
  obtain ⟨pre, fields, last, final, rest, hpre, hf, hfinal, rfl⟩ := exists_sequence hcsi h0 hff
  obtain ⟨hroom, hfull⟩ := csiResult_fields hpre hf hfinal rest
  have hlt : fieldCount fields < 16 := by
    by_contra hge
    exact h0 (hfull (by omega))
  obtain ⟨-, hcount, hsize⟩ := hroom hlt
  refine ⟨by omega, hsize, fun hmany => ?_⟩
  by_contra hgt
  exact hmany ⟨pre, fields, last, final, rest, hpre, hf, hfinal, rfl, hlt, by omega⟩

theorem TooMany.result {datap : List UInt8} (h : TooMany datap) :
    (csiResult datap).param.cmd ≠ 0 ∧ (csiResult datap).param.cmd ≠ 0xff ∧
      csiParamMax < (csiResult datap).param.count := by
  have hmax : csiParamMax = 16 := rfl
  obtain ⟨pre, fields, last, final, rest, hpre, hf, hfinal, rfl, hlt, hgt⟩ := h
  obtain ⟨hcmd, hcount, -⟩ := (csiResult_fields hpre hf hfinal rest).1 hlt
  have hrange : 0 < final.toNat ∧ final.toNat ≠ 0xff := by
    simp only [isFinal, isAlpha, Bool.or_eq_true, Bool.and_eq_true, decide_eq_true_eq,
      UInt8.le_iff_toNat_le, UInt8.reduceToNat, ← UInt8.toNat_inj] at hfinal
    omega
  rw [hcmd, hcount]
  exact ⟨by omega, hrange.2, by omega⟩

/-! ## The counter of a token -/

section

variable {param param' : CSIParam} {r : TokenType × CSIParam}

theorem setDefault_count {n d : Int} (hok : param.setDefault n d = .ok param') :
    param.count ≤ param'.count := by
  obtain ⟨v, -, hok⟩ := bind_eq_ok.mp hok
  obtain ⟨p, -, hok⟩ := bind_eq_ok.mp hok
  cases hok
  simp only
  split <;> omega

theorem default1_count {type : TokenType} {d : Int} (hok : param.default1 type d = .ok r) :
    param.count ≤ r.2.count := by
  obtain ⟨p, hp, hok⟩ := bind_eq_ok.mp hok
  cases hok
  exact setDefault_count hp

theorem default2_count {type : TokenType} {n d n' d' : Int}
    (hok : param.default2 type n d n' d' = .ok r) : param.count ≤ r.2.count := by
  obtain ⟨p, hp, hok⟩ := bind_eq_ok.mp hok
  obtain ⟨p', hp', hok⟩ := bind_eq_ok.mp hok
  cases hok
  exact Int.le_trans (setDefault_count hp) (setDefault_count hp')

theorem windowOp_count (hok : windowOp param = .ok r) : param.count ≤ r.2.count := by
  obtain ⟨op, -, hok⟩ := bind_eq_ok.mp hok
  split at hok
  all_goals first
    | exact default2_count hok
    | (cases hok; exact Int.le_refl _)

theorem csiCommand_count {height : Int} (hok : csiCommand height param = .ok r) :
    param.count ≤ r.2.count := by
  unfold csiCommand at hok
  split at hok
  case h_16 =>
    obtain ⟨p, hp, hok⟩ := bind_eq_ok.mp hok
    cases hok
    exact forUp_inv (P := fun _ (p : CSIParam) => param.count ≤ p.count)
      (fun _ _ _ _ _ hle hs => Int.le_trans hle (setDefault_count hs)) (Int.le_refl _) hp
  case h_23 => exact windowOp_count hok
  case h_25 =>
    split at hok
    · exact default1_count hok
    · cases hok
      exact Int.le_refl _
  all_goals first
    | exact default1_count hok
    | exact default2_count hok
    | (cases hok; exact Int.le_refl _)

theorem csiPrivate_count (hok : csiPrivate param = .ok r) : param.count ≤ r.2.count := by
  unfold csiPrivate at hok
  split at hok
  all_goals first
    | exact default1_count hok
    | (cases hok; exact Int.le_refl _)

end

/-- `decode_csi` completes with a token whose counter is in the table, and
`setCharAttr:` completes on it: no access to the table leaves it. -/
def ParamsInRange (t : Terminal) (datap : List UInt8) (s : Screen) : Prop :=
  ∃ tok n s', decodeCsi t datap s = .ok (tok, n, s') ∧ 0 ≤ tok.csi.count ∧
    tok.csi.count ≤ csiParamMax ∧ ∀ v : VT100, ∃ v', v.setCharAttr tok = .ok v'

theorem decodeCsi_of_scan {datap : List UInt8} {k : Nat} {param : CSIParam}
    (hscan : getCSIParam t datap s = .ok (k, param, s')) :
    decodeCsi t datap s =
      if param.cmd = 0xff then .ok ({ type := .unknownChar }, k, s')
      else if k > 0 ∧ param.cmd > 0 then do
        let (type, param) ←
          (if param.question then csiPrivate param else csiCommand s'.height param)
        .ok ({ type := type, csi := param }, k, s')
      else .ok ({ type := .wait }, 0, s') := by
  rw [decodeCsi, hscan, ok_bind]

/-- The control characters of the sequence having been executed, the table is left exactly
when the last parameter holds too many numbers. Separators are no danger, since the
counter is compared with the size of the table at each of them. -/
theorem params_in_range_iff {datap : List UInt8} (hcsi : isCSI datap = true) {k : Nat}
    {param : CSIParam} (hscan : getCSIParam t datap s = .ok (k, param, s')) :
    ParamsInRange t datap s ↔ ¬TooMany datap := by
  have hmax : csiParamMax = 16 := rfl
  have hparam : param = (csiResult datap).param ∧ k = (csiResult datap).taken := by
    rw [getCSIParam_eq] at hscan
    obtain ⟨s₁, -, hscan⟩ := bind_eq_ok.mp hscan
    cases hscan
    exact ⟨rfl, rfl⟩
  have htaken := two_le_csiResult_taken datap
  rw [ParamsInRange, decodeCsi_of_scan hscan]
  constructor
  · rintro ⟨tok, n, s₁, hok, -, hcount, -⟩ hmany
    obtain ⟨h0, hff, hgt⟩ := hmany.result
    rw [← hparam.1] at h0 hff hgt
    rw [if_neg hff, if_pos ⟨by omega, by omega⟩] at hok
    obtain ⟨⟨type, param'⟩, hr, hok⟩ := bind_eq_ok.mp hok
    cases hok
    have hle : param.count ≤ param'.count := by
      split at hr
      · exact csiPrivate_count hr
      · exact csiCommand_count hr
    simp only at hcount
    omega
  · intro hmany
    by_cases hff : param.cmd = 0xff
    · exact ⟨_, _, _, if_pos hff, by decide, by decide, fun v => ⟨v, rfl⟩⟩
    · by_cases h0 : param.cmd = 0
      · refine ⟨{ type := .wait }, 0, s', ?_, by decide, by decide, fun v => ⟨v, rfl⟩⟩
        rw [if_neg hff, if_neg (by omega)]
      · obtain ⟨hge, hsize, hle⟩ := csiResult_count hcsi (hparam.1 ▸ h0) (hparam.1 ▸ hff)
        have hle := hle hmany
        rw [← hparam.1] at hge hsize hle
        have hdecoded : Decoded (if param.question then csiPrivate param
            else csiCommand s'.height param) := by
          split
          · exact csiPrivate_decoded hsize hle
          · exact csiCommand_decoded hsize hle s'.height
        obtain ⟨type, param', hok, -, hsize', hcount'⟩ := hdecoded
        have hge' : param.count ≤ param'.count := by
          split at hok
          · exact csiPrivate_count hok
          · exact csiCommand_count hok
        refine ⟨{ type := type, csi := param' }, k, s', ?_, by simp only; omega, hcount', ?_⟩
        · rw [if_neg hff, if_pos ⟨by omega, by omega⟩, hok]
          rfl
        · intro v
          obtain ⟨v', hv', -⟩ :=
            @VT100.setCharAttr_total { type := type, csi := param' } hsize' hcount' v
          exact ⟨v', hv'⟩

/-- `ESC [`, seventeen zeros with `ENQ` between them, and `m`. -/
def splitSgr : List UInt8 :=
  0x1b :: 0x5b :: 0x30 :: ((List.replicate 16 [0x05, 0x30]).flatten ++ [0x6d])

/-- On a new object the default for the seventeenth number is stored behind the
table. -/
theorem init_splitSgr : ∃ v, VT100.init ⟨0, 0, 0⟩ = .ok v ∧ isCSI splitSgr = true ∧
    (∃ r, getCSIParam v.terminal splitSgr v.screen = .ok r) ∧
    decodeCsi v.terminal splitSgr v.screen = .error .outOfBounds ∧
    ¬ParamsInRange v.terminal splitSgr v.screen := by
  obtain ⟨v, -, hv, -⟩ := VT100.init_put ⟨0, 0, 0⟩ []
  have hdecode : decodeCsi v.terminal splitSgr v.screen = .error .outOfBounds := by rfl
  refine ⟨v, hv, rfl, ?_, hdecode, ?_⟩
  · rw [getCSIParam_eq, show embeddedControls splitSgr = List.replicate 16 0x05 by rfl]
    exact ⟨_, rfl⟩
  · rintro ⟨tok, n, s', hok, -⟩
    rw [hdecode] at hok
    cases hok

/-- `ESC [ 1 ; 2 ENQ H` on a new object: the control character splits no number. -/
theorem init_params_in_range : ∃ v, VT100.init ⟨0, 0, 0⟩ = .ok v ∧
    ParamsInRange v.terminal [0x1b, 0x5b, 0x31, 0x3b, 0x32, 0x05, 0x48] v.screen ∧
    ¬TooMany [0x1b, 0x5b, 0x31, 0x3b, 0x32, 0x05, 0x48] := by
  obtain ⟨v, -, hv, -⟩ := VT100.init_put ⟨0, 0, 0⟩ []
  have hscan : ∃ param, getCSIParam v.terminal [0x1b, 0x5b, 0x31, 0x3b, 0x32, 0x05, 0x48]
      v.screen = .ok (7, param, v.screen) := ⟨_, rfl⟩
  obtain ⟨param, hscan⟩ := hscan
  have hrange : ParamsInRange v.terminal [0x1b, 0x5b, 0x31, 0x3b, 0x32, 0x05, 0x48] v.screen :=
    ⟨_, _, _, rfl, by decide, by decide, fun v => ⟨v, rfl⟩⟩
  exact ⟨v, hv, hrange, (params_in_range_iff rfl hscan).mp hrange⟩

end MobileTerminal
