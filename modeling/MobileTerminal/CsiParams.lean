import MobileTerminal.CsiScan
import MobileTerminal.Fresh

/-!
# Complete control sequences

A control sequence is `ESC [`, an optional `?` or `>`, parameters separated by
`;` and a final byte. The scan of a complete sequence with up to 16 parameters
stops after its final byte. With more it stops at the separator that fills the
table, and since no command has been set by then the sequence looks incomplete.

`CsiState.Ready n` is the invariant of the scan between parameters: `n` of them
have been read and no number is pending. A parameter and its separator lead from
`Ready n` to `Ready (n + 1)` as long as the table has room
(`csiScan_separator`), and the induction on the list of parameters gives
`csiScan_few` and `csiScan_many`.

What follows the decoding completes on a sound object: defaults are inside the
table, a mode can be set whatever its number is, and the 256-colour form reads
three parameters. Saving and restoring the screen are modes too, so that
completion needs `Wf`.

Together `getNextToken` takes such a sequence from the stream exactly when it
has at most 16 parameters (`getNextToken_csi_iff`); with more it answers
`VT100_WAIT`, and nothing that arrives later makes a difference, because the
scan stops at the same separator again.
-/

namespace MobileTerminal

variable {F : Foundation} {t : Terminal} {s : Screen} {v : VT100}

/-- A final byte of a control sequence. -/
def isFinal (b : UInt8) : Bool := isAlpha b || b = 0x40

/-- The parameters of a control sequence: each is blank or a decimal number. -/
def IsParams (params : List (List UInt8)) : Prop :=
  ∀ p ∈ params, ∀ b ∈ p, isDigit b = true

/-- The parameters joined by `;`. -/
def joinParams : List (List UInt8) → List UInt8
  | [] => []
  | [p] => p
  | p :: ps => p ++ 0x3b :: joinParams ps

/-- `ESC [`, the prefix, the parameters and the final byte. -/
def csiSequence (pre : List UInt8) (params : List (List UInt8)) (final : UInt8) : List UInt8 :=
  escByte :: 0x5b :: (pre ++ (joinParams params ++ [final]))

/-! ## Scanning the parameters

The scan is followed over parameters of digits and the separators between them;
with at most 16 of them the counter is still below the size of the table at
every separator. -/

/-- Before a parameter of which `n` have been read. -/
structure CsiState.Ready (st : CsiState) (n : Int) : Prop where
  running : st.stopped = false
  num_eq : st.num = none
  numeric_eq : st.numeric = false
  count_eq : st.param.count = n
  cmd_eq : st.param.cmd = 0
  size_eq : st.param.p.size = csiParamMax

theorem digit_not_final {b : UInt8} (h : isDigit b = true) : isFinal b = false := by
  simp only [isDigit, isFinal, isAlpha, Bool.and_eq_true, decide_eq_true_eq,
    UInt8.le_iff_toNat_le, UInt8.reduceToNat, Bool.or_eq_false_iff, Bool.and_eq_false_iff,
    decide_eq_false_iff_not, ← UInt8.toNat_inj] at *
  omega

theorem final_not_digit {b : UInt8} (h : isFinal b = true) : isDigit b = false := by
  by_contra hd
  rw [digit_not_final (by simpa using hd)] at h
  cases h

/-- The digits of a parameter only move the scan forward and set the number that
is being read. -/
theorem csiScan_param (st : CsiState) (hs : st.stopped = false) (p : List UInt8)
    (hp : ∀ b ∈ p, isDigit b = true) (rest : List UInt8) :
    ∃ num, csiScan st (p ++ rest) =
        csiScan { st with taken := st.taken + p.length, num := num } rest ∧
      csiControls st (p ++ rest) =
        csiControls { st with taken := st.taken + p.length, num := num } rest ∧
      (p = [] → num = st.num) ∧ (p ≠ [] → num.isSome = true) := by
  induction p generalizing st with
  | nil => exact ⟨st.num, rfl, rfl, fun _ => rfl, fun h => (h rfl).elim⟩
  | cons b p ih =>
      have hb := hp b (List.mem_cons_self ..)
      have hstep : st.step b =
          { st with taken := st.taken + 1, num := some (CsiState.addDigit st.num b) } := by
        simp [CsiState.step, hs, hb]
      obtain ⟨num, hscan, hcontrols, hnil, hcons⟩ := ih (st.step b) (by rw [hstep]; exact hs)
        (fun c hc => hp c (List.mem_cons_of_mem _ hc))
      have htaken : (st.step b).taken + p.length = st.taken + (b :: p).length := by
        simp only [hstep, List.length_cons]
        omega
      have hstate : { st.step b with taken := (st.step b).taken + p.length, num := num } =
          { st with taken := st.taken + (b :: p).length, num := num } := by
        rw [htaken, hstep]
      refine ⟨num, ?_, ?_, (fun h => by cases h), fun _ => ?_⟩
      · rw [← hstate]
        exact hscan
      · rw [← hstate]
        simp only [List.cons_append, csiControls, digit_not_control hb, Bool.and_false,
          Bool.false_eq_true, if_false]
        exact hcontrols
      · by_cases hpe : p = []
        · rw [hnil hpe, hstep]
          rfl
        · exact hcons hpe

/-- The parameters after a separator. -/
def CsiState.separated (st : CsiState) : CSIParam :=
  st.commit.param.addBlank st.commit.numeric

theorem CsiState.step_separator (st : CsiState) (hs : st.stopped = false) :
    st.step 0x3b = {
      stopped := decide (st.separated.count ≥ csiParamMax), taken := st.taken + 1, num := none
      numeric := false, param := st.separated } := by
  have hc : st.commit.taken = st.taken ∧ st.commit.num = none := by
    cases hn : st.num <;> simp [CsiState.commit, hn]
  simp [CsiState.step, hs, show isDigit 0x3b = false from rfl, CsiState.punctuate,
    CsiState.separated, hc]

theorem CsiState.step_final (st : CsiState) (hs : st.stopped = false) {b : UInt8}
    (hb : isFinal b = true) :
    st.step b = {
      stopped := true, taken := st.taken + 1, num := none, numeric := st.commit.numeric
      param := { st.commit.param with cmd := b.toNat } } := by
  have hc : st.commit.taken = st.taken ∧ st.commit.num = none := by
    cases hn : st.num <;> simp [CsiState.commit, hn]
  have hsemi : b ≠ 0x3b := by
    rintro rfl
    cases hb
  have halpha : (isAlpha b || b = 0x40) = true := hb
  simp only [CsiState.step, hs, final_not_digit hb, CsiState.punctuate, hsemi, halpha,
    Bool.false_eq_true, if_false, if_true, hc]

/-- Reading the digits of a parameter leaves the scan ready for what follows. -/
theorem CsiState.Ready.commit_param {st : CsiState} {n : Int} (h : st.Ready n)
    (num : Option Int) (k : Nat) :
    let st₁ := { st with taken := k, num := num }
    st₁.commit.param.count = n + (if num.isSome then 1 else 0) ∧
      st₁.commit.numeric = num.isSome ∧ st₁.commit.param.cmd = 0 ∧
      st₁.commit.param.p.size = csiParamMax := by
  cases num with
  | none =>
      simp only [CsiState.commit, Option.isSome_none, Bool.false_eq_true, if_false, Int.add_zero]
      exact ⟨h.count_eq, h.numeric_eq, h.cmd_eq, h.size_eq⟩
  | some m =>
      simp only [CsiState.commit, CSIParam.addNumber, Option.isSome_some, if_true]
      refine ⟨by rw [h.count_eq], trivial, h.cmd_eq, ?_⟩
      split
      · exact h.size_eq
      · exact h.size_eq

/-- A separator after a parameter: one more parameter has been read. -/
theorem csiScan_separator {st : CsiState} {n : Int} (h : st.Ready n) (p : List UInt8)
    (hp : ∀ b ∈ p, isDigit b = true) (rest : List UInt8) :
    ∃ st', csiScan st (p ++ 0x3b :: rest) = csiScan st' rest ∧
      csiControls st (p ++ 0x3b :: rest) = csiControls st' rest ∧
      st'.taken = st.taken + (p.length + 1) ∧
      (n + 1 < csiParamMax → st'.Ready (n + 1)) ∧
      (csiParamMax ≤ n + 1 → st'.stopped = true ∧ st'.num = none ∧ st'.param.cmd = 0) := by
  obtain ⟨num, hscan, hcontrols, -⟩ := csiScan_param st h.running p hp (0x3b :: rest)
  obtain ⟨hcount, hnumeric, hcmd, hsize⟩ := h.commit_param num (st.taken + p.length)
  generalize hst : { st with taken := st.taken + p.length, num := num } = st₁ at *
  have hstep := CsiState.step_separator st₁ (hst ▸ h.running)
  have htaken : st₁.taken = st.taken + p.length := hst ▸ rfl
  have hsep : st₁.separated.count = n + 1 ∧ st₁.separated.cmd = 0 ∧
      st₁.separated.p.size = csiParamMax := by
    unfold CsiState.separated CSIParam.addBlank
    rw [hnumeric]
    cases hn : num.isSome with
    | true =>
        rw [hn] at hcount
        exact ⟨by simpa using hcount, hcmd, hsize⟩
    | false =>
        rw [hn] at hcount
        exact ⟨by simpa using hcount, hcmd, hsize⟩
  refine ⟨st₁.step 0x3b, hscan, ?_, ?_, ?_, ?_⟩
  · rw [hcontrols]
    simp [csiControls, show isCsiControl 0x3b = false from rfl]
  · rw [hstep]
    simp only
    omega
  · intro hlt
    rw [hstep]
    exact ⟨by simp [hsep.1]; omega, rfl, rfl, hsep.1, hsep.2.1, hsep.2.2⟩
  · intro hge
    rw [hstep]
    exact ⟨by simp [hsep.1]; omega, rfl, hsep.2.1⟩

/-- Stopped after `k` bytes with a final byte. -/
structure CsiState.Done (st : CsiState) (k : Nat) (final : UInt8) : Prop where
  stopped : st.stopped = true
  num_eq : st.num = none
  taken_eq : st.taken = k
  cmd_eq : st.param.cmd = final.toNat
  count_range : 0 ≤ st.param.count ∧ st.param.count ≤ csiParamMax
  size_eq : st.param.p.size = csiParamMax

theorem csiScan_final {st : CsiState} {n : Int} (h : st.Ready n) (hn : 0 ≤ n)
    (hn' : n < csiParamMax) {p : List UInt8} (hp : ∀ b ∈ p, isDigit b = true) {final : UInt8}
    (hf : isFinal final = true) (rest : List UInt8) :
    (csiScan st (p ++ final :: rest)).Done (st.taken + p.length + 1) final ∧
      csiControls st (p ++ final :: rest) = [] := by
  obtain ⟨num, hscan, hcontrols, -⟩ := csiScan_param st h.running p hp (final :: rest)
  obtain ⟨hcount, hnumeric, hcmd, hsize⟩ := h.commit_param num (st.taken + p.length)
  generalize hst : { st with taken := st.taken + p.length, num := num } = st₁ at *
  have hstep := CsiState.step_final st₁ (hst ▸ h.running) hf
  have hstop : (st₁.step final).stopped = true := by rw [hstep]
  have htaken : st₁.taken = st.taken + p.length := hst ▸ rfl
  have hend : csiScan st₁ (final :: rest) = st₁.step final := csiScan_stopped hstop rest
  refine ⟨?_, ?_⟩
  · rw [hscan, hend, hstep]
    refine ⟨rfl, rfl, by simp only; omega, rfl, ?_, hsize⟩
    simp only [hcount]
    split <;> omega
  · rw [hcontrols]
    have hnc : isCsiControl final = false := alpha_not_control hf
    simp [csiControls, hnc, csiControls_stopped hstop]

/-- Up to 16 parameters: the scan stops after the final byte. -/
theorem csiScan_few {st : CsiState} {n : Int} (h : st.Ready n) (hn : 0 ≤ n)
    (hn' : n < csiParamMax) {params : List (List UInt8)} (hp : IsParams params)
    (hlen : n + params.length ≤ csiParamMax) {final : UInt8} (hf : isFinal final = true)
    (rest : List UInt8) :
    (csiScan st (joinParams params ++ final :: rest)).Done
        (st.taken + (joinParams params).length + 1) final ∧
      csiControls st (joinParams params ++ final :: rest) = [] := by
  induction params generalizing st n with
  | nil => exact csiScan_final h hn hn' (p := []) (by simp) hf rest
  | cons p ps ih =>
      have hpp := hp p (List.mem_cons_self ..)
      cases ps with
      | nil => exact csiScan_final h hn hn' hpp hf rest
      | cons q qs =>
          have hqs : IsParams (q :: qs) := fun r hr => hp r (List.mem_cons_of_mem _ hr)
          simp only [List.length_cons] at hlen
          have hsplit : joinParams (p :: q :: qs) ++ final :: rest =
              p ++ 0x3b :: (joinParams (q :: qs) ++ final :: rest) := by
            simp [joinParams]
          have hjoin : (joinParams (p :: q :: qs)).length =
              p.length + 1 + (joinParams (q :: qs)).length := by
            simp [joinParams]
            omega
          obtain ⟨st', hscan, hcontrols, htaken, hready, -⟩ :=
            csiScan_separator h p hpp (joinParams (q :: qs) ++ final :: rest)
          obtain ⟨hdone, hnone⟩ := ih (hready (by omega)) (by omega) (by omega) hqs
            (by simp only [List.length_cons]; omega)
          rw [hsplit, hscan, hcontrols]
          refine ⟨?_, hnone⟩
          rwa [hjoin, show st.taken + (p.length + 1 + (joinParams (q :: qs)).length) + 1 =
            st'.taken + (joinParams (q :: qs)).length + 1 by omega]

/-- More than 16: it stops at a separator, with no command. -/
theorem csiScan_many {st : CsiState} {n : Int} (h : st.Ready n) (hn' : n < csiParamMax)
    {params : List (List UInt8)} (hp : IsParams params) (hlen : csiParamMax < n + params.length)
    (rest : List UInt8) :
    (csiScan st (joinParams params ++ rest)).num = none ∧
      (csiScan st (joinParams params ++ rest)).param.cmd = 0 ∧
      csiControls st (joinParams params ++ rest) = [] := by
  induction params generalizing st n with
  | nil =>
      simp only [List.length_nil] at hlen
      omega
  | cons p ps ih =>
      have hpp := hp p (List.mem_cons_self ..)
      cases ps with
      | nil =>
          simp only [List.length_cons, List.length_nil] at hlen
          omega
      | cons q qs =>
          have hqs : IsParams (q :: qs) := fun r hr => hp r (List.mem_cons_of_mem _ hr)
          simp only [List.length_cons] at hlen
          have hsplit : joinParams (p :: q :: qs) ++ rest =
              p ++ 0x3b :: (joinParams (q :: qs) ++ rest) := by
            simp [joinParams]
          obtain ⟨st', hscan, hcontrols, -, hready, hfull⟩ :=
            csiScan_separator h p hpp (joinParams (q :: qs) ++ rest)
          rw [hsplit, hscan, hcontrols]
          by_cases hn : n + 1 < csiParamMax
          · exact ih (hready hn) hn hqs (by simp only [List.length_cons]; omega)
          · obtain ⟨hstop, hnum, hcmd⟩ := hfull (by omega)
            rw [csiScan_stopped hstop, csiControls_stopped hstop]
            exact ⟨hnum, hcmd, rfl⟩

theorem csiStart_ready (datap : List UInt8) : (csiStart datap).Ready 0 := by
  have hparam : (csiPrefix datap).1.count = 0 ∧ (csiPrefix datap).1.cmd = 0 ∧
      (csiPrefix datap).1.p.size = csiParamMax := by
    unfold csiPrefix
    simp only
    split <;> exact ⟨rfl, rfl, rfl⟩
  exact ⟨rfl, rfl, rfl, hparam.1, hparam.2.1, hparam.2.2⟩

/-- The optional prefix of a control sequence. -/
def IsPrefix (pre : List UInt8) : Prop := pre = [] ∨ pre = [0x3f] ∨ pre = [0x3e]

/-- What follows the prefix starts with a byte of a parameter, a separator or the
final byte. -/
theorem body_head {params : List (List UInt8)} (hp : ∀ p ∈ params, ∀ b ∈ p, b ≠ 0x3f ∧ b ≠ 0x3e)
    {final : UInt8} (hfinal : final ≠ 0x3f ∧ final ≠ 0x3e) (rest : List UInt8) :
    ∃ b bs, joinParams params ++ final :: rest = b :: bs ∧ b ≠ 0x3f ∧ b ≠ 0x3e := by
  match params with
  | [] => exact ⟨final, rest, rfl, hfinal⟩
  | [[]] => exact ⟨final, rest, rfl, hfinal⟩
  | [b :: p] =>
      exact ⟨b, p ++ final :: rest, rfl, hp _ (List.mem_cons_self ..) b (List.mem_cons_self ..)⟩
  | [] :: q :: qs =>
      exact ⟨0x3b, joinParams (q :: qs) ++ final :: rest, rfl, by decide⟩
  | (b :: p) :: q :: qs =>
      exact ⟨b, p ++ 0x3b :: joinParams (q :: qs) ++ final :: rest, rfl,
        hp _ (List.mem_cons_self ..) b (List.mem_cons_self ..)⟩

theorem IsParams.no_prefix {params : List (List UInt8)} (hp : IsParams params) :
    ∀ p ∈ params, ∀ b ∈ p, b ≠ 0x3f ∧ b ≠ 0x3e := by
  intro p hpp b hb
  have hd := hp p hpp b hb
  constructor <;> rintro rfl <;> cases hd

/-- The parameters with which the scan starts after the prefix. -/
def prefixParam (pre : List UInt8) : CSIParam :=
  { CSIParam.zero with
    p := Block.alloc csiParamMax (-1)
    question := decide (pre = [0x3f])
    modifier := if pre = [0x3e] then 0x3e else 0 }

theorem csiPrefix_body {pre : List UInt8} (hpre : IsPrefix pre)
    {params : List (List UInt8)} (hp : ∀ p ∈ params, ∀ b ∈ p, b ≠ 0x3f ∧ b ≠ 0x3e)
    {final : UInt8} (hfinal : final ≠ 0x3f ∧ final ≠ 0x3e) (rest : List UInt8) :
    csiPrefix (csiSequence pre params final ++ rest) =
      (prefixParam pre, joinParams params ++ final :: rest, 2 + pre.length) := by
  have hdrop : (csiSequence pre params final ++ rest).drop 2 =
      pre ++ (joinParams params ++ final :: rest) := by
    simp [csiSequence]
  rw [csiPrefix, hdrop]
  rcases hpre with rfl | rfl | rfl
  · obtain ⟨b, bs, heq, h1, h2⟩ := body_head hp hfinal rest
    rw [heq]
    simp only [List.nil_append]
    split
    · rename_i h
      exact absurd (List.cons.inj h).1 h1
    · rename_i h
      exact absurd (List.cons.inj h).1 h2
    · rfl
  · rfl
  · rfl

theorem csiPrefix_sequence {pre : List UInt8} (hpre : IsPrefix pre)
    {params : List (List UInt8)} (hp : ∀ p ∈ params, ∀ b ∈ p, b ≠ 0x3f ∧ b ≠ 0x3e)
    {final : UInt8} (hf : isFinal final = true) (rest : List UInt8) :
    csiPrefix (csiSequence pre params final ++ rest) =
      (prefixParam pre, joinParams params ++ final :: rest, 2 + pre.length) := by
  refine csiPrefix_body hpre hp ?_ rest
  constructor <;> rintro rfl <;> cases hf

/-! ## Decoding -/

theorem setDefault_total {param : CSIParam} (hsize : param.p.size = csiParamMax)
    (hcount : param.count ≤ csiParamMax) {n : Int} (hn : 0 ≤ n) (hn' : n < csiParamMax) (d : Int) :
    ∃ param', param.setDefault n d = .ok param' ∧ param'.p.size = csiParamMax ∧
      param'.count ≤ csiParamMax := by
  have hlt : n < param.p.size := by omega
  refine ⟨{ param with
    p := param.p.set n (if param.p.cell n < 0 then d else param.p.cell n)
    count := if param.count > n + 1 then param.count else n + 1 }, ?_, hsize, ?_⟩
  · simp only [CSIParam.setDefault, Block.load_of_lt hn hlt, ok_bind,
      Block.store_of_lt _ hn hlt]
  · simp only
    split <;> omega

/-- A decoded command: not a request to wait, with parameters inside the table. -/
def Decoded (r : Res (TokenType × CSIParam)) : Prop :=
  ∃ type param, r = .ok (type, param) ∧ type ≠ .wait ∧ param.p.size = csiParamMax ∧
    param.count ≤ csiParamMax

section

variable {param : CSIParam}

theorem Decoded.ok (hsize : param.p.size = csiParamMax) (hcount : param.count ≤ csiParamMax)
    {type : TokenType} (hw : type ≠ .wait) : Decoded (.ok (type, param)) :=
  ⟨type, param, rfl, hw, hsize, hcount⟩

theorem default1_decoded (hsize : param.p.size = csiParamMax)
    (hcount : param.count ≤ csiParamMax) {type : TokenType} (hw : type ≠ .wait) (d : Int) :
    Decoded (param.default1 type d) := by
  obtain ⟨param', h, hsize', hcount'⟩ :=
    setDefault_total hsize hcount (n := 0) (by decide) (by decide) d
  exact ⟨type, param', by simp only [CSIParam.default1, h, ok_bind], hw, hsize', hcount'⟩

theorem default2_decoded (hsize : param.p.size = csiParamMax)
    (hcount : param.count ≤ csiParamMax) {type : TokenType} (hw : type ≠ .wait) {n n' : Int}
    (hn : 0 ≤ n ∧ n < csiParamMax) (hn' : 0 ≤ n' ∧ n' < csiParamMax) (d d' : Int) :
    Decoded (param.default2 type n d n' d') := by
  obtain ⟨param', h, hsize', hcount'⟩ := setDefault_total hsize hcount hn.1 hn.2 d
  obtain ⟨param'', h', hsize'', hcount''⟩ := setDefault_total hsize' hcount' hn'.1 hn'.2 d'
  exact ⟨type, param'', by simp only [CSIParam.default2, h, h', ok_bind], hw, hsize'', hcount''⟩

theorem windowOp_decoded (hsize : param.p.size = csiParamMax)
    (hcount : param.count ≤ csiParamMax) : Decoded (windowOp param) := by
  have hload : (param.p.load 0 : Res Int) = .ok (param.p.cell 0) :=
    Block.load_of_lt (by decide) (by rw [hsize]; decide)
  unfold windowOp
  rw [hload, ok_bind]
  split
  · exact default2_decoded hsize hcount (by decide) (by decide) (by decide) _ _
  · exact default2_decoded hsize hcount (by decide) (by decide) (by decide) _ _
  · exact default2_decoded hsize hcount (by decide) (by decide) (by decide) _ _
  all_goals exact .ok hsize hcount (by decide)

theorem sgr_decoded (hsize : param.p.size = csiParamMax) (hcount : param.count ≤ csiParamMax) :
    Decoded (do
      let param ← forUp (fun i param => CSIParam.setDefault i 0 param) 0 param.count.toNat param
      .ok (.sgr, param)) := by
  obtain ⟨param', h, hsize', hcount'⟩ := forUp_total (f := fun i param =>
      CSIParam.setDefault i 0 param) (s := param)
    (P := fun _ param => param.p.size = csiParamMax ∧ param.count ≤ csiParamMax)
    0 param.count.toNat
    (fun i param' hi hi' hP => setDefault_total hP.1 hP.2 hi (by omega) 0) ⟨hsize, hcount⟩
  exact ⟨.sgr, param', by rw [h]; rfl, by decide, hsize', hcount'⟩

theorem csiCommand_decoded (hsize : param.p.size = csiParamMax)
    (hcount : param.count ≤ csiParamMax) (height : Int) : Decoded (csiCommand height param) := by
  unfold csiCommand
  split
  case h_16 => exact sgr_decoded hsize hcount
  case h_23 => exact windowOp_decoded hsize hcount
  all_goals first
    | exact default1_decoded hsize hcount (by decide) _
    | exact default2_decoded hsize hcount (by decide) (by decide) (by decide) _ _
    | exact .ok hsize hcount (by decide)
    | (split <;> first
        | exact default1_decoded hsize hcount (by decide) _
        | exact .ok hsize hcount (by decide))

theorem csiPrivate_decoded (hsize : param.p.size = csiParamMax)
    (hcount : param.count ≤ csiParamMax) : Decoded (csiPrivate param) := by
  unfold csiPrivate
  split
  · exact default1_decoded hsize hcount (by decide) _
  · exact default1_decoded hsize hcount (by decide) _
  · exact .ok hsize hcount (by decide)

end

/-! ## What follows the decoding completes -/

namespace Screen

/-- The part of the screen that wraps around, in lines. -/
theorem Wf.wrapped_lines (h : s.Wf) :
    s.wrappedLines = s.topLine - s.maxScrollbackLines ∧ s.wrappedLines < s.height := by
  have ht := h.top_range
  have hT : s.totalHeight = s.maxScrollbackLines + s.height := rfl
  unfold wrappedLines
  exact ⟨rfl, by unfold topLine at ht; omega⟩

theorem copy_lines_total {dst src : Block ScreenChar} {rw d k n T T' : Int} (hrw : 0 < rw)
    (hdst : dst.size = T * rw) (hsrc : src.size = T' * rw) (hn : 0 < n) (hd : 0 ≤ d)
    (hd' : d + n ≤ T) (hk : 0 ≤ k) (hk' : k + n ≤ T') :
    ∃ b, (dst.copy (d * rw) src (k * rw) (n * rw) : Res _) = .ok b ∧ b.size = T * rw := by
  refine ⟨_, Block.copy_of_le _ _ (Int.mul_pos hn hrw) (addr_nonneg_line hk hrw) ?_
    (addr_nonneg_line hd hrw) ?_, hdst⟩
  · rw [hsrc, ← Int.add_mul]
    exact (line_le_iff hrw).mpr hk'
  · rw [hdst, ← Int.add_mul]
    exact (line_le_iff hrw).mpr hd'

theorem saveBuffer_total (h : s.Wf) : ∃ s', s.saveBuffer = .ok s' := by
  have hrw := h.realWidth_pos
  have ht := h.top_range
  have hh := h.height_pos
  have hmax := h.max_pos
  have hT : s.totalHeight = s.maxScrollbackLines + s.height := rfl
  obtain ⟨hn, hn'⟩ := h.wrapped_lines
  have htemp : (Block.alloc (s.realWidth * s.height) s.fresh).size = s.height * s.realWidth :=
    Int.mul_comm _ _
  simp only [saveBuffer]
  by_cases hw : s.wrappedLines ≤ 0
  · obtain ⟨b, hb, -⟩ := copy_lines_total (d := 0) (k := s.topLine) (n := s.height) hrw htemp
      h.buffer_size (by omega) (Int.le_refl 0) (by omega) ht.1 (by omega)
    rw [Int.zero_mul, Int.mul_comm s.height, ← h.top_aligned] at hb
    simp only [if_pos hw, hb, ok_bind]
    exact ⟨_, rfl⟩
  · obtain ⟨b, hb, hsize⟩ := copy_lines_total (d := 0) (k := s.topLine)
      (n := s.height - s.wrappedLines) hrw htemp h.buffer_size (by omega) (Int.le_refl 0)
      (by omega) ht.1 (by omega)
    obtain ⟨b', hb', -⟩ := copy_lines_total (d := s.height - s.wrappedLines) (k := 0)
      (n := s.wrappedLines) hrw hsize h.buffer_size (by omega) (by omega) (by omega)
      (Int.le_refl 0) (by omega)
    rw [Int.zero_mul, ← h.top_aligned] at hb
    rw [Int.zero_mul] at hb'
    simp only [if_neg hw, hb, hb', ok_bind]
    exact ⟨_, rfl⟩

theorem restoreBuffer_total (h : s.Wf) : ∃ s', s.restoreBuffer = .ok s' := by
  have hrw := h.realWidth_pos
  have ht := h.top_range
  have hh := h.height_pos
  have hmax := h.max_pos
  have hT : s.totalHeight = s.maxScrollbackLines + s.height := rfl
  obtain ⟨hn, hn'⟩ := h.wrapped_lines
  unfold restoreBuffer
  split
  · exact ⟨s, rfl⟩
  · rename_i temp htemp
    have hsize : temp.size = s.height * s.realWidth :=
      (h.temp temp htemp).trans (Int.mul_comm _ _)
    have hfinish : ∀ b : Block ScreenChar, b.size = s.totalHeight * s.realWidth →
        ∃ s', (do
          let s₁ ← setDirty { s with bufferLines := b }
          .ok { s₁ with tempBuffer := none } : Res Screen) = .ok s' := by
      intro b hb
      obtain ⟨s₁, h₁, -⟩ := setDirty_spec (s := { s with bufferLines := b })
        { h with buffer_size := hb }
      exact ⟨_, by rw [h₁]; rfl⟩
    simp only
    by_cases hw : s.wrappedLines ≤ 0
    · obtain ⟨b, hb, hbs⟩ := copy_lines_total (d := s.topLine) (k := 0) (n := s.height) hrw
        h.buffer_size hsize (by omega) ht.1 (by omega) (Int.le_refl 0) (by omega)
      rw [Int.zero_mul, Int.mul_comm s.height, ← h.top_aligned] at hb
      simp only [if_pos hw, hb, ok_bind]
      exact hfinish b hbs
    · obtain ⟨b, hb, hbs⟩ := copy_lines_total (d := s.topLine) (k := 0)
        (n := s.height - s.wrappedLines) hrw h.buffer_size hsize (by omega) ht.1 (by omega)
        (Int.le_refl 0) (by omega)
      obtain ⟨b', hb', hbs'⟩ := copy_lines_total (d := 0) (k := s.height - s.wrappedLines)
        (n := s.wrappedLines) hrw hbs hsize (by omega) (Int.le_refl 0) (by omega) (by omega)
        (by omega)
      rw [Int.zero_mul, ← h.top_aligned] at hb
      rw [Int.zero_mul] at hb'
      simp only [if_neg hw, hb, hb', ok_bind]
      exact hfinish b' hbs'

end Screen

namespace VT100

theorem setPrivateMode_total (h : v.Wf) (p : Int) (mode : Bool) :
    ∃ v', v.setPrivateMode p mode = .ok v' ∧ v.terminal.SameStream v'.terminal := by
  unfold setPrivateMode
  simp only
  split
  case h_6 =>
    obtain ⟨s, hs, -⟩ := Screen.setDirty_spec h.screen
    rw [hs]
    exact ⟨_, rfl, ⟨rfl, rfl, rfl, rfl⟩⟩
  case h_12 =>
    have hbuffer : ∃ s, (if mode then v.screen.saveBuffer else v.screen.restoreBuffer) = .ok s := by
      split
      · exact Screen.saveBuffer_total h.screen
      · exact Screen.restoreBuffer_total h.screen
    obtain ⟨s, hs⟩ := hbuffer
    rw [hs]
    exact ⟨_, rfl, ⟨rfl, rfl, rfl, rfl⟩⟩
  all_goals exact ⟨_, rfl, ⟨rfl, rfl, rfl, rfl⟩⟩

theorem setMode_total (h : v.Wf) (tok : VT100TCC) :
    ∃ v', v.setMode tok = .ok v' ∧ v.terminal.SameStream v'.terminal := by
  unfold setMode
  simp only
  split
  case h_1 => exact setPrivateMode_total h _ _
  case h_2 => exact setPrivateMode_total h _ _
  case h_3 => exact ⟨_, rfl, by split <;> exact ⟨rfl, rfl, rfl, rfl⟩⟩
  case h_4 => exact ⟨_, rfl, by split <;> exact ⟨rfl, rfl, rfl, rfl⟩⟩
  all_goals exact ⟨_, rfl, ⟨rfl, rfl, rfl, rfl⟩⟩

theorem setCharAttrFrom_total {csi : CSIParam} (hsize : csi.p.size = csiParamMax)
    {k : Nat} {i : Int} (hi : 0 ≤ i) (hk : i + k ≤ csiParamMax) (t : Terminal) :
    ∃ t', Terminal.setCharAttrFrom csi k i t = .ok t' ∧ t.SameStream t' := by
  have hload : ∀ n : Int, 0 ≤ n → n < csiParamMax →
      (csi.p.load n : Res Int) = .ok (csi.p.cell n) :=
    fun n h0 h1 => Block.load_of_lt h0 (by omega)
  induction k generalizing i t with
  | zero => exact ⟨t, rfl, .refl t⟩
  | succ k ih =>
      have hcolour : ∃ c : Bool, (if (csi.p.cell i = 38 ∨ csi.p.cell i = 48) ∧ csi.count = 3 ∧
          i = 0 then do
            let p1 ← csi.p.load 1
            .ok (decide (p1 = 5))
          else .ok false : Res Bool) = .ok c := by
        split
        · exact ⟨_, by rw [hload 1 (by decide) (by decide)]; rfl⟩
        · exact ⟨_, rfl⟩
      obtain ⟨c, hc⟩ := hcolour
      simp only [Terminal.setCharAttrFrom, hload i hi (by omega), ok_bind, hc,
        hload 2 (by decide) (by decide)]
      split
      · exact ⟨_, rfl, by split <;> exact ⟨rfl, rfl, rfl, rfl⟩⟩
      · obtain ⟨t', h', hs⟩ := ih (i := i + 1) (by omega) (by omega) (t.charAttr (csi.p.cell i))
        exact ⟨t', h', (Terminal.charAttr_sameStream _ t).trans hs⟩

theorem setCharAttr_total {tok : VT100TCC} (hsize : tok.csi.p.size = csiParamMax)
    (hcount : tok.csi.count ≤ csiParamMax) (v : VT100) :
    ∃ v', v.setCharAttr tok = .ok v' ∧ v.terminal.SameStream v'.terminal := by
  have hterm : ∃ t', v.terminal.setCharAttr tok = .ok t' ∧ v.terminal.SameStream t' := by
    unfold Terminal.setCharAttr
    split
    · split
      · exact ⟨_, rfl, ⟨rfl, rfl, rfl, rfl⟩⟩
      · have hmax : csiParamMax = 16 := rfl
        exact setCharAttrFrom_total hsize (Int.le_refl 0) (by omega) v.terminal
    · exact ⟨_, rfl, .refl _⟩
  obtain ⟨t', h', hs⟩ := hterm
  exact ⟨{ v with terminal := t' }, by simp only [setCharAttr, h', ok_bind], hs⟩

theorem getNextToken_control {b : UInt8} (bs : List UInt8) (hb : b ≤ 0x1f)
    (hp : v.terminal.pending = b :: bs) :
    v.getNextToken F = (do
      let (tok, rmlen, s) ← decodeControl v.terminal (b :: bs) v.screen
      let v ← setMode tok { v with screen := s }
      let v ← v.setCharAttr tok
      let v ← v.advance rmlen
      .ok (tok, v)) := by
  have htext : isAsciiText b = false := by
    have hlt : ¬0x20 ≤ b := by
      rw [UInt8.le_iff_toNat_le] at hb ⊢
      simp only [UInt8.reduceToNat] at hb ⊢
      omega
    simp [isAsciiText, hlt]
  simp only [getNextToken, hp, htext, Bool.false_eq_true, if_false, if_pos hb]

/-- `getNextToken` answers a token and passes over the `n` bytes of a sequence. -/
def TakesSequence (F : Foundation) (v : VT100) (n : Nat) : Prop :=
  ∃ tok v', v.getNextToken F = .ok (tok, v') ∧ tok.type ≠ .wait ∧
    v'.terminal.streamOffset = v.terminal.streamOffset + n

section

variable {pre : List UInt8} {params : List (List UInt8)} {final : UInt8} {rest : List UInt8}

/-- The scan of a sequence with up to 16 parameters. -/
theorem csiResult_few (hpre : IsPrefix pre) (hp : IsParams params) (hf : isFinal final = true)
    (hlen : params.length ≤ 16) (rest : List UInt8) :
    (csiResult (csiSequence pre params final ++ rest)).param.cmd = final.toNat ∧
      (csiResult (csiSequence pre params final ++ rest)).param.p.size = csiParamMax ∧
      (csiResult (csiSequence pre params final ++ rest)).param.count ≤ csiParamMax := by
  have hmax : csiParamMax = 16 := rfl
  obtain ⟨hdone, -⟩ := csiScan_few (csiStart_ready (csiSequence pre params final ++ rest))
    (Int.le_refl 0) (by omega) hp (by omega) hf rest
  rw [csiResult, csiPrefix_sequence hpre hp.no_prefix hf rest]
  simp only [CsiState.commit, hdone.num_eq, hdone.cmd_eq, hdone.size_eq]
  exact ⟨trivial, trivial, hdone.count_range.2⟩

/-- Such a sequence is scanned whole, and nothing is executed on the way. -/
theorem getCSIParam_few (hpre : IsPrefix pre) (hp : IsParams params) (hf : isFinal final = true)
    (hlen : params.length ≤ 16) (rest : List UInt8) (t : Terminal) (s : Screen) :
    getCSIParam t (csiSequence pre params final ++ rest) s =
      .ok ((csiSequence pre params final).length,
        (csiResult (csiSequence pre params final ++ rest)).param, s) := by
  have hmax : csiParamMax = 16 := rfl
  have hprefix := csiPrefix_sequence hpre hp.no_prefix hf rest
  obtain ⟨hdone, hcontrols⟩ := csiScan_few (csiStart_ready (csiSequence pre params final ++ rest))
    (Int.le_refl 0) (by omega) hp (by omega) hf rest
  have hstart : (csiStart (csiSequence pre params final ++ rest)).taken = 2 + pre.length := by
    rw [csiStart, CsiState.start, hprefix]
  have htaken : (csiResult (csiSequence pre params final ++ rest)).taken =
      (csiSequence pre params final).length := by
    rw [csiResult, CsiState.commit_taken, hprefix, hdone.taken_eq, hstart]
    simp [csiSequence]
    omega
  rw [getCSIParam_eq, embeddedControls, htaken, hprefix, hcontrols]
  rfl

theorem decodeCsi_few (hpre : IsPrefix pre) (hp : IsParams params) (hf : isFinal final = true)
    (hlen : params.length ≤ 16) (rest : List UInt8) (t : Terminal) (s : Screen) :
    ∃ tok, decodeCsi t (csiSequence pre params final ++ rest) s =
        .ok (tok, (csiSequence pre params final).length, s) ∧ tok.type ≠ .wait ∧
      tok.csi.p.size = csiParamMax ∧ tok.csi.count ≤ csiParamMax := by
  have hcsi := getCSIParam_few hpre hp hf hlen rest t s
  obtain ⟨hcmd, hsize, hcount⟩ := csiResult_few hpre hp hf hlen rest
  generalize (csiResult (csiSequence pre params final ++ rest)).param = param at *
  have hrange : 0 < param.cmd ∧ param.cmd ≠ 0xff := by
    rw [hcmd]
    simp only [isFinal, isAlpha, Bool.or_eq_true, Bool.and_eq_true, decide_eq_true_eq,
      UInt8.le_iff_toNat_le, UInt8.reduceToNat, ← UInt8.toNat_inj] at hf
    omega
  have hpos : 0 < (csiSequence pre params final).length := by
    simp [csiSequence]
  have hdecoded : Decoded (if param.question then csiPrivate param
      else csiCommand s.height param) := by
    split
    · exact csiPrivate_decoded hsize hcount
    · exact csiCommand_decoded hsize hcount s.height
  obtain ⟨type, param', hok, hwait, hsize', hcount'⟩ := hdecoded
  refine ⟨{ type := type, csi := param' }, ?_, hwait, hsize', hcount'⟩
  simp only [decodeCsi, hcsi, ok_bind, if_neg hrange.2, if_pos (And.intro hpos hrange.1), hok]

theorem decodeCsi_many (hpre : IsPrefix pre) (hp : IsParams params) (hf : isFinal final = true)
    (hlen : 16 < params.length) (t : Terminal) (s : Screen) :
    decodeCsi t (csiSequence pre params final ++ rest) s = .ok ({ type := .wait }, 0, s) := by
  have hmax : csiParamMax = 16 := rfl
  have hprefix := csiPrefix_sequence hpre hp.no_prefix hf rest
  obtain ⟨hnum, hcmd, hcontrols⟩ :=
    csiScan_many (csiStart_ready (csiSequence pre params final ++ rest)) (by omega) hp
      (by omega) (final :: rest)
  have hcmd' : (csiResult (csiSequence pre params final ++ rest)).param.cmd = 0 := by
    rw [csiResult, hprefix]
    simp only [CsiState.commit, hnum, hcmd]
  have hnone : embeddedControls (csiSequence pre params final ++ rest) = [] := by
    rw [embeddedControls, hprefix, hcontrols]
  rw [decodeCsi_incomplete hcmd', hnone]
  rfl

/-- `getNextToken` on a control sequence. -/
theorem getNextToken_sequence
    (hpending : v.terminal.pending = csiSequence pre params final ++ rest) :
    v.getNextToken F = (do
      let (tok, rmlen, s) ← decodeCsi v.terminal (csiSequence pre params final ++ rest) v.screen
      let v ← setMode tok { v with screen := s }
      let v ← v.setCharAttr tok
      let v ← v.advance rmlen
      .ok (tok, v)) :=
  getNextToken_control (b := escByte) (0x5b :: (pre ++ (joinParams params ++ [final])) ++ rest)
    (by decide) hpending

/-- With more than 16 parameters the answer is `VT100_WAIT`, and nothing happens. -/
theorem getNextToken_many (hpre : IsPrefix pre) (hp : IsParams params)
    (hf : isFinal final = true) (hlen : 16 < params.length)
    (hpending : v.terminal.pending = csiSequence pre params final ++ rest) :
    v.getNextToken F = .ok ({ type := .wait }, v) := by
  rw [getNextToken_sequence hpending, decodeCsi_many hpre hp hf hlen]
  rfl

/-- A complete control sequence is taken from the stream exactly when it has at
most 16 parameters. Every reachable object is well formed. -/
theorem getNextToken_csi_iff (h : v.Wf) (hpre : IsPrefix pre) (hp : IsParams params)
    (hf : isFinal final = true)
    (hpending : v.terminal.pending = csiSequence pre params final ++ rest) :
    TakesSequence F v (csiSequence pre params final).length ↔ params.length ≤ 16 := by
  by_cases hlen : params.length ≤ 16
  · obtain ⟨tok, hok, hwait, hsize, hcount⟩ :=
      decodeCsi_few hpre hp hf hlen rest v.terminal v.screen
    obtain ⟨v₁, h₁, hs₁⟩ := setMode_total h tok
    obtain ⟨v₂, h₂, hs₂⟩ := setCharAttr_total hsize hcount v₁
    have hwf₂ := setCharAttr_wf (setMode_wf h h₁) h₂
    have hs := hs₁.trans hs₂
    have h₃ := advance_eq hwf₂.terminal (n := (csiSequence pre params final).length)
      (by rw [hs.pending_eq, hpending]; simp)
    simp only [hlen, iff_true]
    refine ⟨tok, { v₂ with
      terminal := v₂.terminal.skip (csiSequence pre params final).length }, ?_, hwait, ?_⟩
    · simp only [getNextToken_sequence hpending, hok, ok_bind, h₁, h₂, h₃]
    · simp only [Terminal.skip, hs.offset]
  · simp only [hlen, iff_false]
    rintro ⟨tok, v', hok, hwait, -⟩
    rw [getNextToken_many hpre hp hf (by omega) hpending] at hok
    cases hok
    exact hwait rfl

end

/-- `ESC [ 1 ; 2 H` on a new object: all six bytes are taken. -/
theorem init_takes_cup : ∃ v v', VT100.init ⟨0, 0, 0⟩ = .ok v ∧
    v.putStreamData (csiSequence [] [[0x31], [0x32]] 0x48) = .ok v' ∧
    TakesSequence Foundation.latin1 v' 6 := by
  obtain ⟨v, v', hv, hput, hwf, hpending, -, -⟩ :=
    init_put ⟨0, 0, 0⟩ (csiSequence [] [[0x31], [0x32]] 0x48)
  rw [← List.append_nil (csiSequence _ _ _)] at hpending
  exact ⟨v, v', hv, hput, (getNextToken_csi_iff hwf (Or.inl rfl)
    (by simp [IsParams, isDigit]) (by decide) hpending).mpr (by decide)⟩

/-- Seventeen blank parameters and the final byte `m`: the terminal goes on waiting. -/
theorem init_waits_on_sgr : ∃ v v', VT100.init ⟨0, 0, 0⟩ = .ok v ∧
    v.putStreamData (csiSequence [] (List.replicate 17 []) 0x6d) = .ok v' ∧
    (∃ v'', v'.getNextToken Foundation.latin1 = .ok ({ type := .wait }, v'')) ∧
    ¬TakesSequence Foundation.latin1 v' 19 := by
  obtain ⟨v, v', hv, hput, hwf, hpending, -, -⟩ :=
    init_put ⟨0, 0, 0⟩ (csiSequence [] (List.replicate 17 []) 0x6d)
  rw [← List.append_nil (csiSequence _ _ _)] at hpending
  have hwait := getNextToken_many (F := Foundation.latin1) (Or.inl rfl)
    (by simp [IsParams]) (by decide) (by decide) hpending
  refine ⟨v, v', hv, hput, ⟨v', hwait⟩, ?_⟩
  rintro ⟨tok, v'', hok, hne, -⟩
  rw [hwait] at hok
  cases hok
  exact hne rfl

end VT100

end MobileTerminal
