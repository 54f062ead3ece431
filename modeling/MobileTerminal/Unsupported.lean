import MobileTerminal.Fetch
import MobileTerminal.CsiParams

/-!
# Unsupported control sequences

A control sequence may end with a byte that is neither a letter nor `@`. The
scan does not know such a byte: it sets the command to `0xff` and stops in front
of it. So `getNextToken` passes over the sequence up to that byte, and the byte
is the beginning of the next token, which is text (`unsupported_leaves_text`).

A byte that the scan does know but `decode_csi` does not, is taken with the
sequence. The difference is made in one place, the last branch of the scan, so
the proof follows the scan through up to 16 parameters (`csiScan_params`, which
holds for whatever byte comes next) and looks at the one step after them.

This is never what a terminal should do, for no such sequence and no state: the
byte that was meant to end the sequence is always read as text.
-/

namespace MobileTerminal

variable {F : Foundation} {t : Terminal} {s : Screen} {v : VT100}

/-- A byte that ends a control sequence and that the scan does not know. -/
def isUnsupported (b : UInt8) : Bool := 0x40 ≤ b && b ≤ 0x7e && !isFinal b

theorem isUnsupported_iff (b : UInt8) : isUnsupported b = true ↔
    91 ≤ b.toNat ∧ b.toNat ≤ 96 ∨ 123 ≤ b.toNat ∧ b.toNat ≤ 126 := by
  simp only [isUnsupported, isFinal, isAlpha, Bool.and_eq_true, Bool.not_eq_true',
    Bool.or_eq_false_iff, Bool.and_eq_false_iff, decide_eq_true_eq, decide_eq_false_iff_not,
    UInt8.le_iff_toNat_le, UInt8.reduceToNat, ← UInt8.toNat_inj]
  omega

theorem CsiState.step_unsupported {st : CsiState} (hs : st.stopped = false) {b : UInt8}
    (hb : isUnsupported b = true) :
    (st.step b).stopped = true ∧ (st.step b).taken = st.taken ∧ (st.step b).num = none ∧
      (st.step b).param.cmd = 0xff := by
  rw [isUnsupported_iff] at hb
  have hdigit : isDigit b = false := by
    simp only [isDigit, Bool.and_eq_false_iff, decide_eq_false_iff_not, UInt8.le_iff_toNat_le,
      UInt8.reduceToNat]
    omega
  have hsemi : b ≠ 0x3b := by
    rintro rfl
    simp at hb
  have halpha : (isAlpha b || b = 0x40) = false := by
    simp only [isAlpha, Bool.or_eq_false_iff, Bool.and_eq_false_iff, decide_eq_false_iff_not,
      UInt8.le_iff_toNat_le, UInt8.reduceToNat, ← UInt8.toNat_inj]
    omega
  have hquote : (b = 0x27 || b = 0x26) = false := by
    simp only [Bool.or_eq_false_iff, decide_eq_false_iff_not, ← UInt8.toNat_inj, UInt8.reduceToNat]
    omega
  have hcontrol : isCsiControl b = false := by
    simp only [isCsiControl, csiControlCodes, List.contains_cons, List.contains_nil,
      Bool.or_eq_false_iff, beq_eq_false_iff_ne, and_true]
    omega
  have hc : st.commit.num = none := by
    cases hn : st.num <;> simp [CsiState.commit, hn]
  simp only [CsiState.step, hs, hdigit, CsiState.punctuate, hsemi, halpha, hquote, hcontrol,
    Bool.false_eq_true, if_false, hc, CsiState.commit_taken, and_self]

/-- The scan passes over up to 16 parameters and is still running: whatever letter follows, it
is taken for the command. -/
theorem csiScan_params {st : CsiState} (h : st.Ready 0) {params : List (List UInt8)}
    (hp : IsParams params) (hlen : params.length ≤ 16) :
    (csiScan st (joinParams params)).stopped = false ∧
      (csiScan st (joinParams params)).taken = st.taken + (joinParams params).length ∧
      csiControls st (joinParams params) = [] := by
  have hmax : csiParamMax = 16 := rfl
  have hscan := fun {final : UInt8} (hf : isFinal final = true) =>
    csiScan_few h (Int.le_refl 0) (by omega) hp (by omega) hf []
  obtain ⟨hdone, hcontrols⟩ := hscan (show isFinal 0x41 = true from rfl)
  obtain ⟨hdone', -⟩ := hscan (show isFinal 0x42 = true from rfl)
  rw [csiControls_append] at hcontrols
  rw [csiScan_append] at hdone hdone'
  have hrun : (csiScan st (joinParams params)).stopped = false := by
    by_contra hstop
    have hstop : (csiScan st (joinParams params)).stopped = true := by simpa using hstop
    rw [csiScan_stopped hstop] at hdone hdone'
    have hcmd := hdone.cmd_eq.symm.trans hdone'.cmd_eq
    exact absurd hcmd (by decide)
  have htaken := hdone.taken_eq
  rw [show csiScan (csiScan st (joinParams params)) [0x41] =
    (csiScan st (joinParams params)).step 0x41 from rfl,
    CsiState.step_final _ hrun (show isFinal 0x41 = true from rfl)] at htaken
  exact ⟨hrun, by simpa using htaken, (List.append_eq_nil_iff.mp hcontrols).1⟩

section

variable {pre : List UInt8} {params : List (List UInt8)} {final : UInt8}

theorem decodeCsi_unsupported (hpre : IsPrefix pre) (hp : IsParams params)
    (hlen : params.length ≤ 16) (hfinal : isUnsupported final = true) (rest : List UInt8)
    (t : Terminal) (s : Screen) :
    decodeCsi t (csiSequence pre params final ++ rest) s =
      .ok ({ type := .unknownChar }, (csiSequence pre params final).length - 1, s) := by
  have hnot : final ≠ 0x3f ∧ final ≠ 0x3e := by
    constructor <;> rintro rfl <;> cases hfinal
  have hprefix := csiPrefix_body hpre hp.no_prefix hnot rest
  have hstart : (csiStart (csiSequence pre params final ++ rest)).taken = 2 + pre.length := by
    rw [csiStart, CsiState.start, hprefix]
  obtain ⟨hrun, htaken, hcontrols⟩ :=
    csiScan_params (csiStart_ready (csiSequence pre params final ++ rest)) hp hlen
  obtain ⟨hstop, htaken', hnum, hcmd⟩ := CsiState.step_unsupported hrun hfinal
  have hresult : csiResult (csiSequence pre params final ++ rest) =
      (csiScan (csiStart (csiSequence pre params final ++ rest)) (joinParams params)).step
        final := by
    rw [csiResult, hprefix, csiScan_append, ← List.singleton_append, csiScan_append]
    rw [show csiScan (csiScan (csiStart (csiSequence pre params final ++ rest))
      (joinParams params)) [final] = (csiScan (csiStart (csiSequence pre params final ++ rest))
      (joinParams params)).step final from rfl, csiScan_stopped hstop, CsiState.commit, hnum]
  have hlength : (csiResult (csiSequence pre params final ++ rest)).taken =
      (csiSequence pre params final).length - 1 := by
    rw [hresult, htaken', htaken, hstart]
    simp [csiSequence]
    omega
  have hnone : embeddedControls (csiSequence pre params final ++ rest) = [] := by
    have hnot : isCsiControl final = false := by
      rw [isUnsupported_iff] at hfinal
      simp only [isCsiControl, csiControlCodes, List.contains_cons, List.contains_nil,
        Bool.or_eq_false_iff, beq_eq_false_iff_ne, and_true]
      omega
    rw [embeddedControls, hprefix, csiControls_append, hcontrols, List.nil_append]
    simp [csiControls, hnot, csiControls_stopped hstop]
  rw [decodeCsi, getCSIParam_eq, hnone, hlength, hresult]
  simp only [List.foldlM_nil, pure_bind, ok_bind]
  rw [if_pos hcmd]

end

namespace VT100

variable {pre : List UInt8} {params : List (List UInt8)} {final : UInt8} {rest : List UInt8}

/-- `getNextToken` passes over exactly the bytes before `rest`. -/
def Consumes (F : Foundation) (v : VT100) (rest : List UInt8) : Prop :=
  ∃ tok v', v.getNextToken F = .ok (tok, v') ∧ v'.terminal.pending = rest

/-- The next token but one is text that begins with `b`. -/
def LeavesText (F : Foundation) (v : VT100) (b : UInt8) : Prop :=
  ∃ tok v' text v'', v.getNextToken F = .ok (tok, v') ∧ v'.getNextToken F = .ok (text, v'') ∧
    text.type = .asciiString ∧ text.string.head? = some b.toUInt16

theorem getNextToken_unsupported (h : v.Wf) (hpre : IsPrefix pre) (hp : IsParams params)
    (hlen : params.length ≤ 16) (hfinal : isUnsupported final = true)
    (hpending : v.terminal.pending = csiSequence pre params final ++ rest) :
    ∃ v', v.getNextToken F = .ok ({ type := .unknownChar }, v') ∧
      v'.terminal.pending = final :: rest := by
  have hle : (csiSequence pre params final).length - 1 ≤ v.terminal.pending.length := by
    rw [hpending, List.length_append]
    omega
  refine ⟨{ v with terminal := v.terminal.skip ((csiSequence pre params final).length - 1) }, ?_, ?_⟩
  · have hmode : setMode { type := .unknownChar } v = .ok v := rfl
    have hattr : setCharAttr { type := .unknownChar } v = .ok v := rfl
    rw [getNextToken_sequence hpending, decodeCsi_unsupported hpre hp hlen hfinal, ok_bind]
    simp only [hmode, hattr, ok_bind, advance_eq h.terminal hle]
  · have hsplit : csiSequence pre params final ++ rest =
        (escByte :: 0x5b :: (pre ++ joinParams params)) ++ final :: rest := by
      simp [csiSequence]
    have hlength : (csiSequence pre params final).length - 1 =
        (escByte :: 0x5b :: (pre ++ joinParams params)).length := by
      simp [csiSequence]
      omega
    rw [Terminal.skip_pending h.terminal hle, hpending, hsplit, hlength, List.drop_left]

/-- The final byte of an unsupported sequence is never consumed with it, whatever the state,
the prefix and the parameters are: the call for the sequence stops in front of it, and the
next one takes it for the beginning of a text. -/
theorem unsupported_leaves_text (h : v.Wf) (hpre : IsPrefix pre) (hp : IsParams params)
    (hlen : params.length ≤ 16) (hfinal : isUnsupported final = true)
    (hpending : v.terminal.pending = csiSequence pre params final ++ rest) :
    ¬Consumes F v rest ∧ (F.AsciiExact → LeavesText F v final) := by
  obtain ⟨v', hnext, hpending'⟩ :=
    getNextToken_unsupported (F := F) h hpre hp hlen hfinal hpending
  refine ⟨?_, fun hF => ?_⟩
  · rintro ⟨tok, w, hok, hrest⟩
    obtain ⟨-, rfl⟩ := Prod.mk.inj (Except.ok.inj (hnext.symm.trans hok))
    rw [hpending'] at hrest
    exact List.cons_ne_self final rest hrest
  · have hwf' := getNextToken_wf h hnext
    have htext : isAsciiText final = true := by
      rw [isUnsupported_iff] at hfinal
      simp only [isAsciiText, Bool.and_eq_true, decide_eq_true_eq, UInt8.le_iff_toNat_le,
        UInt8.reduceToNat]
      omega
    have hascii : ∀ b ∈ (final :: rest).takeWhile isAsciiText, 0x20 ≤ b ∧ b ≤ 0x7f := by
      intro b hb
      simpa [isAsciiText] using List.mem_takeWhile_imp hb
    have hpos : (final :: rest).takeWhile isAsciiText = final :: rest.takeWhile isAsciiText :=
      List.takeWhile_cons_of_pos htext
    have hdecode := hF _ hascii
    rw [hpos] at hdecode
    have hle : (decodeAsciiString F (final :: rest)).2 ≤ v'.terminal.pending.length := by
      rw [hpending']
      exact decodeAsciiString_length F (final :: rest)
    obtain ⟨w, hw⟩ : ∃ w, v'.advance (decodeAsciiString F (final :: rest)).2 = .ok w :=
      ⟨_, advance_eq hwf'.terminal hle⟩
    refine ⟨_, v', (decodeAsciiString F (final :: rest)).1, w, hnext, ?_, ?_, ?_⟩
    · simp only [getNextToken, hpending', htext, if_true, hw, ok_bind]
    · simp [decodeAsciiString, hdecode, hpos]
    · simp [decodeAsciiString, hdecode, hpos]

/-- `ESC [ 1 ~` and `A` are waiting on a new object. -/
theorem init_unsupported : ∃ v v', VT100.init ⟨0, 0, 0⟩ = .ok v ∧
    v.putStreamData (csiSequence [] [[0x31]] 0x7e ++ [0x41]) = .ok v' ∧
    ¬Consumes Foundation.latin1 v' [0x41] ∧ LeavesText Foundation.latin1 v' 0x7e := by
  obtain ⟨v, v', hv, hput, hwf, hpending, -⟩ :=
    init_put ⟨0, 0, 0⟩ (csiSequence [] [[0x31]] 0x7e ++ [0x41])
  have hp : IsParams [[0x31]] := by simp [IsParams, isDigit]
  obtain ⟨hnot, htext⟩ := unsupported_leaves_text (F := Foundation.latin1) hwf (Or.inl rfl) hp
    (by simp) (by decide) hpending
  exact ⟨v, v', hv, hput, hnot, htext Foundation.latin1_asciiExact⟩

/-- `ESC [ ? 5 ; ~` on a new object: the first call leaves the tilde. -/
theorem init_tilde_left : ∃ v v' w, VT100.init ⟨0, 0, 0⟩ = .ok v ∧
    v.putStreamData (csiSequence [0x3f] [[0x35], []] 0x7e) = .ok v' ∧
    v'.getNextToken Foundation.latin1 = .ok ({ type := .unknownChar }, w) ∧
    w.terminal.pending = [0x7e] := by
  obtain ⟨v, v', hv, hput, hwf, hpending, -⟩ :=
    init_put ⟨0, 0, 0⟩ (csiSequence [0x3f] [[0x35], []] 0x7e)
  have hp : IsParams [[0x35], []] := by simp [IsParams, isDigit]
  rw [← List.append_nil (csiSequence [0x3f] [[0x35], []] 0x7e)] at hpending
  obtain ⟨w, hnext, hleft⟩ := getNextToken_unsupported (F := Foundation.latin1) hwf
    (Or.inr (Or.inl rfl)) hp (by simp) (by decide) hpending
  exact ⟨v, v', w, hv, hput, hnext, hleft⟩

end VT100

end MobileTerminal
