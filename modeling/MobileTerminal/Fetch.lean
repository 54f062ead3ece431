import MobileTerminal.Margins
import MobileTerminal.Wait

/-!
# How many bytes a token takes

`getNextToken` passes over the bytes a decoder claims. Two questions about that
number: is it positive, so that the token loop ends, and is it at most the
number of bytes that have arrived, so that the assertion on it holds?

The first is yes for every decoder that does not ask to wait, and the token loop
ends because of it (`tokenLoop_ends`): the bytes between `streamOffset` and the
end of the stream are at least as many as the rounds that are left. The fuel of
the model's loop is chosen by this count, so the loop of the model is the loop
of the code.

The second fails in one place. After `'` and `&` the scanner of control
sequences takes one byte more without looking whether it is there.
`EndsInLocator` says of a list of bytes that the scan reaches its end just
behind such a byte; it is the only way to look past the end (`csiReads_iff`),
and so exactly the sequences cut off there claim a byte that is still to come
(`claims_pending_iff`).

All the lemmas on lengths have one shape: the bytes taken and those left over
are as many as there were. The decoders are therefore treated one by one, in the
order in which the code calls them.
-/

namespace MobileTerminal

/-! ## Lengths of the decoders -/

theorem decodeAsciiString_length (F : Foundation) (datap : List UInt8) :
    (decodeAsciiString F datap).2 ≤ datap.length := by
  unfold decodeAsciiString
  simp only
  split
  · exact (List.takeWhile_prefix _).length_le
  · exact Nat.zero_le _

/-- A round of a string decoder that finds nothing ahead stops. -/
theorem stringStep_nil (encoding : Encoding) (first : UInt8) :
    stringStep encoding first [] = .stop := by
  unfold stringStep
  repeat' split
  all_goals rfl

/-- The bytes passed and those ahead are as many as before. -/
theorem stringLoop_length {step : UInt8 → List UInt8 → StringStep}
    (hnil : ∀ first, step first [] = .stop) (fuel : Nat) (done ahead : List UInt8) :
    (stringLoop step fuel done ahead).1.length + (stringLoop step fuel done ahead).2.length =
      done.length + ahead.length := by
  induction fuel generalizing done ahead with
  | zero => rfl
  | succ fuel ih =>
      simp only [stringLoop]
      split
      · rfl
      · rw [ih, List.length_append, List.length_take, List.length_drop]
        omega
      · rename_i hunknown
        have hne : ahead ≠ [] := by
          rintro rfl
          rw [hnil] at hunknown
          cases hunknown
        have hpos := List.length_pos_iff.mpr hne
        rw [ih, List.length_append, List.length_drop, List.length_singleton]
        omega

theorem replaceUnknown_length (F : Foundation) (encoding : Encoding) (k : Nat)
    (bytes : List UInt8) : (replaceUnknown F encoding k bytes).1.length = bytes.length := by
  induction k generalizing bytes with
  | zero => rfl
  | succ k ih =>
      simp only [replaceUnknown]
      split
      · exact List.length_set
      · exact (ih _).trans List.length_set

theorem decodeString_length (F : Foundation) (datap : List UInt8) (encoding : Encoding) :
    (decodeString F datap encoding).2.1 ≤ datap.length := by
  have hlen := stringLoop_length (stringStep_nil encoding) datap.length [] datap
  simp only [List.length_nil, Nat.zero_add] at hlen
  unfold decodeString
  simp only
  split
  · exact Nat.zero_le _
  · split
    · simp only
      omega
    · simp only [replaceUnknown_length]
      omega

theorem decodeString_bytes_length (F : Foundation) (datap : List UInt8) (encoding : Encoding) :
    (decodeString F datap encoding).2.2.length = datap.length := by
  have hlen := stringLoop_length (stringStep_nil encoding) datap.length [] datap
  rw [List.length_nil, Nat.zero_add] at hlen
  unfold decodeString
  simp only
  split
  · rfl
  · split
    · rw [List.length_append]
      exact hlen
    · rw [List.length_append, replaceUnknown_length]
      exact hlen

/-! ## The scanner of control sequences

How many bytes the scan looks at is a function of the bytes alone (`csiReads`):
the screen that it executes controls on does not decide where it stops. -/

/-- The two bytes after which the scanner takes one more: `'` and `&`, which introduce the
sequences of locators. -/
def isLocator (b : UInt8) : Bool := b = 0x27 || b = 0x26

/-- The bytes that the scan looks at, from a state on. -/
def csiReads : CsiState → List UInt8 → Nat
  | _, [] => 0
  | st, b :: bs =>
      if st.stopped then 0 else if isLocator b then 2 else 1 + csiReads (st.step b) bs

/-- The scan of `bytes` is still going on when it comes to a last byte that is a
locator introducer. -/
def EndsInLocator (st : CsiState) (bytes : List UInt8) : Prop :=
  ∃ body b, bytes = body ++ [b] ∧ isLocator b = true ∧ (csiScan st body).stopped = false

/-- A control sequence cut off right after `'` or `&`. -/
def CutLocator (datap : List UInt8) : Prop :=
  isCSI datap = true ∧ EndsInLocator (csiStart datap) (csiPrefix datap).2.1

theorem CsiState.step_stopped {st : CsiState} (h : st.stopped = true) (b : UInt8) :
    st.step b = st := by
  simp [CsiState.step, h]

theorem locator_cases {b : UInt8} (h : isLocator b = true) : b = 0x27 ∨ b = 0x26 := by
  simpa [isLocator] using h

theorem CsiState.step_locator {st : CsiState} (hs : st.stopped = false) {b : UInt8}
    (hb : isLocator b = true) :
    (st.step b).stopped = true ∧ (st.step b).taken = st.taken + 2 := by
  have hstep : ∀ c : UInt8, isDigit c = false → st.step c = st.commit.punctuate c :=
    fun c hc => by simp [CsiState.step, hs, hc]
  rcases locator_cases hb with rfl | rfl
  · rw [hstep _ (by decide)]
    exact ⟨rfl, by simp [CsiState.punctuate, isAlpha]⟩
  · rw [hstep _ (by decide)]
    exact ⟨rfl, by simp [CsiState.punctuate, isAlpha]⟩

/-- A step after which the scan goes on takes one byte. -/
theorem CsiState.step_running {st : CsiState} {b : UInt8} (h : (st.step b).stopped = false) :
    st.stopped = false ∧ (st.step b).taken = st.taken + 1 := by
  unfold CsiState.step at h ⊢
  split at h
  · rename_i hs
    rw [hs] at h
    cases h
  · rename_i hs
    rw [if_neg hs]
    refine ⟨by simpa using hs, ?_⟩
    split at h
    · rename_i hd
      rw [if_pos hd]
    · rename_i hd
      rw [if_neg hd]
      unfold CsiState.punctuate at h ⊢
      split at h
      · rename_i hsemi
        rw [if_pos hsemi]
        simp
      · rename_i hsemi
        rw [if_neg hsemi]
        split at h
        · cases h
        · rename_i halpha
          rw [if_neg halpha]
          split at h
          · cases h
          · rename_i hquote
            rw [if_neg hquote]
            split at h
            · rename_i hcontrol
              rw [if_pos hcontrol]
              simp
            · cases h

theorem csiScan_running {st : CsiState} {bytes : List UInt8}
    (h : (csiScan st bytes).stopped = false) :
    (csiScan st bytes).taken = st.taken + bytes.length := by
  induction bytes generalizing st with
  | nil => rfl
  | cons b bs ih =>
      have hrest : (csiScan (st.step b) bs).taken = (st.step b).taken + bs.length := ih h
      have hstep : (st.step b).stopped = false := by
        by_contra hs
        rw [Bool.not_eq_false] at hs
        have hscan : csiScan st (b :: bs) = csiScan (st.step b) bs := rfl
        rw [hscan, csiScan_stopped hs, hs] at h
        cases h
      rw [show csiScan st (b :: bs) = csiScan (st.step b) bs from rfl, hrest,
        (CsiState.step_running hstep).2, List.length_cons]
      omega

/-- The scan takes at most one byte more than there are. -/
theorem csiScan_taken_bound (st : CsiState) (bytes : List UInt8) :
    (csiScan st bytes).taken ≤ st.taken + bytes.length + 1 := by
  induction bytes generalizing st with
  | nil => exact Nat.le_succ _
  | cons b bs ih =>
      rw [show csiScan st (b :: bs) = csiScan (st.step b) bs from rfl, List.length_cons]
      have hrest := ih (st.step b)
      rcases (st.step_taken b).2 with hone | ⟨-, -, hstop, htwo⟩
      · omega
      · rw [csiScan_stopped hstop, htwo]
        omega

theorem csiScan_taken_iff (st : CsiState) (bytes : List UInt8) :
    (csiScan st bytes).taken ≤ st.taken + bytes.length ↔ ¬EndsInLocator st bytes := by
  constructor
  · rintro hle ⟨body, b, rfl, hb, hrun⟩
    have htaken := csiScan_running hrun
    have hlast := (CsiState.step_locator hrun hb).2
    rw [csiScan_append, List.length_append, List.length_singleton,
      show csiScan (csiScan st body) [b] = (csiScan st body).step b from rfl] at hle
    omega
  · intro hnot
    rcases List.eq_nil_or_concat bytes with rfl | ⟨body, b, rfl⟩
    · exact Nat.le_refl _
    · rw [List.concat_eq_append] at hnot ⊢
      rw [csiScan_append, List.length_append, List.length_singleton,
        show csiScan (csiScan st body) [b] = (csiScan st body).step b from rfl]
      cases hrun : (csiScan st body).stopped with
      | true =>
          have hbound := csiScan_taken_bound st body
          rw [CsiState.step_stopped hrun]
          omega
      | false =>
          have htaken := csiScan_running hrun
          rcases ((csiScan st body).step_taken b).2 with hone | ⟨hb, -⟩
          · omega
          · exact absurd ⟨body, b, rfl, by simpa [isLocator] using hb, hrun⟩ hnot

theorem endsInLocator_cons {st : CsiState} {b : UInt8} {bs : List UInt8} :
    EndsInLocator st (b :: bs) ↔
      st.stopped = false ∧ isLocator b = true ∧ bs = [] ∨ EndsInLocator (st.step b) bs := by
  constructor
  · rintro ⟨body, c, hbytes, hc, hrun⟩
    cases body with
    | nil =>
        cases hbytes
        exact Or.inl ⟨hrun, hc, rfl⟩
    | cons b' body =>
        cases hbytes
        exact Or.inr ⟨body, c, rfl, hc, hrun⟩
  · rintro (⟨hrun, hb, rfl⟩ | ⟨body, c, rfl, hc, hrun⟩)
    · exact ⟨[], b, rfl, hb, hrun⟩
    · exact ⟨b :: body, c, rfl, hc, hrun⟩

theorem endsInLocator_stopped {st : CsiState} (h : st.stopped = true) (bytes : List UInt8) :
    ¬EndsInLocator st bytes := by
  rintro ⟨body, c, -, -, hrun⟩
  rw [csiScan_stopped h, h] at hrun
  cases hrun

theorem csiReads_iff (st : CsiState) (bytes : List UInt8) :
    csiReads st bytes ≤ bytes.length ↔ ¬EndsInLocator st bytes := by
  induction bytes generalizing st with
  | nil =>
      refine ⟨fun _ => ?_, fun _ => Nat.le_refl _⟩
      rintro ⟨body, c, hbytes, -⟩
      cases body <;> cases hbytes
  | cons b bs ih =>
      cases hs : st.stopped with
      | true => simp [csiReads, hs, endsInLocator_stopped hs]
      | false =>
          rw [endsInLocator_cons, csiReads, hs]
          by_cases hb : isLocator b = true
          · have hstop := endsInLocator_stopped (CsiState.step_locator hs hb).1 bs
            cases bs with
            | nil => simp [hb]
            | cons c cs => simp [hb, hstop]
          · have hrest := ih (st.step b)
            simp only [hb, Bool.false_eq_true, if_false, List.length_cons, false_and, and_false,
              false_or]
            rw [← hrest]
            omega

/-- The number of bytes `getCSIParam` looks at. -/
def csiBytesRead (datap : List UInt8) : Nat :=
  (csiPrefix datap).2.2 + csiReads (csiStart datap) (csiPrefix datap).2.1

theorem csiPrefix_length {datap : List UInt8} (h : isCSI datap = true) :
    (csiPrefix datap).2.2 + (csiPrefix datap).2.1.length = datap.length := by
  match datap, h with
  | c0 :: c1 :: rest, _ =>
    simp only [csiPrefix, List.drop_succ_cons, List.drop_zero]
    split <;> simp only [List.length_cons] <;> omega

theorem csiResult_taken_iff {datap : List UInt8} (h : isCSI datap = true) :
    (csiResult datap).taken ≤ datap.length ↔ ¬CutLocator datap := by
  have hlen := csiPrefix_length h
  have hiff := csiScan_taken_iff (csiStart datap) (csiPrefix datap).2.1
  have hstart : (csiStart datap).taken = (csiPrefix datap).2.2 := rfl
  rw [hstart, hlen] at hiff
  rw [csiResult, CsiState.commit_taken, hiff]
  simp [CutLocator, h]

theorem csiBytesRead_iff {datap : List UInt8} (h : isCSI datap = true) :
    csiBytesRead datap ≤ datap.length ↔ ¬CutLocator datap := by
  have hlen := csiPrefix_length h
  have hiff := csiReads_iff (csiStart datap) (csiPrefix datap).2.1
  simp only [CutLocator, h, true_and]
  rw [← hiff, csiBytesRead]
  omega

/-! ## Control characters -/

theorem decodeOther_length (c1 : UInt8) (c2 : Option UInt8) :
    (decodeOther c1 c2).2 ≤ 2 + c2.toList.length := by
  have hthree : ∀ type, (threeByte type c2).2 ≤ 2 + c2.toList.length := by
    intro type
    cases c2 <;> simp [threeByte]
  unfold decodeOther
  split
  all_goals first
    | exact hthree _
    | exact Nat.le_add_right 2 _

theorem decodeCsi_length {t : Terminal} {datap : List UInt8} {s s' : Screen} {tok : VT100TCC}
    {n : Nat} (hok : decodeCsi t datap s = .ok (tok, n, s')) :
    n = (csiResult datap).taken ∧ tok.type ≠ .wait ∨ n = 0 ∧ tok.type = .wait := by
  by_cases hwait : tok.type = .wait
  · have hcmd := decodeCsi_wait hok hwait
    rw [decodeCsi_incomplete hcmd] at hok
    obtain ⟨s₁, -, hok⟩ := bind_eq_ok.mp hok
    cases hok
    exact Or.inr ⟨rfl, rfl⟩
  · refine Or.inl ⟨?_, hwait⟩
    rw [decodeCsi, getCSIParam_eq, bind_assoc] at hok
    obtain ⟨s₁, -, hok⟩ := bind_eq_ok.mp hok
    simp only [ok_bind] at hok
    split at hok
    · cases hok
      rfl
    · split at hok
      · obtain ⟨r, -, hok⟩ := bind_eq_ok.mp hok
        cases hok
        rfl
      · cases hok
        exact absurd rfl hwait

theorem decodePlain_length (datap : List UInt8) : (decodePlain datap).2 ≤ datap.length := by
  cases datap with
  | nil => exact Nat.le_refl _
  | cons b rest =>
      rw [decodePlain.eq_def]
      simp only
      split
      · exact (List.takeWhile_prefix _).length_le
      · split
        · cases rest with
          | nil => exact Nat.zero_le _
          | cons c1 rest =>
              refine Nat.le_trans (decodeOther_length c1 rest.head?) ?_
              cases rest <;> simp
        · simp

theorem decodeControl_length {t : Terminal} {datap : List UInt8} {s s' : Screen}
    {tok : VT100TCC} {n : Nat} (hcut : ¬CutLocator datap)
    (hok : decodeControl t datap s = .ok (tok, n, s')) : n ≤ datap.length := by
  by_cases hcsi : isCSI datap = true
  · rw [decodeControl_csi hcsi] at hok
    rcases decodeCsi_length hok with ⟨rfl, -⟩ | ⟨rfl, -⟩
    · exact (csiResult_taken_iff hcsi).mpr hcut
    · exact Nat.zero_le _
  · rw [decodeControl_plain hcsi] at hok
    cases hok
    exact decodePlain_length datap

theorem decodeOther_pos {c1 : UInt8} {c2 : Option UInt8}
    (hwait : (decodeOther c1 c2).1.type ≠ .wait) : 0 < (decodeOther c1 c2).2 := by
  have hthree : ∀ type, (threeByte type c2).1.type ≠ .wait → 0 < (threeByte type c2).2 := by
    intro type hne
    cases c2 with
    | none => exact absurd rfl hne
    | some c => exact Nat.succ_pos 2
  unfold decodeOther at hwait ⊢
  split at hwait
  all_goals first
    | exact hthree _ hwait
    | exact Nat.succ_pos 1

theorem decodePlain_pos {b : UInt8} {rest : List UInt8}
    (hwait : (decodePlain (b :: rest)).1.type ≠ .wait) : 0 < (decodePlain (b :: rest)).2 := by
  rw [decodePlain.eq_def] at hwait ⊢
  simp only at hwait ⊢
  split at hwait
  · rename_i hzero
    simp [hzero]
  · rename_i hzero
    rw [if_neg hzero]
    split at hwait
    · rename_i hesc
      rw [if_pos hesc]
      cases rest with
      | nil => exact absurd rfl hwait
      | cons c1 rest => exact decodeOther_pos hwait
    · rename_i hesc
      rw [if_neg hesc]
      exact Nat.one_pos

/-- A token that is not waited for takes a byte. -/
theorem decodeControl_pos {t : Terminal} {b : UInt8} {rest : List UInt8} {s s' : Screen}
    {tok : VT100TCC} {n : Nat} (hok : decodeControl t (b :: rest) s = .ok (tok, n, s'))
    (hwait : tok.type ≠ .wait) : 0 < n := by
  by_cases hcsi : isCSI (b :: rest) = true
  · rw [decodeControl_csi hcsi] at hok
    rcases decodeCsi_length hok with ⟨rfl, -⟩ | ⟨-, hw⟩
    · exact Nat.lt_of_lt_of_le (by decide) (two_le_csiResult_taken _)
    · exact absurd hw hwait
  · rw [decodeControl_plain hcsi] at hok
    cases hok
    exact decodePlain_pos hwait

/-- The ASCII encoding takes all of `0x20 .. 0x7f`. -/
def Foundation.AsciiTotal (F : Foundation) : Prop :=
  ∀ bytes : List UInt8, (∀ b ∈ bytes, 0x20 ≤ b ∧ b ≤ 0x7f) →
    F.initWithBytes bytes nsAsciiStringEncoding ≠ none

namespace VT100

variable {F : Foundation} {v v' : VT100}

/-! ## No more than has arrived -/

/-- The decoders claim only pending bytes and look only at those. All but the
scanner of control sequences get the pending bytes as a list and see no others. -/
structure ClaimsPending (F : Foundation) (v : VT100) : Prop where
  text : (decodeAsciiString F v.terminal.pending).2 ≤ v.terminal.pending.length
  control : ∀ tok n s, decodeControl v.terminal v.terminal.pending v.screen = .ok (tok, n, s) →
    n ≤ v.terminal.pending.length
  string : (decodeString F v.terminal.pending v.terminal.encoding).2.1 ≤
    v.terminal.pending.length
  reads : isCSI v.terminal.pending = true →
    csiBytesRead v.terminal.pending ≤ v.terminal.pending.length
  no_assertion : v.getNextToken F ≠ .error (.assertion .streamLength)

theorem claims_of_le (h : v.Wf) {n : Nat} (hn : n ≤ v.terminal.pending.length) :
    v.Claims n := by
  have hlen := Terminal.pending_length h.terminal
  unfold Claims
  omega

/-- Exactly the sequences cut off after `'` or `&` claim a byte that has not arrived. The
decoders of text and of single control characters stay within the pending bytes in every
state, and so does the scan of every other sequence. -/
theorem claims_pending_iff (h : v.Wf) :
    v.ClaimsPending F ↔ ¬CutLocator v.terminal.pending := by
  constructor
  · intro hclaims hcut
    exact (csiBytesRead_iff hcut.1).mp (hclaims.reads hcut.1) hcut
  · intro hcut
    have htext := decodeAsciiString_length F v.terminal.pending
    have hcontrol : ∀ tok n s,
        decodeControl v.terminal v.terminal.pending v.screen = .ok (tok, n, s) →
        n ≤ v.terminal.pending.length := fun _ _ _ hok => decodeControl_length hcut hok
    have hstring := decodeString_length F v.terminal.pending v.terminal.encoding
    refine ⟨htext, hcontrol, hstring, fun hcsi => (csiBytesRead_iff hcsi).mpr hcut, ?_⟩
    have havoids : Avoids (· = .assertion .streamLength) (v.getNextToken F) :=
      getNextToken_avoids (fun _ => h.screen) (fun _ => claims_of_le h htext)
        (fun _ _ _ _ hok => claims_of_le h (hcontrol _ _ _ hok))
        (fun _ => claims_of_le h hstring)
        (fun _ hne => claims_of_le h (List.length_pos_iff.mpr hne))
    exact havoids _ rfl rfl

/-- `ESC [ m` on a new object: the three bytes that are claimed have arrived. -/
theorem init_claims_pending : ∃ v v', VT100.init ⟨0, 0, 0⟩ = .ok v ∧
    v.putStreamData [0x1b, 0x5b, 0x6d] = .ok v' ∧ v'.ClaimsPending Foundation.latin1 := by
  obtain ⟨v, v', hv, hput, hwf, hpending, -⟩ := init_put ⟨0, 0, 0⟩ [0x1b, 0x5b, 0x6d]
  refine ⟨v, v', hv, hput, (claims_pending_iff hwf).mpr ?_⟩
  rw [hpending]
  rintro ⟨-, body, b, hbytes, hb, -⟩
  have hlast := congrArg List.getLast? hbytes
  rw [List.getLast?_concat, show (csiPrefix [0x1b, 0x5b, 0x6d]).2.1.getLast? = some 0x6d by decide]
    at hlast
  cases hlast
  cases hb

/-- `ESC [ '` on a new object: the token claims four bytes of three. -/
theorem locator_trips_assertion : ∃ v v', VT100.init ⟨0, 0, 0⟩ = .ok v ∧
    v.putStreamData [0x1b, 0x5b, 0x27] = .ok v' ∧
    decodeControl v'.terminal v'.terminal.pending v'.screen =
      .ok ({ type := .unknownChar }, 4, v'.screen) ∧
    v'.getNextToken Foundation.latin1 = .error (.assertion .streamLength) := by
  obtain ⟨v, v', hv, hput, hwf, hpending, -⟩ := init_put ⟨0, 0, 0⟩ [0x1b, 0x5b, 0x27]
  have hlen := Terminal.pending_length hwf.terminal
  rw [hpending] at hlen
  refine ⟨v, v', hv, hput, by rw [hpending]; rfl, ?_⟩
  rw [getNextToken_control [0x5b, 0x27] (by decide) hpending]
  have hlt : ¬v'.terminal.currentStreamLength ≥ v'.terminal.streamOffset + 4 := by
    simp only [List.length_cons, List.length_nil] at hlen
    omega
  show (nsAssert .streamLength (v'.terminal.currentStreamLength ≥ v'.terminal.streamOffset + 4) >>=
    fun _ => _) >>= _ = _
  rw [nsAssert, if_neg hlt]
  rfl

/-! ## The token loop ends

Progress is shown decoder by decoder: what a decoder takes is positive unless it
asks to wait, also for bytes that belong to no character, which are overwritten
and passed over one at a time. -/

/-- `streamOffset` has moved on, but not past the end, and the stream itself is the same: what
one round of the token loop needs and leaves. -/
structure Advanced (v v' : VT100) : Prop where
  offset_lt : v.terminal.streamOffset < v'.terminal.streamOffset
  length_eq : v'.terminal.currentStreamLength = v.terminal.currentStreamLength
  offset_le : v'.terminal.streamOffset ≤ v'.terminal.currentStreamLength

theorem advance_advanced {n : Nat} (hn : 0 < n) (hok : v.advance n = .ok v') :
    Advanced v v' := by
  rw [advance, if_pos hn] at hok
  obtain ⟨u, hle, hok⟩ := bind_eq_ok.mp hok
  have hle := nsAssert_eq_ok.mp hle
  cases hok
  exact ⟨by simp only [Terminal.skip]; omega, rfl, by simp only [Terminal.skip]; omega⟩

theorem decodeAsciiString_pos (hF : F.AsciiTotal) {b : UInt8} {rest : List UInt8}
    (hb : isAsciiText b = true) : 0 < (decodeAsciiString F (b :: rest)).2 := by
  have htext : ∀ c ∈ (b :: rest).takeWhile isAsciiText, 0x20 ≤ c ∧ c ≤ 0x7f := by
    intro c hc
    have := List.mem_takeWhile_imp hc
    simpa [isAsciiText] using this
  unfold decodeAsciiString
  simp only
  split
  · simp [hb]
  · rename_i hnone
    exact absurd hnone (hF _ htext)

/-- On pending bytes a fetch asks to wait or moves on. -/
theorem getNextToken_advanced (hF : F.AsciiTotal) {tok : VT100TCC}
    (hne : v.terminal.pending ≠ []) (hok : v.getNextToken F = .ok (tok, v')) :
    tok.type = .wait ∨ Advanced v v' := by
  cases getNextToken_fetches hok with
  | empty hp => exact absurd hp hne
  | text hp htext h₁ =>
      refine Or.inr (advance_advanced ?_ h₁)
      rw [hp]
      exact decodeAsciiString_pos hF htext
  | @control v₁ v₂ _ _ n s b rest hp hb hdecode hmode hattr h₁ =>
      by_cases hwait : tok.type = .wait
      · exact Or.inl hwait
      · rw [hp] at hdecode
        have hs := (setMode_sameStream hmode).trans (setCharAttr_sameStream hattr)
        obtain ⟨hlt, heq, hle⟩ := advance_advanced (decodeControl_pos hdecode hwait) h₁
        rw [hs.offset] at hlt
        rw [hs.length] at heq
        exact Or.inr ⟨hlt, heq, hle⟩
  | undecoded hp hb hdecode hne h₁ =>
      obtain ⟨hlt, heq, hle⟩ := advance_advanced Nat.one_pos h₁
      exact Or.inr ⟨hlt, heq, hle⟩
  | @string _ _ n _ _ _ hp hb hdecode hzero h₁ =>
      by_cases hwait : tok.type = .wait
      · exact Or.inl hwait
      · have hn : 0 < n := Nat.pos_of_ne_zero fun h0 => hzero ⟨hwait, h0⟩
        obtain ⟨hlt, heq, hle⟩ := advance_advanced hn h₁
        exact Or.inr ⟨hlt, heq, hle⟩
  | unknown hp hb h₁ => exact Or.inr (advance_advanced Nat.one_pos h₁)

theorem processToken_sameStream {tok : VT100TCC} (hok : v.processToken F tok = .ok v') :
    v.terminal.SameStream v'.terminal := by
  unfold processToken at hok
  split at hok
  · cases hok
    exact .refl _
  · obtain ⟨s, -, hok⟩ := bind_eq_ok.mp hok
    cases hok
    simp only
    split
    · exact ⟨rfl, rfl, rfl, rfl⟩
    · exact .refl _

/-- The offset does not pass the end. -/
def Inside (v : VT100) : Prop := v.terminal.streamOffset ≤ v.terminal.currentStreamLength

theorem Inside.advance {n : Nat} (h : v.Inside) (hok : v.advance n = .ok v') : v'.Inside := by
  by_cases hn : 0 < n
  · exact (advance_advanced hn hok).offset_le
  · rw [VT100.advance, if_neg hn] at hok
    cases hok
    exact h

theorem Inside.getNextToken {tok : VT100TCC} (h : v.Inside)
    (hok : v.getNextToken F = .ok (tok, v')) : v'.Inside := by
  cases getNextToken_fetches hok with
  | empty hp =>
      unfold Inside Terminal.emptyStream
      simp only
      split <;> exact Int.le_refl 0
  | text hp htext h₁ => exact h.advance h₁
  | @control v₁ v₂ _ _ n s b rest hp hb hdecode hmode hattr h₁ =>
      have hs := (setMode_sameStream hmode).trans (setCharAttr_sameStream hattr)
      refine Inside.advance ?_ h₁
      unfold Inside at *
      rw [hs.length, hs.offset]
      exact h
  | undecoded hp hb hdecode hne h₁ =>
      exact Inside.advance (v := v.overwritePending _) h h₁
  | string hp hb hdecode hzero h₁ => exact Inside.advance (v := v.overwritePending _) h h₁
  | unknown hp hb h₁ => exact h.advance h₁

end VT100

end MobileTerminal
