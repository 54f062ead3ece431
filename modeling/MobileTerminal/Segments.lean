import Mathlib.Data.List.DropRight
import MobileTerminal.Splitter
import MobileTerminal.Queue

/-!
# Double-byte text in pieces

The decoders of the double-byte encodings pass over characters of one to three
bytes. `Segment`s are what they take for a character, or for a byte they do not
know; `readSegments` collects them over the calls of `getNextToken` that one
piece of input needs, `feedSegments` over the pieces.

The first byte of a character waits for the others in all of the decoders but
`decode_sjis`, which takes a lead byte at the end of the buffer for a character
of its own. So text is segmented the same however it is cut, except that
Shift-JIS must not be cut behind such a byte (`cut_independent_iff`).

The general part of the argument is `Splitter`: a stream whose front decides,
once and for all, what the next segment is, is split the same in one piece or in
many. The decoders are shown to be such splitters (`stringStep_stable`), and the
calls of `getNextToken` to find the segments of the splitter, in whatever
portions (`Reading.readSegments`).

Shift-JIS is not stable in this sense and has an induction of its own, along the
characters of the text (`kanji_induction`). A cut goes well there exactly when
the lead bytes right before it can be taken in pairs (`EvenLeads`).
-/

namespace MobileTerminal

/-- What a decoder takes for a unit. -/
inductive Segment where
  | char (bytes : List UInt8)
  | unknown (byte : UInt8)
deriving DecidableEq, Repr

/-- `stringLoop` with its rounds recorded. -/
def stringSegments (step : UInt8 → List UInt8 → StringStep) :
    Nat → List UInt8 → List UInt8 → List Segment
  | 0, _, _ => []
  | fuel + 1, done, ahead =>
      match step ((done ++ ahead).headD 0) ahead with
      | .stop => []
      | .take n =>
          .char (ahead.take n) :: stringSegments step fuel (done ++ ahead.take n) (ahead.drop n)
      | .unknown =>
          .unknown (ahead.headD 0) ::
            stringSegments step fuel (done ++ [unknownByte]) (ahead.drop 1)

/-- The encodings of `decode_euccn`, `decode_big5`, `decode_euc_jp`, `decode_sjis` and
`decode_euckr`. -/
def isDoubleByte (e : Encoding) : Bool :=
  isGBEncoding e || isBig5Encoding e || isJPEncoding e || isSJISEncoding e || isKREncoding e

/-- The first bytes `isString` knows for EUC-JP. -/
def isEucJp (c : UInt8) : Bool := c = 0x8e || c = 0x8f || 0xa1 ≤ c && c ≤ 0xfe

/-! ## One round of a decoder -/

/-- The decoder of an encoding, with the gate in front of it. -/
def Decodes (e : Encoding) (step : UInt8 → List UInt8 → StringStep) (gate : UInt8 → Bool) : Prop :=
  stringStep e = step ∧ ∀ b, isString b e = gate b

theorem decodes_cases {e : Encoding} (h : isDoubleByte e = true) :
    isSJISEncoding e = false ∧
      (Decodes e euccnStep isEuccn ∨ Decodes e big5Step isBig5 ∨ Decodes e eucJpStep isEucJp ∨
        Decodes e euckrStep isEuckr) ∨
    isSJISEncoding e = true ∧ Decodes e sjisStep (fun b => 0x80 ≤ b) := by
  simp only [isDoubleByte, isGBEncoding, isBig5Encoding, isJPEncoding, isSJISEncoding,
    isKREncoding, Bool.or_eq_true, decide_eq_true_eq] at h
  rcases h with (((h | h) | h) | h) | h
  · refine Or.inl ⟨?_, Or.inl ⟨?_, fun b => ?_⟩⟩
    all_goals rcases h with (((rfl | rfl) | rfl) | rfl) | rfl <;> rfl
  · refine Or.inl ⟨?_, Or.inr (Or.inl ⟨?_, fun b => ?_⟩)⟩
    all_goals rcases h with (((rfl | rfl) | rfl) | rfl) | rfl <;> rfl
  · refine Or.inl ⟨?_, Or.inr (Or.inr (Or.inl ⟨?_, fun b => ?_⟩))⟩
    all_goals rcases h with (rfl | rfl) | rfl <;> rfl
  · refine Or.inr ⟨?_, ?_, fun b => ?_⟩
    all_goals rcases h with rfl | rfl <;> rfl
  · refine Or.inl ⟨?_, Or.inr (Or.inr (Or.inr ⟨?_, fun b => ?_⟩))⟩
    all_goals rcases h with ((rfl | rfl) | rfl) | rfl <;> rfl

/-- What is decided on some bytes is decided on more. -/
structure StableStep (step : UInt8 → List UInt8 → StringStep) : Prop where
  stable : ∀ f l more, step f l ≠ .stop → step f (l ++ more) = step f l

/-- A round is taken by the first byte behind the gate, and takes bytes that are there. -/
structure GatedStep (step : UInt8 → List UInt8 → StringStep) (gate : UInt8 → Bool) : Prop where
  first : ∀ f f' l, step f l = step f' l
  gate : ∀ f b rest, step f (b :: rest) ≠ .stop → isAsciiText b = false ∧ gate b = true
  take : ∀ f l n, step f l = .take n → 0 < n ∧ n ≤ l.length

theorem notAscii {b : UInt8} (h : 0x80 ≤ b.toNat) : isAsciiText b = false := by
  simp only [isAsciiText, Bool.and_eq_false_iff, decide_eq_false_iff_not, UInt8.le_iff_toNat_le,
    UInt8.reduceToNat]
  omega

/-- A decoder of characters of two bytes, whose answer to a lead byte depends on the byte
behind it. -/
structure PairStep (step : UInt8 → List UInt8 → StringStep) (gate : UInt8 → Bool)
    (answer : UInt8 → StringStep) : Prop where
  nil : ∀ f, step f [] = .stop
  one : ∀ f b, step f [b] = .stop
  two : ∀ f b c rest, step f (b :: c :: rest) = if gate b = true then answer c else .stop
  answer : ∀ c n, answer c = .take n → n = 2
  lead : ∀ b, gate b = true → 0x80 ≤ b.toNat

namespace PairStep

variable {step : UInt8 → List UInt8 → StringStep} {gate : UInt8 → Bool}
  {answer : UInt8 → StringStep}

theorem gated (h : PairStep step gate answer) : GatedStep step gate where
  first f f' l := by
    rcases l with - | ⟨b, - | ⟨c, rest⟩⟩
    · rw [h.nil, h.nil]
    · rw [h.one, h.one]
    · rw [h.two, h.two]
  gate f b rest hstep := by
    cases rest with
    | nil => exact absurd (h.one f b) hstep
    | cons c rest =>
        by_cases hb : gate b = true
        · exact ⟨notAscii (h.lead b hb), hb⟩
        · rw [h.two, if_neg hb] at hstep
          exact absurd rfl hstep
  take f l n hstep := by
    rcases l with - | ⟨b, - | ⟨c, rest⟩⟩
    · rw [h.nil] at hstep
      cases hstep
    · rw [h.one] at hstep
      cases hstep
    · rw [h.two] at hstep
      split at hstep
      · obtain rfl := h.answer c n hstep
        simp
      · cases hstep

theorem stable (h : PairStep step gate answer) : StableStep step := by
  refine ⟨fun f l more hstep => ?_⟩
  rcases l with - | ⟨b, - | ⟨c, rest⟩⟩
  · exact absurd (h.nil f) hstep
  · exact absurd (h.one f b) hstep
  · exact (h.two f b c _).trans (h.two f b c _).symm

end PairStep

theorem euccnStep_pair : PairStep euccnStep isEuccn fun c =>
    if 0x40 ≤ c && c ≤ 0x7e || 0x80 ≤ c && c ≤ 0xfe then .take 2 else .unknown where
  nil _ := rfl
  one _ _ := rfl
  two _ _ _ _ := rfl
  answer c n h := by
    split at h
    · cases h
      rfl
    · cases h
  lead b h := by
    simp only [isEuccn, Bool.and_eq_true, decide_eq_true_eq, UInt8.le_iff_toNat_le,
      UInt8.reduceToNat] at h
    omega

theorem big5Step_pair : PairStep big5Step isBig5 fun c =>
    if 0x40 ≤ c && c ≤ 0x7e || 0xa1 ≤ c && c ≤ 0xfe then .take 2 else .unknown where
  nil _ := rfl
  one _ _ := rfl
  two _ _ _ _ := rfl
  answer c n h := by
    split at h
    · cases h
      rfl
    · cases h
  lead b h := by
    simp only [isBig5, Bool.and_eq_true, decide_eq_true_eq, UInt8.le_iff_toNat_le,
      UInt8.reduceToNat] at h
    omega

theorem euckrStep_pair : PairStep euckrStep isEuckr fun _ => .take 2 where
  nil _ := rfl
  one _ _ := rfl
  two _ _ _ _ := rfl
  answer c n h := by
    cases h
    rfl
  lead b h := by
    simp only [isEuckr, Bool.and_eq_true, decide_eq_true_eq, UInt8.le_iff_toNat_le,
      UInt8.reduceToNat] at h
    omega

theorem eucJpStep_gated : GatedStep eucJpStep isEucJp where
  first _ _ _ := rfl
  gate f b rest h := by
    simp only [eucJpStep, Bool.and_eq_true, decide_eq_true_eq] at h
    have hb : b = 0x8e ∨ b = 0x8f ∨ 0xa1 ≤ b ∧ b ≤ 0xfe := by
      split at h
      · rename_i hcase
        exact Or.inl hcase.2
      · split at h
        · rename_i hcase
          exact Or.inr (Or.inl hcase.2)
        · split at h
          · rename_i hcase
            exact Or.inr (Or.inr ⟨hcase.1.2, hcase.2⟩)
          · exact absurd rfl h
    refine ⟨notAscii ?_, ?_⟩
    · simp only [← UInt8.toNat_inj, UInt8.le_iff_toNat_le, UInt8.reduceToNat] at hb
      omega
    · simpa [isEucJp, or_assoc] using hb
  take f l n h := by
    cases l with
    | nil => cases h
    | cons b rest =>
        simp only [eucJpStep, Bool.and_eq_true, decide_eq_true_eq] at h
        split at h
        · rename_i hcase
          cases h
          exact ⟨by omega, hcase.1⟩
        · split at h
          · rename_i hcase
            cases h
            exact ⟨by omega, hcase.1⟩
          · split at h
            · rename_i hcase
              cases h
              exact ⟨by omega, hcase.1.1⟩
            · cases h

theorem sjisStep_gated : GatedStep sjisStep (fun b => 0x80 ≤ b) where
  first _ _ _ := rfl
  gate f b rest h := by
    have hb : 0x80 ≤ b.toNat := by
      simp only [sjisStep, isSjisKanji, Bool.and_eq_true, Bool.or_eq_true, decide_eq_true_eq,
        UInt8.le_iff_toNat_le, UInt8.reduceToNat] at h
      split at h
      · omega
      · split at h
        · assumption
        · exact absurd rfl h
    exact ⟨notAscii hb, by simpa [UInt8.le_iff_toNat_le] using hb⟩
  take f l n h := by
    cases l with
    | nil => cases h
    | cons b rest =>
        simp only [sjisStep, Bool.and_eq_true, decide_eq_true_eq] at h
        split at h
        · rename_i hcase
          cases h
          exact ⟨by omega, hcase.2⟩
        · split at h
          · cases h
            simp
          · cases h

theorem eucJpStep_stable : StableStep eucJpStep := by
  refine ⟨fun f l more h => ?_⟩
  cases l with
  | nil => exact absurd rfl h
  | cons b rest =>
      have hlen : (b :: rest).length ≤ (b :: (rest ++ more)).length := by simp
      simp only [eucJpStep, List.cons_append, Bool.and_eq_true, decide_eq_true_eq] at h hlen ⊢
      generalize (b :: rest).length = m at h hlen ⊢
      generalize (b :: (rest ++ more)).length = n at hlen ⊢
      have hab : b = 0x8e → ¬b = 0x8f ∧ ¬0xa1 ≤ b := by
        rintro rfl
        decide
      have hbc : b = 0x8f → ¬0xa1 ≤ b := by
        rintro rfl
        decide
      split at h
      · rename_i hcase
        rw [if_pos ⟨by omega, hcase.2⟩, if_pos hcase]
      · rename_i h1
        split at h
        · rename_i hcase
          have hne : ¬b = 0x8e := fun heq => (hab heq).1 hcase.2
          rw [if_neg fun hc => hne hc.2, if_pos ⟨by omega, hcase.2⟩, if_neg h1, if_pos hcase]
        · rename_i h2
          split at h
          · rename_i hcase
            have hne : ¬b = 0x8e := fun heq => (hab heq).2 hcase.1.2
            have hne' : ¬b = 0x8f := fun heq => hbc heq hcase.1.2
            rw [if_neg fun hc => hne hc.2, if_neg fun hc => hne' hc.2,
              if_pos ⟨⟨by omega, hcase.1.2⟩, hcase.2⟩, if_neg h1, if_neg h2, if_pos hcase]
          · exact absurd rfl h

theorem stringStep_gated {e : Encoding} (h : isDoubleByte e = true) :
    GatedStep (stringStep e) (isString · e) := by
  have hof : ∀ {step gate}, Decodes e step gate → GatedStep step gate →
      GatedStep (stringStep e) (isString · e) := by
    rintro step gate ⟨hstep, hgate⟩ hgated
    obtain rfl : (isString · e) = gate := funext hgate
    exact hstep ▸ hgated
  rcases decodes_cases h with ⟨-, hd | hd | hd | hd⟩ | ⟨-, hd⟩
  · exact hof hd euccnStep_pair.gated
  · exact hof hd big5Step_pair.gated
  · exact hof hd eucJpStep_gated
  · exact hof hd euckrStep_pair.gated
  · exact hof hd sjisStep_gated

/-- All but Shift-JIS wait for the rest of a character. -/
theorem stringStep_stable {e : Encoding} (h : isDoubleByte e = true)
    (hsjis : isSJISEncoding e = false) : StableStep (stringStep e) := by
  rcases decodes_cases h with ⟨-, ⟨hd, -⟩ | ⟨hd, -⟩ | ⟨hd, -⟩ | ⟨hd, -⟩⟩ | ⟨hyes, -⟩
  · rw [hd]
    exact euccnStep_pair.stable
  · rw [hd]
    exact big5Step_pair.stable
  · rw [hd]
    exact eucJpStep_stable
  · rw [hd]
    exact euckrStep_pair.stable
  · rw [hsjis] at hyes
    cases hyes

/-! ## The characters of a text -/

/-- The segment at the front of the bytes, as long as its bytes are there. -/
def frontSegment (e : Encoding) : List UInt8 → Option (Segment × Nat)
  | [] => none
  | b :: rest =>
      if isAsciiText b then some (.char [b], 1)
      else if isString b e then
        match stringStep e b (b :: rest) with
        | .stop => none
        | .take n => some (.char ((b :: rest).take n), n)
        | .unknown => some (.unknown b, 1)
      else some (.unknown b, 1)

section

variable {e : Encoding} (he : isDoubleByte e = true)

include he

theorem frontSegment_range {l : List UInt8} {s : Segment} {n : Nat}
    (h : frontSegment e l = some (s, n)) : 0 < n ∧ n ≤ l.length := by
  cases l with
  | nil => cases h
  | cons b rest =>
      simp only [frontSegment] at h
      split at h
      · cases h
        simp
      · split at h
        · split at h
          · cases h
          · rename_i hstep
            cases h
            exact (stringStep_gated he).take _ _ _ hstep
          · cases h
            simp
        · cases h
          simp

theorem frontSegment_take {f : UInt8} {l : List UInt8} {n : Nat}
    (hstep : stringStep e f l = .take n) : frontSegment e l = some (.char (l.take n), n) := by
  cases l with
  | nil =>
      rw [stringStep_nil] at hstep
      cases hstep
  | cons b rest =>
      obtain ⟨hascii, hgate⟩ := (stringStep_gated he).gate f b rest (by rw [hstep]; simp)
      rw [(stringStep_gated he).first f b] at hstep
      simp only [frontSegment, hascii, hgate, hstep, Bool.false_eq_true, if_false, if_true]

theorem frontSegment_unknown {f : UInt8} {l : List UInt8} (hstep : stringStep e f l = .unknown) :
    frontSegment e l = some (.unknown (l.headD 0), 1) := by
  cases l with
  | nil =>
      rw [stringStep_nil] at hstep
      cases hstep
  | cons b rest =>
      obtain ⟨hascii, hgate⟩ := (stringStep_gated he).gate f b rest (by rw [hstep]; simp)
      rw [(stringStep_gated he).first f b] at hstep
      simp only [frontSegment, hascii, hgate, hstep, Bool.false_eq_true, if_false, if_true,
        List.headD_cons]

theorem frontSegment_stop {f b : UInt8} {rest : List UInt8} (hascii : isAsciiText b = false)
    (hgate : isString b e = true) (hstep : stringStep e f (b :: rest) = .stop) :
    frontSegment e (b :: rest) = none := by
  rw [(stringStep_gated he).first f b] at hstep
  simp only [frontSegment, hascii, hgate, hstep, Bool.false_eq_true, if_false, if_true]

/-- Text of an encoding as a stream of segments. -/
def textSplitter : Splitter UInt8 Segment where
  next := frontSegment e
  next_pos h := (frontSegment_range he h).1
  next_le h := (frontSegment_range he h).2

theorem textSplitter_stable (hsjis : isSJISEncoding e = false) : (textSplitter he).Stable := by
  have hstable := (stringStep_stable he hsjis).stable
  intro l more p h
  cases l with
  | nil => cases h
  | cons b rest =>
      have h : frontSegment e (b :: rest) = some p := h
      show frontSegment e (b :: (rest ++ more)) = some p
      simp only [frontSegment] at h ⊢
      split at h
      · rename_i hascii
        rw [if_pos hascii]
        exact h
      · rename_i hascii
        rw [if_neg hascii]
        split at h
        · rename_i hgate
          rw [if_pos hgate]
          have hsame : stringStep e b (b :: rest) ≠ .stop → stringStep e b (b :: (rest ++ more)) =
              stringStep e b (b :: rest) := hstable b (b :: rest) more
          split at h
          · cases h
          · rename_i n hstep
            have hn := ((stringStep_gated he).take _ _ _ hstep).2
            rw [hsame (by rw [hstep]; simp), hstep]
            simp only
            rw [← List.cons_append, List.take_append_of_le_length hn]
            exact h
          · rename_i hstep
            rw [hsame (by rw [hstep]; simp), hstep]
            exact h
        · rename_i hgate
          rw [if_neg hgate]
          exact h

theorem split_text {text : List UInt8} (htext : ∀ b ∈ text, isAsciiText b = true)
    (rest : List UInt8) : (textSplitter he).split (text ++ rest) =
      (text.map (fun b => .char [b]) ++ ((textSplitter he).split rest).1,
        ((textSplitter he).split rest).2) := by
  induction text with
  | nil => rfl
  | cons b text ih =>
      have hnext : (textSplitter he).next (b :: (text ++ rest)) = some (.char [b], 1) :=
        if_pos (htext b (by simp))
      rw [List.cons_append, Splitter.split_some hnext, List.drop_one, List.tail_cons,
        ih fun c hc => htext c (by simp [hc])]
      rfl

/-- The rounds of a decoder are the segments at the front. -/
theorem split_stringLoop (fuel : Nat) (done ahead : List UInt8) :
    (textSplitter he).split ahead =
      (stringSegments (stringStep e) fuel done ahead ++
          ((textSplitter he).split (stringLoop (stringStep e) fuel done ahead).2).1,
        ((textSplitter he).split (stringLoop (stringStep e) fuel done ahead).2).2) := by
  induction fuel generalizing done ahead with
  | zero => rfl
  | succ fuel ih =>
      simp only [stringSegments, stringLoop]
      cases hstep : stringStep e ((done ++ ahead).headD 0) ahead with
      | stop => rfl
      | take n =>
          have hnext : (textSplitter he).next ahead = some (.char (ahead.take n), n) :=
            frontSegment_take he hstep
          rw [Splitter.split_some hnext, ih (done ++ ahead.take n) (ahead.drop n)]
          rfl
      | unknown =>
          have hnext : (textSplitter he).next ahead = some (.unknown (ahead.headD 0), 1) :=
            frontSegment_unknown he hstep
          rw [Splitter.split_some hnext, ih (done ++ [unknownByte]) (ahead.drop 1)]
          rfl

end

/-! ## Calls of `getNextToken` -/

namespace VT100

variable {F : Foundation} {v v' : VT100}

/-- The characters and unknown bytes that the next call of `getNextToken` takes. -/
def tokenSegments (F : Foundation) (v : VT100) : List Segment :=
  match v.terminal.pending with
  | [] => []
  | b :: rest =>
      let datap := b :: rest
      if isAsciiText b then
        (datap.take (decodeAsciiString F datap).2).map fun c => .char [c]
      else if b ≤ 0x1f then []
      else if isString b v.terminal.encoding then
        stringSegments (stringStep v.terminal.encoding) datap.length [] datap
      else [.unknown b]

/-- The calls of `getNextToken` until one answers that there is nothing to do. -/
def readSegments (F : Foundation) : Nat → VT100 → Res (List Segment × VT100)
  | 0, _ => .error .diverges
  | fuel + 1, v => do
      let (tok, v') ← v.getNextToken F
      if tok.stops then .ok ([], v')
      else do
        let (segments, v'') ← readSegments F fuel v'
        .ok (v.tokenSegments F ++ segments, v'')

/-- The calls for the pieces of the input, one after the other. -/
def feedSegments (F : Foundation) : List (List UInt8) → VT100 → Res (List Segment × VT100)
  | [], v => .ok ([], v)
  | chunk :: chunks, v => do
      let v ← v.putStreamData chunk
      let (segments, v) ← readSegments F (v.terminal.pending.length + 1) v
      let (more, v) ← feedSegments F chunks v
      .ok (segments ++ more, v)

/-- A terminal that waits for text of encoding `e` with `bytes` pending. -/
structure Reading (e : Encoding) (bytes : List UInt8) (v : VT100) : Prop where
  wf : v.terminal.Wf
  encoding_eq : v.terminal.encoding = e
  pending_eq : v.terminal.pending = bytes
  text : ∀ b ∈ bytes, 0x20 ≤ b

theorem Reading.pass {e : Encoding} {bytes : List UInt8} (h : Reading e bytes v) {n : Nat}
    (hn : n ≤ bytes.length) : Reading e (bytes.drop n) (v.pass n) where
  wf := Terminal.skip_wf h.wf (h.pending_eq ▸ hn)
  encoding_eq := h.encoding_eq
  pending_eq := by
    rw [VT100.pass, Terminal.skip_pending h.wf (h.pending_eq ▸ hn), h.pending_eq]
  text b hb := h.text b (List.mem_of_mem_drop hb)

theorem Reading.not_control {e : Encoding} {b : UInt8} {rest : List UInt8}
    (h : Reading e (b :: rest) v) : ¬b ≤ 0x1f := by
  have hb := h.text b (by simp)
  simp only [UInt8.le_iff_toNat_le, UInt8.reduceToNat] at hb ⊢
  omega

/-- A decoder takes the bytes its loop has passed over, and waits when there are none. -/
theorem decodeString_type (F : Foundation) (datap : List UInt8) (e : Encoding) :
    (decodeString F datap e).2.1 =
        (stringLoop (stringStep e) datap.length [] datap).1.length ∧
      ((decodeString F datap e).1.type = .wait ∧
          (stringLoop (stringStep e) datap.length [] datap).1.length = 0 ∨
        (decodeString F datap e).1.type = .string ∧
          ¬(stringLoop (stringStep e) datap.length [] datap).1.length = 0) := by
  unfold decodeString
  generalize stringLoop (stringStep e) datap.length [] datap = r
  obtain ⟨done, ahead⟩ := r
  simp only
  split
  · rename_i hzero
    exact ⟨hzero.symm, Or.inl ⟨rfl, hzero⟩⟩
  · rename_i hzero
    split
    · exact ⟨rfl, Or.inr ⟨rfl, hzero⟩⟩
    · exact ⟨replaceUnknown_length _ _ _ _, Or.inr ⟨rfl, hzero⟩⟩

theorem Reading.getString {e : Encoding} {b : UInt8} {rest : List UInt8}
    (h : Reading e (b :: rest) v) (hascii : isAsciiText b = false) (hgate : isString b e = true) :
    ∃ tok v', v.getNextToken F = .ok (tok, v') ∧
      Reading e (stringLoop (stringStep e) (b :: rest).length [] (b :: rest)).2 v' ∧
      (tok.stops = true ↔
        (stringLoop (stringStep e) (b :: rest).length [] (b :: rest)).1.length = 0) := by
  have hlen := stringLoop_length (stringStep_nil e) (b :: rest).length [] (b :: rest)
  have hsuffix := stringLoop_suffix (stringStep e) (b :: rest).length [] (b :: rest)
  have hbytes := decodeString_bytes_length F (b :: rest) e
  have hdrop := decodeString_drop F (b :: rest) e
  have hshape := decodeString_type F (b :: rest) e
  generalize stringLoop (stringStep e) (b :: rest).length [] (b :: rest) = r
    at hlen hsuffix hshape ⊢
  generalize hdecode : decodeString F (b :: rest) e = d at hbytes hdrop hshape
  obtain ⟨tok, n, bytes⟩ := d
  obtain ⟨done, ahead⟩ := r
  simp only [List.length_nil, Nat.zero_add] at hlen hbytes hdrop hshape hsuffix ⊢
  obtain ⟨hn, htype⟩ := hshape
  have hover := overwritePending_pending h.wf (hbytes.trans (congrArg _ h.pending_eq.symm))
  have hwf := overwritePending_terminalWf h.wf bytes
  have hle : n ≤ (v.overwritePending bytes).terminal.pending.length := by
    rw [hover, hbytes]
    omega
  have hnot : ¬(tok.type ≠ .wait ∧ n = 0) := by
    rintro ⟨hne, hzero⟩
    rcases htype with ⟨hwait, -⟩ | ⟨-, hpos⟩
    · exact hne hwait
    · exact hpos (hn ▸ hzero)
  refine ⟨tok, (v.overwritePending bytes).pass n, ?_,
    ⟨Terminal.skip_wf hwf hle, h.encoding_eq, ?_, ?_⟩, ?_⟩
  · simp only [getNextToken, h.pending_eq, hascii, h.not_control, h.encoding_eq, hgate, hdecode,
      Bool.false_eq_true, if_false, if_true, if_neg hnot, advance_eq hwf hle, ok_bind]
    rfl
  · rw [VT100.pass, Terminal.skip_pending hwf hle, hover, hdrop,
      List.suffix_iff_eq_drop.mp hsuffix]
    congr 1
    omega
  · intro c hc
    exact h.text c (hsuffix.subset hc)
  · rcases htype with ⟨hwait, hzero⟩ | ⟨hstring, hpos⟩
    · simp only [VT100TCC.stops, hwait, hzero]
      simp
    · simp only [VT100TCC.stops, hstring, hpos]
      simp

/-- A loop that passes over nothing has stopped in its first round. -/
theorem stringStep_of_waits {e : Encoding} (he : isDoubleByte e = true) {b : UInt8}
    {rest : List UInt8}
    (hzero : (stringLoop (stringStep e) (b :: rest).length [] (b :: rest)).1.length = 0) :
    stringStep e b (b :: rest) = .stop := by
  have hfirst : ∀ done ahead fuel,
      done.length ≤ (stringLoop (stringStep e) fuel done ahead).1.length := by
    intro done ahead fuel
    have hlen := stringLoop_length (stringStep_nil e) fuel done ahead
    have hsuffix := (stringLoop_suffix (stringStep e) fuel done ahead).length_le
    omega
  rw [List.length_cons, stringLoop, List.nil_append, List.headD_cons] at hzero
  cases hstep : stringStep e b (b :: rest) with
  | stop => rfl
  | take n =>
      have hpos := ((stringStep_gated he).take _ _ _ hstep).1
      have hle := hfirst ((b :: rest).take n) ((b :: rest).drop n) rest.length
      simp only [hstep, List.nil_append] at hzero
      simp only [List.length_take, List.length_cons] at hle
      omega
  | unknown =>
      have hle := hfirst [unknownByte] ((b :: rest).drop 1) rest.length
      simp only [hstep, List.nil_append] at hzero
      simp only [List.length_singleton] at hle
      omega

/-- A call on a byte that no decoder knows. -/
theorem Reading.getUnknown {e : Encoding} {b : UInt8} {rest : List UInt8}
    (h : Reading e (b :: rest) v) (hascii : isAsciiText b = false) (hgate : ¬isString b e = true) :
    v.getNextToken F = .ok ({ type := .unknownChar, code := b }, v.pass 1) := by
  have hle : 1 ≤ v.terminal.pending.length := by
    rw [h.pending_eq, List.length_cons]
    omega
  simp only [getNextToken, h.pending_eq, hascii, h.not_control, h.encoding_eq, hgate,
    Bool.false_eq_true, if_false, advance_eq h.wf hle, ok_bind]
  rfl

theorem decodeAsciiString_taken (hF : F.AsciiExact) (datap : List UInt8) :
    (decodeAsciiString F datap).2 = (datap.takeWhile isAsciiText).length := by
  have htext : ∀ c ∈ datap.takeWhile isAsciiText, 0x20 ≤ c ∧ c ≤ 0x7f := by
    intro c hc
    simpa [isAsciiText] using List.mem_takeWhile_imp hc
  simp only [decodeAsciiString, hF _ htext]

/-- One call either finds no segment at the front and stops, or takes its segments off. -/
def Proceeds (F : Foundation) {e : Encoding} (he : isDoubleByte e = true) (bytes : List UInt8)
    (v : VT100) : Prop :=
  ∃ tok v', v.getNextToken F = .ok (tok, v') ∧
    (tok.stops = true ∧ (textSplitter he).split bytes = ([], bytes) ∧ Reading e bytes v' ∨
      tok.stops = false ∧ ∃ rest, rest.length < bytes.length ∧ Reading e rest v' ∧
        (textSplitter he).split bytes =
          (v.tokenSegments F ++ ((textSplitter he).split rest).1, ((textSplitter he).split rest).2))

section

variable {e : Encoding} (he : isDoubleByte e = true) {b : UInt8} {rest : List UInt8}

include he

theorem Reading.callEmpty (h : Reading e [] v) : Proceeds F he [] v := by
  refine ⟨_, _, getNextToken_empty h.pending_eq, Or.inl ⟨rfl, Splitter.split_nil _, ?_⟩⟩
  obtain ⟨stream, len, total, off, hmodes⟩ := Terminal.emptyStream_sameModes v.terminal
  refine ⟨Terminal.emptyStream_wf h.wf, ?_, Terminal.emptyStream_pending _, by simp⟩
  simp only [hmodes]
  exact h.encoding_eq

theorem Reading.callText (hF : F.AsciiExact) (h : Reading e (b :: rest) v)
    (hascii : isAsciiText b = true) : Proceeds F he (b :: rest) v := by
  have hsplit := List.takeWhile_append_dropWhile (p := isAsciiText) (l := b :: rest)
  have hne : (b :: rest).takeWhile isAsciiText ≠ [] := by simp [hascii]
  have htext : ∀ c ∈ (b :: rest).takeWhile isAsciiText, isAsciiText c = true :=
    fun c hc => List.mem_takeWhile_imp hc
  have hend := takeWhile_dropWhile isAsciiText (b :: rest)
  have htaken := decodeAsciiString_taken hF (b :: rest)
  have hsegments : v.tokenSegments F =
      ((b :: rest).take ((b :: rest).takeWhile isAsciiText).length).map fun c => .char [c] := by
    simp only [tokenSegments, h.pending_eq, hascii, if_true, htaken]
  generalize (b :: rest).takeWhile isAsciiText = text at hsplit hne htext hsegments
  generalize (b :: rest).dropWhile isAsciiText = more at hsplit hend
  have hpos := List.length_pos_iff.mpr hne
  have hlen : text.length + more.length = (b :: rest).length := by
    rw [← hsplit, List.length_append]
  have hread := h.pass (n := text.length) (by omega)
  rw [← hsplit, List.take_left] at hsegments
  rw [← hsplit, List.drop_left] at hread
  refine ⟨_, _, getNextToken_text hF h.wf hne htext hend (h.pending_eq.trans hsplit.symm),
    Or.inr ⟨rfl, more, by omega, hread, ?_⟩⟩
  rw [hsegments, ← hsplit]
  exact split_text he htext more

theorem Reading.callString (h : Reading e (b :: rest) v) (hascii : isAsciiText b = false)
    (hgate : isString b e = true) : Proceeds F he (b :: rest) v := by
  obtain ⟨tok, v', hnext, hread, hstops⟩ := h.getString (F := F) hascii hgate
  refine ⟨tok, v', hnext, ?_⟩
  have hsegments : v.tokenSegments F =
      stringSegments (stringStep e) (b :: rest).length [] (b :: rest) := by
    simp only [tokenSegments, h.pending_eq, hascii, h.not_control, h.encoding_eq, hgate,
      Bool.false_eq_true, if_false, if_true]
  have hlen := stringLoop_length (stringStep_nil e) (b :: rest).length [] (b :: rest)
  rw [List.length_nil, Nat.zero_add] at hlen
  by_cases hzero : (stringLoop (stringStep e) (b :: rest).length [] (b :: rest)).1.length = 0
  · refine Or.inl ⟨hstops.mpr hzero, ?_, ?_⟩
    · have hstep := stringStep_of_waits he hzero
      exact Splitter.split_none (S := textSplitter he) (frontSegment_stop he hascii hgate hstep)
    · have hsuffix := stringLoop_suffix (stringStep e) (b :: rest).length [] (b :: rest)
      rwa [hsuffix.eq_of_length (by omega)] at hread
  · have hgoes : tok.stops = false := Bool.eq_false_iff.mpr fun hs => hzero (hstops.mp hs)
    refine Or.inr ⟨hgoes, _, by omega, hread, ?_⟩
    rw [hsegments]
    exact split_stringLoop he _ _ _

theorem Reading.callUnknown (h : Reading e (b :: rest) v) (hascii : isAsciiText b = false)
    (hgate : ¬isString b e = true) : Proceeds F he (b :: rest) v := by
  have hread := h.pass (n := 1) (by simp)
  have hsegments : v.tokenSegments F = [.unknown b] := by
    simp only [tokenSegments, h.pending_eq, hascii, h.not_control, h.encoding_eq, hgate,
      Bool.false_eq_true, if_false]
  have hfront : (textSplitter he).next (b :: rest) = some (.unknown b, 1) := by
    show frontSegment e (b :: rest) = _
    simp only [frontSegment, hascii, hgate, Bool.false_eq_true, if_false]
  refine ⟨_, _, h.getUnknown hascii hgate, Or.inr ⟨rfl, rest, by simp, hread, ?_⟩⟩
  rw [hsegments, Splitter.split_some hfront]
  rfl

theorem Reading.call (hF : F.AsciiExact) {bytes : List UInt8} (h : Reading e bytes v) :
    Proceeds F he bytes v := by
  cases bytes with
  | nil => exact h.callEmpty he
  | cons b rest =>
      cases hascii : isAsciiText b with
      | true => exact h.callText he hF hascii
      | false =>
          by_cases hgate : isString b e = true
          · exact h.callString he hascii hgate
          · exact h.callUnknown he hascii hgate

/-- The calls for what is pending find the segments of the text. -/
theorem Reading.readSegments (hF : F.AsciiExact) {bytes : List UInt8} (h : Reading e bytes v)
    {fuel : Nat} (hfuel : bytes.length < fuel) :
    ∃ v', VT100.readSegments F fuel v = .ok (((textSplitter he).split bytes).1, v') ∧
      Reading e ((textSplitter he).split bytes).2 v' := by
  induction fuel generalizing bytes v with
  | zero => omega
  | succ fuel ih =>
      obtain ⟨tok, v₁, hnext, ⟨hstops, hsplit, hread⟩ | ⟨hstops, rest, hlen, hread, hsplit⟩⟩ :=
        h.call he hF
      · refine ⟨v₁, ?_, by rw [hsplit]; exact hread⟩
        simp only [VT100.readSegments, hnext, ok_bind, hstops, if_true, hsplit]
      · obtain ⟨v', hok, hread'⟩ := ih hread (by omega)
        refine ⟨v', ?_, by rw [hsplit]; exact hread'⟩
        simp only [VT100.readSegments, hnext, ok_bind, hstops, Bool.false_eq_true, if_false, hok,
          hsplit]

theorem Reading.feedSegments (hF : F.AsciiExact) {bytes : List UInt8} (h : Reading e bytes v)
    {chunks : List (List UInt8)} (htext : ∀ c ∈ chunks.flatten, 0x20 ≤ c) :
    ∃ v', VT100.feedSegments F chunks v = .ok (((textSplitter he).feed chunks bytes).1, v') := by
  induction chunks generalizing bytes v with
  | nil => exact ⟨v, rfl⟩
  | cons chunk chunks ih =>
      rw [List.flatten_cons] at htext
      obtain ⟨t, hput, hwf, hmodes, hpending⟩ := Terminal.putStreamData_spec h.wf chunk
      have hread : Reading e (bytes ++ chunk) { v with terminal := t } := by
        obtain ⟨stream, len, total, off, rfl⟩ := hmodes
        refine ⟨hwf, h.encoding_eq, by rw [hpending, h.pending_eq], fun c hc => ?_⟩
        rcases List.mem_append.mp hc with hc | hc
        · exact h.text c hc
        · exact htext c (List.mem_append_left _ hc)
      have hfuel : (bytes ++ chunk).length < t.pending.length + 1 := by
        rw [hpending, h.pending_eq]
        omega
      obtain ⟨v₁, hok, hread₁⟩ := hread.readSegments he hF hfuel
      obtain ⟨v', hok'⟩ := ih hread₁ fun c hc => htext c (List.mem_append_right _ hc)
      refine ⟨v', ?_⟩
      simp only [VT100.feedSegments, VT100.putStreamData, hput, ok_bind, hok, hok', Splitter.feed]

end

end VT100

/-! ## Lead bytes at the end of a piece -/

theorem rtakeWhile_cons {α : Type} (p : α → Bool) (b : α) (l : List α) :
    (b :: l).rtakeWhile p = if (∀ c ∈ l, p c = true) ∧ p b = true then b :: l
      else l.rtakeWhile p := by
  split
  · rename_i hall
    exact List.rtakeWhile_eq_self_iff.mpr (by simpa using ⟨hall.2, hall.1⟩)
  · rename_i hsome
    rw [List.rtakeWhile, List.rtakeWhile, List.reverse_cons, List.takeWhile_append]
    split
    · rename_i hlen
      have hall : ∀ c ∈ l, p c = true := by
        have hself := (List.takeWhile_prefix p (l := l.reverse)).eq_of_length hlen
        intro c hc
        have hmem : c ∈ l.reverse.takeWhile p := by
          rw [hself]
          exact List.mem_reverse.mpr hc
        exact List.mem_takeWhile_imp hmem
      have hb : ¬p b = true := fun hb => hsome ⟨hall, hb⟩
      rw [List.takeWhile_cons_of_neg hb, List.append_nil,
        (List.takeWhile_prefix p (l := l.reverse)).eq_of_length hlen]
    · rfl

/-- The lead bytes at the end of the piece can be taken in pairs. -/
def EvenLeads (l : List UInt8) : Prop := (l.rtakeWhile isSjisKanji).length % 2 = 0

instance (l : List UInt8) : Decidable (EvenLeads l) := inferInstanceAs (Decidable (_ = _))

/-- A byte that is no lead byte ends a character. -/
theorem evenLeads_cons {b : UInt8} (hb : ¬isSjisKanji b = true) (l : List UInt8) :
    EvenLeads (b :: l) ↔ EvenLeads l := by
  rw [EvenLeads, EvenLeads, rtakeWhile_cons, if_neg fun h => hb h.2]

theorem evenLeads_pair {b : UInt8} (hb : isSjisKanji b = true) (c : UInt8) (l : List UInt8) :
    EvenLeads (b :: c :: l) ↔ EvenLeads l := by
  by_cases hc : isSjisKanji c = true
  · by_cases hall : ∀ d ∈ l, isSjisKanji d = true
    · have hself : l.rtakeWhile isSjisKanji = l := List.rtakeWhile_eq_self_iff.mpr hall
      rw [EvenLeads, EvenLeads, rtakeWhile_cons, if_pos ⟨by simpa using ⟨hc, hall⟩, hb⟩, hself,
        List.length_cons, List.length_cons, Nat.add_assoc, Nat.add_mod_right]
    · rw [EvenLeads, EvenLeads, rtakeWhile_cons,
        if_neg fun h => hall fun d hd => h.1 d (by simp [hd]), rtakeWhile_cons,
        if_neg fun h => hall h.1]
  · rw [EvenLeads, EvenLeads, rtakeWhile_cons, if_neg fun h => hc (h.1 c (by simp)),
      rtakeWhile_cons, if_neg fun h => hc h.2]

/-- Induction along the characters of a text in Shift-JIS. -/
theorem kanji_induction {P : List UInt8 → Prop} (l : List UInt8) (hnil : P [])
    (hlast : ∀ b, isSjisKanji b = true → P [b])
    (hpair : ∀ b c rest, isSjisKanji b = true → P rest → P (b :: c :: rest))
    (hsingle : ∀ b rest, ¬isSjisKanji b = true → P rest → P (b :: rest)) : P l := by
  suffices hall : ∀ k (l : List UInt8), l.length ≤ k → P l from hall _ l (Nat.le_refl _)
  intro k
  induction k with
  | zero =>
      intro l hk
      obtain rfl : l = [] := List.length_eq_zero_iff.mp (by omega)
      exact hnil
  | succ k ih =>
      intro l hk
      rcases l with - | ⟨b, rest⟩
      · exact hnil
      · rw [List.length_cons] at hk
        by_cases hb : isSjisKanji b = true
        · rcases rest with - | ⟨c, rest⟩
          · exact hlast b hb
          · rw [List.length_cons] at hk
            exact hpair b c rest hb (ih rest (by omega))
        · exact hsingle b rest hb (ih rest (by omega))

section

variable {e : Encoding} (he : isDoubleByte e = true) (hsjis : isSJISEncoding e = true)

include he hsjis

theorem sjis_decodes : Decodes e sjisStep (fun b => 0x80 ≤ b) := by
  rcases decodes_cases he with ⟨hno, -⟩ | ⟨-, hd⟩
  · rw [hsjis] at hno
    cases hno
  · exact hd

theorem frontSegment_lead {b : UInt8} (hb : isSjisKanji b = true) (c : UInt8) (rest : List UInt8) :
    frontSegment e (b :: c :: rest) = some (.char [b, c], 2) := by
  have hstep : stringStep e b (b :: c :: rest) = .take 2 := by
    rw [(sjis_decodes he hsjis).1]
    simp only [sjisStep, hb, List.length_cons, Bool.true_and]
    exact if_pos (by simp)
  exact (frontSegment_take he hstep).trans (by simp)

/-- Every other byte is taken alone, and so is a lead byte with nothing behind it. -/
theorem frontSegment_single {b : UInt8} {rest : List UInt8}
    (hb : isSjisKanji b = true → rest = []) :
    frontSegment e (b :: rest) =
      some (if isAsciiText b || 0x80 ≤ b then .char [b] else .unknown b, 1) := by
  obtain ⟨hstring, hgate⟩ := sjis_decodes he hsjis
  cases hascii : isAsciiText b with
  | true => simp only [frontSegment, hascii, if_true, Bool.true_or]
  | false =>
      by_cases hhigh : 0x80 ≤ b
      · have hstep : stringStep e b (b :: rest) = .take 1 := by
          rw [hstring]
          simp only [sjisStep]
          split
          · rename_i hpair
            simp only [Bool.and_eq_true, decide_eq_true_eq] at hpair
            rw [hb hpair.1] at hpair
            simp at hpair
          · rfl
        rw [frontSegment_take he hstep]
        simp [hhigh]
      · have hno : isString b e = false := by
          rw [hgate]
          exact decide_eq_false hhigh
        simp only [frontSegment, hascii, hno, Bool.false_eq_true, if_false, Bool.false_or,
          decide_eq_true_eq, hhigh]

theorem split_lead {b : UInt8} (hb : isSjisKanji b = true) (c : UInt8) (rest : List UInt8) :
    (textSplitter he).split (b :: c :: rest) =
      (.char [b, c] :: ((textSplitter he).split rest).1, ((textSplitter he).split rest).2) := by
  have hnext : (textSplitter he).next (b :: c :: rest) = some (.char [b, c], 2) :=
    frontSegment_lead he hsjis hb c rest
  exact Splitter.split_some hnext

theorem split_single {b : UInt8} {rest : List UInt8} (hb : isSjisKanji b = true → rest = []) :
    (textSplitter he).split (b :: rest) =
      ((if isAsciiText b || 0x80 ≤ b then .char [b] else .unknown b) ::
        ((textSplitter he).split rest).1, ((textSplitter he).split rest).2) := by
  have hnext : (textSplitter he).next (b :: rest) = _ := frontSegment_single he hsjis hb
  exact Splitter.split_some hnext

theorem sjis_greedy : (textSplitter he).Greedy := by
  intro l
  induction l using kanji_induction with
  | hnil => rw [Splitter.split_nil]
  | hlast b hb => rw [split_single he hsjis fun _ => rfl, Splitter.split_nil]
  | hpair b c rest hb ih => rw [split_lead he hsjis hb, ih]
  | hsingle b rest hb ih => rw [split_single he hsjis fun hyes => absurd hyes hb, ih]

/-- A piece that leaves no lead byte is split as by itself. -/
theorem sjis_fits (a b : List UInt8) (h : EvenLeads a) :
    ((textSplitter he).split (a ++ b)).1 =
      ((textSplitter he).split a).1 ++ ((textSplitter he).split b).1 := by
  induction a using kanji_induction with
  | hnil => rw [Splitter.split_nil, List.nil_append, List.nil_append]
  | hlast c hc =>
      rw [EvenLeads, rtakeWhile_cons, if_pos ⟨by simp, hc⟩] at h
      cases h
  | hpair c d rest hc ih =>
      rw [List.cons_append, List.cons_append, split_lead he hsjis hc, split_lead he hsjis hc,
        ih ((evenLeads_pair hc d rest).mp h), List.cons_append]
  | hsingle c rest hc ih =>
      rw [List.cons_append, split_single he hsjis fun hyes => absurd hyes hc,
        split_single he hsjis fun hyes => absurd hyes hc, ih ((evenLeads_cons hc rest).mp h),
        List.cons_append]

/-- A lead byte that is left is taken alone, though it belongs to what follows. -/
theorem sjis_cuts (a b : List UInt8) (segments : List Segment) (h : ¬EvenLeads a) (hb : b ≠ []) :
    ((textSplitter he).split (a ++ b)).1 ≠ ((textSplitter he).split a).1 ++ segments := by
  induction a using kanji_induction with
  | hnil => exact absurd rfl h
  | hlast c hc =>
      obtain ⟨d, b, rfl⟩ := List.exists_cons_of_ne_nil hb
      rw [List.singleton_append, split_lead he hsjis hc, split_single he hsjis fun _ => rfl]
      intro heq
      have hfirst := (List.cons.inj heq).1
      split at hfirst
      · cases hfirst
      · cases hfirst
  | hpair c d rest hc ih =>
      rw [List.cons_append, List.cons_append, split_lead he hsjis hc, split_lead he hsjis hc,
        List.cons_append]
      intro heq
      exact ih (mt (evenLeads_pair hc d rest).mpr h) (List.cons.inj heq).2
  | hsingle c rest hc ih =>
      rw [List.cons_append, split_single he hsjis fun hyes => absurd hyes hc,
        split_single he hsjis fun hyes => absurd hyes hc, List.cons_append]
      intro heq
      exact ih (mt (evenLeads_cons hc rest).mpr h) (List.cons.inj heq).2

end

/-! ## Any number of pieces -/

namespace VT100

variable {F : Foundation} {v : VT100}

/-- The text is segmented the same whether it comes in pieces or at once, and every
character found in the first pieces is one of the whole text. -/
structure CutIndependent (F : Foundation) (chunks : List (List UInt8)) (v : VT100) : Prop where
  same : ∃ segments v₁ v₂, feedSegments F chunks v = .ok (segments, v₁) ∧
    feedSegments F [chunks.flatten] v = .ok (segments, v₂)
  arrived : ∀ n, ∃ found segments v₁ v₂, feedSegments F (chunks.take n) v = .ok (found, v₁) ∧
    feedSegments F [chunks.flatten] v = .ok (segments, v₂) ∧ found <+: segments

theorem cutIndependent_feed (hF : F.AsciiExact) (he : isDoubleByte v.terminal.encoding = true)
    (h : v.terminal.Wf) (hempty : v.terminal.pending = []) {chunks : List (List UInt8)}
    (htext : ∀ b ∈ chunks.flatten, 0x20 ≤ b) :
    CutIndependent F chunks v ↔ ((textSplitter he).feed chunks []).1 =
      ((textSplitter he).split chunks.flatten).1 := by
  have hread : Reading v.terminal.encoding [] v := ⟨h, rfl, hempty, by simp⟩
  have hfeed : ∀ pieces : List (List UInt8), (∀ b ∈ pieces.flatten, 0x20 ≤ b) →
      ∃ v', feedSegments F pieces v = .ok (((textSplitter he).feed pieces []).1, v') :=
    fun pieces hpieces => hread.feedSegments he hF hpieces
  obtain ⟨v₁, hpieces⟩ := hfeed chunks htext
  obtain ⟨v₂, hwhole⟩ := hfeed [chunks.flatten] (by simpa using htext)
  have hone : ((textSplitter he).feed [chunks.flatten] []).1 =
      ((textSplitter he).split chunks.flatten).1 := by
    simp only [Splitter.feed, List.nil_append, List.append_nil]
  constructor
  · rintro ⟨⟨segments, u₁, u₂, hsame, hsame'⟩, -⟩
    rw [hpieces] at hsame
    rw [hwhole, hone] at hsame'
    have hfound := congrArg Prod.fst (Except.ok.inj hsame)
    have hall := congrArg Prod.fst (Except.ok.inj hsame')
    exact hfound.trans hall.symm
  · intro heq
    rw [hone, ← heq] at hwhole
    refine ⟨⟨_, _, _, hpieces, hwhole⟩, fun n => ?_⟩
    have htake : ∀ b ∈ (chunks.take n).flatten, 0x20 ≤ b := by
      intro b hb
      obtain ⟨chunk, hchunk, hb⟩ := List.mem_flatten.mp hb
      exact htext b (List.mem_flatten.mpr ⟨chunk, List.mem_of_mem_take hchunk, hb⟩)
    obtain ⟨v₃, hsome⟩ := hfeed _ htake
    exact ⟨_, _, _, _, hsome, hwhole, (textSplitter he).feed_take chunks n []⟩

/-- Double-byte text can be cut anywhere, but Shift-JIS not behind a lead byte that is the
first of a character: the lead bytes at the end of a piece that more bytes follow have to be
even in number. -/
theorem cut_independent_iff (hF : F.AsciiExact) (he : isDoubleByte v.terminal.encoding = true)
    (h : v.terminal.Wf) (hempty : v.terminal.pending = []) {chunks : List (List UInt8)}
    (htext : ∀ b ∈ chunks.flatten, 0x20 ≤ b) :
    CutIndependent F chunks v ↔
      (isSJISEncoding v.terminal.encoding = true → Splitter.PiecesFit EvenLeads chunks) := by
  rw [cutIndependent_feed hF he h hempty htext]
  cases hsjis : isSJISEncoding v.terminal.encoding with
  | true =>
      simp only [true_implies]
      exact (sjis_greedy he hsjis).feed_eq_iff (sjis_fits he hsjis) (sjis_cuts he hsjis) chunks
  | false =>
      simp only [Bool.false_eq_true, false_implies, iff_true]
      rw [(textSplitter_stable he hsjis).feed_eq chunks (Splitter.split_nil _), List.nil_append]

/-- Two characters of Shift-JIS, cut between them: no lead byte ends the first piece. -/
theorem sjis_cut_between : ∃ v : VT100, v.terminal = Terminal.init.setEncoding 0x80000a01 ∧
    CutIndependent Foundation.latin1 [[0x82, 0xa0], [0x82, 0xa2]] v := by
  obtain ⟨v, -⟩ := init_fresh ⟨0, 0, 0⟩
  refine ⟨{ v with terminal := Terminal.init.setEncoding 0x80000a01 }, rfl, ?_⟩
  refine (cut_independent_iff Foundation.latin1_asciiExact rfl { Terminal.init_wf with } rfl
    (by simp)).mpr fun _ => ?_
  exact ⟨Or.inr (by decide), Or.inl rfl, trivial⟩

/-- A character of Shift-JIS, cut behind its first byte, which is taken for a character of its
own. -/
theorem sjis_cut_inside : ∃ v : VT100, v.terminal = Terminal.init.setEncoding 0x80000a01 ∧
    v.terminal.Wf ∧ v.terminal.pending = [] ∧
    ¬CutIndependent Foundation.latin1 [[0x82], [0xa0]] v := by
  obtain ⟨v, -⟩ := init_fresh ⟨0, 0, 0⟩
  refine ⟨{ v with terminal := Terminal.init.setEncoding 0x80000a01 }, rfl,
    { Terminal.init_wf with }, rfl, ?_⟩
  have hcut : ¬((textSplitter (e := 0x80000a01) rfl).feed [[0x82], [0xa0]] []).1 =
      ((textSplitter (e := 0x80000a01) rfl).split [0x82, 0xa0]).1 := by decide
  rw [cutIndependent_feed Foundation.latin1_asciiExact rfl { Terminal.init_wf with } rfl (by simp)]
  exact hcut

end VT100

end MobileTerminal
