import Mathlib.Data.List.Chain
import MobileTerminal.Tokens

/-!
# What a program writes

A program prints text, control characters and control sequences one after the
other, and nothing in the stream says where one ends and the next begins.
`written` is such a stream. Reading it finds the same pieces again
(`lex_written`); only texts that follow each other are read as one (`merge`).

A piece is well formed when it is what its name says: a text has characters of
text only, a sequence has parameters of digits and a final byte. Then each kind
of piece ends where it should whatever follows it, a control character after its
byte and a sequence with its final byte, and a text ends because no text follows
it (`Apart`). `Found` states this for one piece with any bytes behind it, and
the stream is an induction over the pieces.

Any list of pieces can be merged into one without texts in a row, with the same
bytes (`written_merge`). `foldl_merge` is the rule with which the other modules
get rid of the merging again.
-/

namespace MobileTerminal

inductive Piece where
  | text (bytes : List UInt8)
  /-- a control character, or an escape sequence of two or three bytes -/
  | control (c : UInt8) (cs : List UInt8)
  | sequence (pre : List UInt8) (params : List (List UInt8)) (final : UInt8)
deriving DecidableEq, Repr

namespace Piece

def bytes : Piece → List UInt8
  | text bytes => bytes
  | control c cs => c :: cs
  | sequence pre params final => csiSequence pre params final

/-- What the pieces say by themselves. -/
def token (height : Int) : Piece → VT100TCC
  | text bytes => VT100.textToken bytes
  | control c cs => (decodePlain (c :: cs)).1
  | sequence pre params final => csiToken height (csiResult (csiSequence pre params final)).param

def WellFormed : Piece → Prop
  | text bytes => bytes ≠ [] ∧ ∀ b ∈ bytes, isAsciiText b = true
  | control c cs => (c ≤ 0x1f ∧ c ≠ 0) ∧ isCSI (c :: cs) = false ∧ (∀ b ∈ cs, b < 0x80) ∧
      (decodePlain (c :: cs)).2 = (c :: cs).length
  | sequence pre params final => IsPrefix pre ∧ IsParams params ∧ params.length ≤ 16 ∧
      isFinal final = true

instance : ∀ p : Piece, Decidable p.WellFormed
  | text bytes => inferInstanceAs (Decidable (bytes ≠ [] ∧ ∀ b ∈ bytes, isAsciiText b = true))
  | control c cs => inferInstanceAs (Decidable ((c ≤ 0x1f ∧ c ≠ 0) ∧ isCSI (c :: cs) = false ∧
      (∀ b ∈ cs, b < 0x80) ∧ (decodePlain (c :: cs)).2 = (c :: cs).length))
  | sequence pre params final =>
      inferInstanceAs (Decidable ((pre = [] ∨ pre = [0x3f] ∨ pre = [0x3e]) ∧
        (∀ p ∈ params, ∀ b ∈ p, isDigit b = true) ∧ params.length ≤ 16 ∧ isFinal final = true))

def isText : Piece → Bool
  | text _ => true
  | _ => false

end Piece

def written (pieces : List Piece) : List UInt8 := pieces.flatMap Piece.bytes

theorem written_append (pieces pieces' : List Piece) :
    written (pieces ++ pieces') = written pieces ++ written pieces' := List.flatMap_append

def Apart : List Piece → Prop := List.IsChain fun p q => ¬(p.isText = true ∧ q.isText = true)

/-! ## One piece -/

theorem isCSI_csiSequence (pre : List UInt8) (params : List (List UInt8)) (final : UInt8)
    (rest : List UInt8) : isCSI (csiSequence pre params final ++ rest) = true := rfl

theorem digit_inside {b : UInt8} (h : isDigit b = true) :
    (0x20 ≤ b ∧ isLocator b = false) ∧ b < 0x80 := by
  simp only [isDigit, Bool.and_eq_true, decide_eq_true_eq, UInt8.le_iff_toNat_le,
    UInt8.reduceToNat] at h
  simp only [UInt8.le_iff_toNat_le, UInt8.lt_iff_toNat_lt, isLocator, Bool.or_eq_false_iff,
    decide_eq_false_iff_not, ← UInt8.toNat_inj, UInt8.reduceToNat]
  omega

theorem final_outside {b : UInt8} (h : isFinal b = true) : isLocator b = false ∧ b < 0x80 := by
  simp only [isFinal, isAlpha, Bool.or_eq_true, Bool.and_eq_true, decide_eq_true_eq,
    UInt8.le_iff_toNat_le, ← UInt8.toNat_inj, UInt8.reduceToNat] at h
  simp only [UInt8.lt_iff_toNat_lt, isLocator, Bool.or_eq_false_iff,
    decide_eq_false_iff_not, ← UInt8.toNat_inj, UInt8.reduceToNat]
  omega

theorem joinParams_inside {params : List (List UInt8)} (hp : IsParams params) {b : UInt8}
    (hb : b ∈ joinParams params) : (0x20 ≤ b ∧ isLocator b = false) ∧ b < 0x80 := by
  rcases mem_joinParams hb with ⟨p, hmem, hb⟩ | rfl
  · exact digit_inside (hp p hmem b hb)
  · decide

/-- The scan of a sequence looks at its parameters. -/
theorem sequenceInside_sequence {pre : List UInt8} (hpre : IsPrefix pre)
    {params : List (List UInt8)} (hp : IsParams params) {final : UInt8}
    (hf : isFinal final = true) (rest : List UInt8) :
    ∀ b ∈ sequenceInside (csiSequence pre params final ++ rest),
      0x20 ≤ b ∧ isLocator b = false := by
  intro b hb
  rw [sequenceInside, csiPrefix_sequence hpre hp.no_prefix hf rest, csiInside_append,
    List.mem_append] at hb
  rcases hb with hb | hb
  · exact (joinParams_inside hp (mem_of_mem_csiInside hb)).1
  · -- the final byte ends the scan
    rw [csiInside] at hb
    split at hb
    · cases hb
    · rename_i hrun
      rw [CsiState.step_final _ (Bool.eq_false_of_not_eq_true hrun) hf,
        (final_outside hf).1] at hb
      cases hb

theorem csiResult_taken {pre : List UInt8} (hpre : IsPrefix pre) {params : List (List UInt8)}
    (hp : IsParams params) (hlen : params.length ≤ 16) {final : UInt8} (hf : isFinal final = true)
    (rest : List UInt8) :
    (csiResult (csiSequence pre params final ++ rest)).taken =
      (csiSequence pre params final).length := by
  have hmax : csiParamMax = 16 := rfl
  have hprefix := csiPrefix_sequence hpre hp.no_prefix hf rest
  obtain ⟨hdone, -⟩ := csiScan_few (csiStart_ready (csiSequence pre params final ++ rest))
    (Int.le_refl 0) (by omega) hp (by omega) hf rest
  have hstart : (csiStart (csiSequence pre params final ++ rest)).taken = 2 + pre.length := by
    rw [csiStart, CsiState.start, hprefix]
  rw [csiResult, CsiState.commit_taken, hprefix, hdone.taken_eq, hstart]
  simp only [csiSequence, List.length_cons, List.length_append, List.length_nil]
  omega

/-- What reading finds at the start of `p.bytes ++ rest`. -/
structure Found (height : Int) (p : Piece) (rest : List UInt8) : Prop where
  length_eq : tokenLength (p.bytes ++ rest) = p.bytes.length
  token_eq : firstToken height (p.bytes ++ rest) = p.token height
  ascii : ∀ b ∈ p.bytes, b < 0x80
  inside : isCSI (p.bytes ++ rest) = true →
    (∀ b ∈ sequenceInside (p.bytes ++ rest), 0x20 ≤ b ∧ isLocator b = false) ∧
      ¬TooMany (p.bytes ++ rest)
  bytes_ne : p.bytes ≠ []

variable {height : Int} {rest : List UInt8}

theorem found_text {bytes : List UInt8} (h : (Piece.text bytes).WellFormed)
    (hrest : rest.takeWhile isAsciiText = []) : Found height (.text bytes) rest := by
  obtain ⟨hne, htext⟩ := h
  obtain ⟨b, bs, rfl⟩ := List.exists_cons_of_ne_nil hne
  have hb : isAsciiText b = true := htext b List.mem_cons_self
  have hcsi : isCSI (b :: bs ++ rest) = false := text_isRun.not_csi b (bs ++ rest) hb
  refine ⟨?_, ?_, fun c hc => ?_, fun h => ?_, hne⟩
  · rw [Piece.bytes, text_isRun.tokenLength_append hne htext, hrest]
    rfl
  · rw [Piece.bytes, firstToken, hcsi, if_neg Bool.false_ne_true, List.cons_append, List.head?_cons,
      Option.map_some, Option.getD_some, if_pos hb, ← List.cons_append,
      List.takeWhile_append_of_pos htext, hrest, List.append_nil]
    rfl
  · have hc := htext c hc
    simp only [isAsciiText, Bool.and_eq_true, decide_eq_true_eq, UInt8.le_iff_toNat_le,
      UInt8.reduceToNat] at hc
    simp only [UInt8.lt_iff_toNat_lt, UInt8.reduceToNat]
    omega
  · rw [Piece.bytes, hcsi] at h
    cases h

theorem found_control {c : UInt8} {cs : List UInt8} (h : (Piece.control c cs).WellFormed)
    (rest : List UInt8) : Found height (.control c cs) rest := by
  obtain ⟨⟨hc, hne⟩, hcsi, hascii, hlen⟩ := h
  have hwait : (decodePlain (c :: cs)).1.type ≠ .wait := by
    intro hwait
    rw [decodePlain_wait hwait] at hlen
    cases hlen
  obtain ⟨hcsi', hplain⟩ := decodePlain_append hne (by rw [hcsi]; decide) hwait rest
  have htext : ¬((c :: cs ++ rest).head?.map isAsciiText).getD false = true := by
    rw [List.cons_append, List.head?_cons, Option.map_some, Option.getD_some, control_not_text hc]
    decide
  refine ⟨?_, ?_, fun b hb => ?_, fun h => absurd h hcsi', List.cons_ne_nil c cs⟩
  · rw [Piece.bytes, tokenLength, if_neg hcsi', if_neg htext, hplain, hlen]
  · rw [Piece.bytes, firstToken, if_neg hcsi', if_neg htext, hplain]
    rfl
  · rcases List.mem_cons.mp hb with rfl | hb
    · exact UInt8.lt_of_le_of_lt hc (by decide)
    · exact hascii b hb

theorem found_sequence {pre : List UInt8} {params : List (List UInt8)} {final : UInt8}
    (h : (Piece.sequence pre params final).WellFormed) (rest : List UInt8) :
    Found height (.sequence pre params final) rest := by
  obtain ⟨hpre, hp, hlen, hf⟩ := h
  have hcsi := isCSI_csiSequence pre params final rest
  obtain ⟨hcmd, -, hcount⟩ := VT100.csiResult_few hpre hp hf hlen rest
  have hpos : (csiResult (csiSequence pre params final ++ rest)).param.cmd ≠ 0 := by
    rw [hcmd]
    intro h0
    simp only [isFinal, isAlpha, Bool.or_eq_true, Bool.and_eq_true, decide_eq_true_eq,
      UInt8.le_iff_toNat_le, ← UInt8.toNat_inj, UInt8.reduceToNat] at hf
    omega
  have halone := csiResult_append (q := csiSequence pre params final)
    (by simpa using isCSI_csiSequence pre params final []) (by
      have h0 := (VT100.csiResult_few hpre hp hf hlen []).1
      rw [List.append_nil] at h0
      rwa [h0, ← hcmd]) rest
  refine ⟨?_, ?_, fun b hb => ?_, fun _ => ⟨sequenceInside_sequence hpre hp hf rest, ?_⟩, ?_⟩
  · rw [Piece.bytes, tokenLength, if_pos hcsi, if_neg hpos, csiResult_taken hpre hp hlen hf]
  · rw [Piece.bytes, firstToken, if_pos hcsi, halone.1]
    rfl
  · simp only [Piece.bytes, csiSequence, List.mem_cons, List.mem_append, List.not_mem_nil,
      or_false] at hb
    rcases hb with rfl | rfl | hb | hb | rfl
    · decide
    · decide
    · rcases hpre with rfl | rfl | rfl
      · cases hb
      · rw [List.mem_singleton.mp hb]
        decide
      · rw [List.mem_singleton.mp hb]
        decide
    · exact (joinParams_inside hp hb).2
    · exact (final_outside hf).2
  · intro hmany
    exact absurd hmany.result.2.2 (Int.not_lt.mpr hcount)
  · exact List.cons_ne_nil _ _

theorem found {p : Piece} (h : p.WellFormed)
    (hrest : p.isText = true → rest.takeWhile isAsciiText = []) : Found height p rest := by
  cases p with
  | text bytes => exact found_text h (hrest rfl)
  | control c cs => exact found_control h rest
  | sequence pre params final => exact found_sequence h rest

/-! ## Whole streams -/

theorem takeWhile_written {p : Piece} {pieces : List Piece} (hp : p.isText = true)
    (hwell : ∀ q ∈ pieces, q.WellFormed) (happart : Apart (p :: pieces)) :
    (written pieces).takeWhile isAsciiText = [] := by
  cases pieces with
  | nil => rfl
  | cons q pieces =>
      have hq : q.isText = false := by
        have := (List.isChain_cons_cons.mp happart).1
        simpa [hp] using this
      have hwell := hwell q List.mem_cons_self
      cases q with
      | text bytes => cases hq
      | control c cs =>
          rw [written, List.flatMap_cons, Piece.bytes, List.cons_append, List.takeWhile_cons,
            control_not_text hwell.1.1]
          rfl
      | sequence pre params final => rfl

theorem lex_written {pieces : List Piece} (hwell : ∀ p ∈ pieces, p.WellFormed)
    (happart : Apart pieces) :
    tokensOf height (written pieces) = pieces.map (Piece.token height) ∧
      unfinished height (written pieces) = [] ∧ Legible (written pieces) := by
  induction pieces with
  | nil => exact ⟨rfl, rfl, .nil⟩
  | cons p pieces ih =>
      obtain ⟨htokens, hrest, hlegible⟩ :=
        ih (fun q hq => hwell q (List.mem_cons_of_mem p hq)) happart.of_cons
      have hf : Found height p (written pieces) := found (hwell p List.mem_cons_self) fun hp =>
        takeWhile_written hp (fun q hq => hwell q (List.mem_cons_of_mem p hq)) happart
      have hsplit : written (p :: pieces) = p.bytes ++ written pieces := List.flatMap_cons
      have hpos : tokenLength (p.bytes ++ written pieces) ≠ 0 := by
        rw [hf.length_eq]
        exact mt List.length_eq_zero_iff.mp hf.bytes_ne
      have hdrop : (p.bytes ++ written pieces).drop (tokenLength (p.bytes ++ written pieces)) =
          written pieces := by
        rw [hf.length_eq, List.drop_left]
      have hstep := @lex_step height _ hpos
      rw [hdrop, hf.token_eq] at hstep
      rw [hsplit]
      refine ⟨?_, ?_, .step (fun b hb => ?_) hf.inside fun _ => by rwa [hdrop]⟩
      · rw [tokensOf, hstep, List.map_cons, htokens]
      · rw [unfinished, hstep, hrest]
      · rcases List.mem_append.mp hb with hb | hb
        · exact hf.ascii b hb
        · exact hlegible.ascii b hb

/-! ## Texts that follow each other

Joining texts changes the pieces and not the bytes, so every stream is one in
which no text follows a text. -/

/-- A piece in front of others; a text is joined to the text it precedes. -/
def Piece.before : Piece → List Piece → List Piece
  | .text a, .text b :: rest => .text (a ++ b) :: rest
  | p, rest => p :: rest

def merge (pieces : List Piece) : List Piece := pieces.foldr Piece.before []

theorem Piece.before_cases (p : Piece) (rest : List Piece) :
    (∃ a b rest', p = .text a ∧ rest = .text b :: rest' ∧
        p.before rest = .text (a ++ b) :: rest') ∨
      p.before rest = p :: rest ∧
        ∀ q ∈ rest.head?, ¬(p.isText = true ∧ q.isText = true) := by
  cases p with
  | text a =>
      cases rest with
      | nil => exact .inr ⟨rfl, fun q hq => by cases hq⟩
      | cons q rest =>
          cases q with
          | text b => exact .inl ⟨a, b, rest, rfl, rfl, rfl⟩
          | control c cs => exact .inr ⟨rfl, fun q hq => by cases hq; exact fun h => by cases h.2⟩
          | sequence pre params final =>
              exact .inr ⟨rfl, fun q hq => by cases hq; exact fun h => by cases h.2⟩
  | control c cs => exact .inr ⟨rfl, fun q _ h => by cases h.1⟩
  | sequence pre params final => exact .inr ⟨rfl, fun q _ h => by cases h.1⟩

theorem written_merge (pieces : List Piece) : written (merge pieces) = written pieces := by
  induction pieces with
  | nil => rfl
  | cons p pieces ih =>
      rw [merge, List.foldr_cons, written, written, List.flatMap_cons, ← written, ← written, ← ih]
      rcases p.before_cases (merge pieces) with ⟨a, b, rest, rfl, hrest, hbefore⟩ | ⟨hbefore, -⟩
      · rw [← merge, hbefore, hrest]
        exact List.append_assoc a b _
      · rw [← merge, hbefore]
        rfl

theorem merge_apart (pieces : List Piece) : Apart (merge pieces) := by
  induction pieces with
  | nil => exact List.IsChain.nil
  | cons p pieces ih =>
      rw [merge, List.foldr_cons, ← merge]
      rcases p.before_cases (merge pieces) with ⟨a, b, rest, rfl, hrest, hbefore⟩ | ⟨hbefore, hne⟩
      · rw [hbefore]
        rw [hrest, Apart, List.isChain_cons] at ih
        exact List.isChain_cons.mpr ih
      · rw [hbefore]
        exact List.isChain_cons.mpr ⟨hne, ih⟩

/-- What holds of pieces holds of the merged ones, when it holds of joined texts. -/
theorem merge_mem {P : Piece → Prop} {pieces : List Piece}
    (hjoin : ∀ a b, P (.text a) → P (.text b) → P (.text (a ++ b))) (h : ∀ p ∈ pieces, P p) :
    ∀ p ∈ merge pieces, P p := by
  induction pieces with
  | nil => exact h
  | cons p pieces ih =>
      have hrest := ih fun q hq => h q (List.mem_cons_of_mem p hq)
      have hp := h p List.mem_cons_self
      rw [merge, List.foldr_cons, ← merge]
      rcases p.before_cases (merge pieces) with ⟨a, b, rest, rfl, heq, hbefore⟩ | ⟨hbefore, -⟩
      · rw [hbefore]
        rw [heq, List.forall_mem_cons] at hrest
        exact List.forall_mem_cons.mpr ⟨hjoin a b hp hrest.1, hrest.2⟩
      · rw [hbefore]
        exact List.forall_mem_cons.mpr ⟨hp, hrest⟩

theorem merge_wellFormed {pieces : List Piece} (h : ∀ p ∈ pieces, p.WellFormed) :
    ∀ p ∈ merge pieces, p.WellFormed :=
  merge_mem (fun _ b ha hb => ⟨List.append_ne_nil_of_left_ne_nil ha.1 b,
    List.forall_mem_append.mpr ⟨ha.2, hb.2⟩⟩) h

/-- A fold does not see that texts are merged, when it takes two texts as it takes the
joined one. -/
theorem foldl_merge {σ : Type} {f : σ → Piece → σ} {pieces : List Piece}
    (hjoin : ∀ s a b, (Piece.text a).WellFormed → (Piece.text b).WellFormed →
      f s (.text (a ++ b)) = f (f s (.text a)) (.text b))
    (hwell : ∀ p ∈ pieces, p.WellFormed) (s : σ) :
    (merge pieces).foldl f s = pieces.foldl f s := by
  induction pieces generalizing s with
  | nil => rfl
  | cons p pieces ih =>
      have hrest := fun q hq => hwell q (List.mem_cons_of_mem p hq)
      have hmerged := merge_wellFormed hrest
      rw [merge, List.foldr_cons, ← merge, List.foldl_cons, ← ih hrest]
      rcases p.before_cases (merge pieces) with ⟨a, b, rest, rfl, heq, hbefore⟩ | ⟨hbefore, -⟩
      · rw [heq, List.forall_mem_cons] at hmerged
        rw [hbefore, heq, List.foldl_cons, List.foldl_cons,
          hjoin s a b (hwell _ List.mem_cons_self) hmerged.1]
      · rw [hbefore, List.foldl_cons]

/-- Whatever is written can be read. -/
theorem legible_written {pieces : List Piece} (hwell : ∀ p ∈ pieces, p.WellFormed) :
    Legible (written pieces) := by
  obtain ⟨-, -, hlegible⟩ := @lex_written 0 _ (merge_wellFormed hwell) (merge_apart pieces)
  rwa [written_merge] at hlegible

end MobileTerminal
