import MobileTerminal.Chunks
import MobileTerminal.LastSize
import MobileTerminal.MarginsConfine

/-!
# The tokens of a stream

`readInputStream:` finds a token, sets modes and attributes, moves the stream
offset, executes the token and starts again, and what it finds may depend on the
screen. For bytes of ASCII with nothing unusual inside a control sequence
(`Legible`) it does not: the tokens can be written down beforehand (`tokensOf`),
and so can the bytes that are left to wait for more (`unfinished`). Reading the
bytes is executing the tokens (`consume_tokens`).

The lexer is a function of the bytes and of the height of the screen, which is
the default of one parameter; no token changes the height, so it can be fixed at
the start. Each round takes the first token if it is complete, and stops
otherwise.

Two orders have to be exchanged in the proof. The code passes over the bytes of
a token before it executes it, and executing does not look at the stream; the
lexer knows nothing of a stream. `Rest` relates the state that still has the
bytes in front of it to the one that has only executed tokens.
-/

namespace MobileTerminal

/-! ## A lexer -/

/-- The token of a control sequence with these parameters. -/
def csiToken (height : Int) (param : CSIParam) : VT100TCC :=
  if param.cmd = 0xff then { type := .unknownChar }
  else match (if param.question then csiPrivate param else csiCommand height param) with
    | .ok (type, param) => { type := type, csi := param }
    | .error _ => { type := .notSupport }

/-- The token that `bytes` starts with, if it is complete. -/
def firstToken (height : Int) (bytes : List UInt8) : VT100TCC :=
  if isCSI bytes then csiToken height (csiResult bytes).param
  else if (bytes.head?.map isAsciiText).getD false then
    VT100.textToken (bytes.takeWhile isAsciiText)
  else (decodePlain bytes).1

/-- The tokens, and what is left. -/
def lex (height : Int) : Nat → List UInt8 → List VT100TCC × List UInt8
  | 0, bytes => ([], bytes)
  | n + 1, bytes =>
      if tokenLength bytes = 0 then ([], bytes)
      else
        let (toks, rest) := lex height n (bytes.drop (tokenLength bytes))
        (firstToken height bytes :: toks, rest)

def tokensOf (height : Int) (bytes : List UInt8) : List VT100TCC :=
  (lex height bytes.length bytes).1

def unfinished (height : Int) (bytes : List UInt8) : List UInt8 :=
  (lex height bytes.length bytes).2

variable {height : Int} {bytes : List UInt8}

theorem drop_shorter (h : tokenLength bytes ≠ 0) :
    (bytes.drop (tokenLength bytes)).length < bytes.length := by
  have hne : bytes ≠ [] := by
    rintro rfl
    exact h rfl
  have hpos := List.length_pos_iff.mpr hne
  rw [List.length_drop]
  omega

theorem lex_stop (h : tokenLength bytes = 0) (n : Nat) : lex height n bytes = ([], bytes) := by
  cases n with
  | zero => rfl
  | succ n => rw [lex, if_pos h]

/-- Every token takes a byte, so the length is enough. -/
theorem lex_enough {m n : Nat} (hm : bytes.length ≤ m) (hn : bytes.length ≤ n) :
    lex height m bytes = lex height n bytes := by
  induction m generalizing n bytes with
  | zero =>
      obtain rfl : bytes = [] := List.length_eq_zero_iff.mp (Nat.le_zero.mp hm)
      rw [lex_stop rfl, lex_stop rfl]
  | succ m ih =>
      by_cases h0 : tokenLength bytes = 0
      · rw [lex_stop h0, lex_stop h0]
      · have hshort := drop_shorter h0
        obtain ⟨n, rfl⟩ : ∃ k, n = k + 1 := ⟨n - 1, by omega⟩
        rw [lex, lex, if_neg h0, if_neg h0, ih (n := n) (by omega) (by omega)]

theorem lex_step (h : tokenLength bytes ≠ 0) : lex height bytes.length bytes =
    (firstToken height bytes :: tokensOf height (bytes.drop (tokenLength bytes)),
      unfinished height (bytes.drop (tokenLength bytes))) := by
  have hshort := drop_shorter h
  obtain ⟨n, hn⟩ : ∃ n, bytes.length = n + 1 := ⟨bytes.length - 1, by omega⟩
  rw [hn, lex, if_neg h, lex_enough (m := n) (by omega) (Nat.le_refl _)]
  rfl

/-! ## What can be read off the bytes -/

/-- ASCII; inside a control sequence no control character and no locator introducer, and
no more parameters than the table holds. -/
structure Legible (bytes : List UInt8) : Prop where
  ascii : ∀ b ∈ bytes, b < 0x80
  clean : Clean bytes
  few : ∀ rest, TokenAt bytes rest → isCSI rest = true → ¬TooMany rest

theorem Legible.drop (h : Legible bytes) (hn : tokenLength bytes ≠ 0) :
    Legible (bytes.drop (tokenLength bytes)) where
  ascii b hb := h.ascii b (List.mem_of_mem_drop hb)
  clean := h.clean.drop (Nat.pos_of_ne_zero hn)
  few rest hrest := h.few rest (TokenAt.trans (.next .start (Nat.pos_of_ne_zero hn)) hrest)

theorem Legible.step (hascii : ∀ b ∈ bytes, b < 0x80)
    (hinside : isCSI bytes = true → (∀ b ∈ sequenceInside bytes, 0x20 ≤ b ∧ isLocator b = false) ∧
      ¬TooMany bytes)
    (hrest : tokenLength bytes ≠ 0 → Legible (bytes.drop (tokenLength bytes))) :
    Legible bytes := by
  refine ⟨hascii, fun rest hat hcsi => ?_, fun rest hat hcsi => ?_⟩
  · rcases hat.cases_first with rfl | ⟨hn, hat⟩
    · exact (hinside hcsi).1
    · exact (hrest (Nat.pos_iff_ne_zero.mp hn)).clean rest hat hcsi
  · rcases hat.cases_first with rfl | ⟨hn, hat⟩
    · exact (hinside hcsi).2
    · exact (hrest (Nat.pos_iff_ne_zero.mp hn)).few rest hat hcsi

theorem Legible.nil : Legible [] :=
  .step (fun _ hb => by cases hb) (fun hcsi => by cases hcsi) fun hn => absurd rfl hn

theorem tokenLength_csi (hcsi : isCSI bytes = true) (hn : tokenLength bytes ≠ 0) :
    (csiResult bytes).param.cmd ≠ 0 ∧ tokenLength bytes = (csiResult bytes).taken := by
  have hcmd : (csiResult bytes).param.cmd ≠ 0 := by
    intro h0
    exact hn (by rw [tokenLength, if_pos hcsi, if_pos h0])
  exact ⟨hcmd, by rw [tokenLength, if_pos hcsi, if_neg hcmd]⟩

theorem Legible.decoded (h : Legible bytes) (hcsi : isCSI bytes = true)
    (hn : tokenLength bytes ≠ 0) (hff : (csiResult bytes).param.cmd ≠ 0xff) (height : Int) :
    Decoded (if (csiResult bytes).param.question then csiPrivate (csiResult bytes).param
      else csiCommand height (csiResult bytes).param) := by
  obtain ⟨-, hsize, hcount⟩ := csiResult_count hcsi (tokenLength_csi hcsi hn).1 hff
  have hcount := hcount (h.few _ .start hcsi)
  split
  · exact csiPrivate_decoded hsize hcount
  · exact csiCommand_decoded hsize hcount _

/-- What every token of a legible stream has. -/
structure VT100TCC.Proper (tok : VT100TCC) : Prop where
  size : tok.csi.p.size = csiParamMax
  count : tok.csi.count ≤ csiParamMax
  waits : tok.type ≠ .wait

theorem VT100TCC.Proper.of_zero {tok : VT100TCC} (hcsi : tok.csi = CSIParam.zero)
    (hwait : tok.type ≠ .wait) : tok.Proper := by
  refine ⟨?_, ?_, hwait⟩
  · rw [hcsi]
    rfl
  · rw [hcsi]
    decide

theorem firstToken_proper (h : Legible bytes) (hn : tokenLength bytes ≠ 0) (height : Int) :
    (firstToken height bytes).Proper := by
  unfold firstToken
  split
  · rename_i hcsi
    unfold csiToken
    split
    · exact .of_zero rfl (by decide)
    · rename_i hff
      obtain ⟨type, param, hok, hwait, hsize, hcount⟩ := h.decoded hcsi hn hff height
      rw [hok]
      exact ⟨hsize, hcount, hwait⟩
  · rename_i hcsi
    split
    · exact .of_zero rfl TokenType.noConfusion
    · rename_i htext
      refine .of_zero (decodePlain_csi bytes) fun hwait => hn ?_
      rw [tokenLength, if_neg hcsi, if_neg htext, decodePlain_wait hwait]

/-- A control character or sequence that is complete is the first token, and changes
nothing. -/
theorem decodeControl_first {c : UInt8} {cs : List UInt8} (h : Legible (c :: cs)) (hc : c ≤ 0x1f)
    (hn : tokenLength (c :: cs) ≠ 0) (t : Terminal) (s : Screen) :
    decodeControl t (c :: cs) s =
      .ok (firstToken s.height (c :: cs), tokenLength (c :: cs), s) := by
  by_cases hcsi : isCSI (c :: cs) = true
  · obtain ⟨hcmd, hlen⟩ := tokenLength_csi hcsi hn
    have htaken := two_le_csiResult_taken (c :: cs)
    have hnone := embeddedControls_of_clean h.ascii (h.clean _ .start hcsi)
    rw [decodeControl_csi hcsi, decodeCsi, getCSIParam_eq, hnone, firstToken, if_pos hcsi, hlen,
      csiToken]
    simp only [List.foldlM_nil, pure_bind, ok_bind]
    split
    · rfl
    · rename_i hff
      obtain ⟨type, param, hok, -⟩ := h.decoded hcsi hn hff s.height
      rw [if_pos ⟨by omega, Nat.pos_of_ne_zero hcmd⟩, hok]
      rfl
  · have htext : isAsciiText c = false := control_not_text hc
    have hplain := decodeControl_plain hcsi t s
    have hfirst : firstToken s.height (c :: cs) = (decodePlain (c :: cs)).1 := by
      simp [firstToken, hcsi, htext]
    rw [hplain, hfirst, decodeControl_tokenLength htext hplain]

theorem Legible.length_le {c : UInt8} {cs : List UInt8} (h : Legible (c :: cs)) (hc : c ≤ 0x1f) :
    tokenLength (c :: cs) ≤ (c :: cs).length := by
  have htext : isAsciiText c = false := control_not_text hc
  unfold tokenLength
  split
  · rename_i hcsi
    split
    · exact Nat.zero_le _
    · exact (csiResult_taken_iff hcsi).mpr (not_cutLocator_of_clean (h.clean _ .start hcsi))
  · simp only [List.head?_cons, Option.map_some, Option.getD_some, htext]
    exact decodePlain_length _

theorem tokens_proper (h : Legible bytes) (height : Int) :
    ∀ tok ∈ tokensOf height bytes, tok.Proper := by
  generalize hlen : bytes.length = n
  induction n using Nat.strongRecOn generalizing bytes with
  | ind n ih =>
      intro tok htok
      by_cases hn : tokenLength bytes = 0
      · rw [tokensOf, lex_stop hn] at htok
        cases htok
      · have hshort := drop_shorter hn
        rw [tokensOf, lex_step hn] at htok
        rcases List.mem_cons.mp htok with rfl | htok
        · exact firstToken_proper h hn height
        · exact ih _ (by omega) (h.drop hn) rfl tok htok

/-! ## Reading is executing

One round of the token loop against one token of the list, by the kind of the
token; the run is an induction along the bytes. -/

namespace VT100

variable {F : Foundation} {u v v' : VT100} {tok : VT100TCC}

theorem execute_size (hok : execute F v tok = .ok v') : v'.screen.size = v.screen.size := by
  obtain ⟨v₁, h₁, hok⟩ := bind_eq_ok.mp hok
  obtain ⟨v₂, h₂, hok⟩ := bind_eq_ok.mp hok
  rw [processToken_size hok, setCharAttr_screen h₂, setMode_size h₁]

/-- A run of text sets no mode and no attribute. -/
theorem execute_text (F : Foundation) (v : VT100) (text : List UInt8) :
    execute F v (textToken text) = v.processToken F (textToken text) := rfl

/-- What comes after the first token. -/
structure Rest (rest : List UInt8) (u v : VT100) : Prop extends SameState u v where
  left : u.Wf
  right : v.Wf
  pending_eq : v.terminal.pending = rest

theorem SameState.height_eq (h : SameState u v) : v.screen.height = u.screen.height := by
  obtain ⟨d, hd⟩ := h.screen
  rw [hd]

/-- One token: `u` executes it, `v` finds it in front of its stream. -/
theorem consume_first (hF : F.AsciiExact) (h : Rest bytes u v) (hlegible : Legible bytes)
    (hn : tokenLength bytes ≠ 0) {k : VT100 → Res VT100} {R : VT100 → VT100 → Prop}
    (hk : ∀ u₁ v₁, execute F u (firstToken u.screen.height bytes) = .ok u₁ →
      Rest (bytes.drop (tokenLength bytes)) u₁ v₁ → ExceptRel R (k u₁) (v₁.consume F)) :
    ExceptRel R (execute F u (firstToken u.screen.height bytes) >>= k) (v.consume F) := by
  have htotal := Foundation_asciiTotal hF
  obtain ⟨hsame, hu, hv, hp⟩ := h
  cases bytes with
  | nil => exact absurd rfl hn
  | cons c cs =>
      rcases text_or_control (hlegible.ascii c (by simp)) with htext | hctl
      · have hcsi : isCSI (c :: cs) = false := text_isRun.not_csi c cs htext
        have hlen := text_isRun.length_eq c cs htext
        have hfirst : firstToken u.screen.height (c :: cs) =
            textToken ((c :: cs).takeWhile isAsciiText) := by
          simp [firstToken, hcsi, htext]
        have hne : (c :: cs).takeWhile isAsciiText ≠ [] := by
          rw [List.takeWhile_cons_of_pos htext]
          exact List.cons_ne_nil _ _
        have hsplit : v.terminal.pending =
            (c :: cs).takeWhile isAsciiText ++ (c :: cs).dropWhile isAsciiText :=
          hp.trans List.takeWhile_append_dropWhile.symm
        have hle : ((c :: cs).takeWhile isAsciiText).length ≤ v.terminal.pending.length := by
          rw [hsplit, List.length_append]
          omega
        rw [consume_text hF hv hne (fun b hb => List.mem_takeWhile_imp hb)
          (takeWhile_dropWhile _ _) hsplit, hfirst, execute_text]
        rw [hfirst, execute_text, hlen] at hk
        have hpass : SameState u (v.pass ((c :: cs).takeWhile isAsciiText).length) :=
          ⟨hsame.modes.trans ⟨_, _, _, _, rfl⟩, hsame.screen⟩
        refine (hpass.processToken _).bind_ok fun u₁ v₁ h₁ h₁' hsame₁ => ?_
        refine hk u₁ v₁ h₁ ⟨hsame₁, processToken_wf hu h₁,
          processToken_wf (pass_wf hv hle) h₁', ?_⟩
        rw [(processToken_sameStream h₁').pending_eq, pass,
          Terminal.skip_pending hv.terminal hle, hp]
      · have hdecode := decodeControl_first hlegible hctl hn v.terminal v.screen
        rw [hsame.height_eq] at hdecode
        have hwait := (firstToken_proper hlegible hn u.screen.height).waits
        have hstops : (firstToken u.screen.height (c :: cs)).stops = false := by
          simp [VT100TCC.stops, hwait, decodeControl_not_null hdecode]
        have hle := hlegible.length_le hctl
        rw [consume_eq htotal hv, getNextToken_control cs hctl hp, hdecode, execute]
        simp only [bind_assoc, ok_bind]
        refine (hsame.setMode _).bind_ok fun u₁ v₁ h₁ h₁' hmode => ?_
        refine (hmode.setCharAttr _).bind_ok fun u₂ v₂ h₂ h₂' hattr => ?_
        have hwf₂ := setCharAttr_wf (setMode_wf hv h₁') h₂'
        have hp₂ : v₂.terminal.pending = c :: cs := by
          rw [(setCharAttr_sameStream h₂').pending_eq, (setMode_sameStream h₁').pending_eq, hp]
        have hle₂ : tokenLength (c :: cs) ≤ v₂.terminal.pending.length := by
          rw [hp₂]
          exact hle
        rw [advance_eq hwf₂.terminal hle₂]
        simp only [ok_bind, hstops, Bool.false_eq_true, if_false]
        have hpass : SameState u₂ (v₂.pass (tokenLength (c :: cs))) :=
          ⟨hattr.modes.trans ⟨_, _, _, _, rfl⟩, hattr.screen⟩
        refine (hpass.processToken _).bind_ok fun u₃ v₃ h₃ h₃' hsame₃ => ?_
        refine hk u₃ v₃ ?_ ⟨hsame₃, ?_, ?_, ?_⟩
        · rw [execute, h₁, ok_bind, h₂, ok_bind, h₃]
        · exact processToken_wf (setCharAttr_wf (setMode_wf hu h₁) h₂) h₃
        · exact processToken_wf (pass_wf hwf₂ hle₂) h₃'
        · rw [(processToken_sameStream h₃').pending_eq, pass,
            Terminal.skip_pending hwf₂.terminal hle₂, hp₂]

/-- The end of the stream, or a sequence that is not complete. -/
theorem consume_last (hF : F.AsciiTotal) (h : Rest bytes u v) (hlegible : Legible bytes)
    (hn : tokenLength bytes = 0) :
    ∃ v', v.consume F = .ok v' ∧ Rest bytes u v' := by
  obtain ⟨hsame, hu, hv, hp⟩ := h
  cases bytes with
  | nil =>
      obtain ⟨s, hok, hdirty, hwf⟩ := consume_stop hF hv (getNextToken_empty hp) rfl
      refine ⟨_, hok, ⟨?_, hsame.screen.trans hdirty⟩, hu, hwf, Terminal.emptyStream_pending _⟩
      exact hsame.modes.trans (Terminal.emptyStream_sameModes _)
  | cons c cs =>
      rcases text_or_control (hlegible.ascii c (by simp)) with htext | hctl
      · rw [text_isRun.length_eq c cs htext, List.takeWhile_cons_of_pos htext] at hn
        cases hn
      · have hwait : ∀ t s, decodeControl t (c :: cs) s = .ok ({ type := .wait }, 0, s) := by
          by_cases hzero : c = 0
          · subst hzero
            rw [nul_isRun.length_eq 0 cs rfl] at hn
            cases hn
          · by_cases hcsi : isCSI (c :: cs) = true
            · rcases csi_complete_or_wait (b := []) hcsi hlegible.ascii
                (by rw [List.append_nil]; exact hlegible.clean _ .start hcsi) with hdone | ⟨-, hw⟩
              · exact absurd hn (Nat.pos_iff_ne_zero.mp hdone.length_pos)
              · exact hw
            · rcases plain_complete_or_wait [] hzero (control_not_text hctl) hcsi
                with hdone | ⟨-, hw⟩
              · exact absurd hn (Nat.pos_iff_ne_zero.mp hdone.length_pos)
              · exact hw
        obtain ⟨s, hok, hdirty, hwf⟩ :=
          consume_stop hF hv (getNextToken_waits hctl hp (hwait _ _)) rfl
        exact ⟨_, hok, ⟨hsame.modes, hsame.screen.trans hdirty⟩, hu, hwf, hp⟩

/-- Reading a legible stream is executing its tokens. -/
theorem consume_tokens (hF : F.AsciiExact) (h : Rest bytes u v) (hlegible : Legible bytes) :
    ExceptRel (Rest (unfinished u.screen.height bytes))
      ((tokensOf u.screen.height bytes).foldlM (execute F) u) (v.consume F) := by
  generalize hlen : bytes.length = n
  induction n using Nat.strongRecOn generalizing bytes u v with
  | ind n ih =>
      by_cases hn : tokenLength bytes = 0
      · obtain ⟨v', hok, hrest⟩ := consume_last (Foundation_asciiTotal hF) h hlegible hn
        rw [tokensOf, unfinished, lex_stop hn, hok]
        exact hrest
      · have hshort := drop_shorter hn
        rw [tokensOf, unfinished, lex_step hn, List.foldlM_cons]
        refine consume_first hF h hlegible hn fun u₁ v₁ h₁ hrest => ?_
        have hheight : u₁.screen.height = u.screen.height := congrArg Prod.snd (execute_size h₁)
        have hnext := ih _ (by omega) hrest (hlegible.drop hn) rfl
        rwa [hheight] at hnext

/-- The same for a call of `readInputStream:` on an object that waits for nothing. -/
theorem readInputStream_tokens (hF : F.AsciiExact) (h : v.Wf) (hempty : v.terminal.pending = [])
    (hlegible : Legible bytes) :
    ExceptRel (Rest (unfinished v.screen.height bytes))
      ((tokensOf v.screen.height bytes).foldlM (execute F) v) (v.readInputStream F bytes) := by
  obtain ⟨t, hread, hwf, hmodes, hp⟩ := readInputStream_eq (F := F) h bytes
  rw [hread]
  refine consume_tokens hF ⟨⟨hmodes, .refl _⟩, h, ⟨hwf, h.screen⟩, ?_⟩ hlegible
  rw [hp, hempty, List.nil_append]

end VT100

end MobileTerminal
