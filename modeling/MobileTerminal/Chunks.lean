import MobileTerminal.Alike
import MobileTerminal.CsiTable

/-!
# Input in pieces

Bytes arrive in arbitrary pieces, and `readInputStream:` is called with each of
them. For bytes of ASCII it makes no difference where they are cut
(`chunks_independent`), as long as no control character and no locator
introducer stands inside a control sequence. Both conditions are needed: a
control character inside a sequence is executed each time the sequence is
scanned, so once more after each cut, and behind a locator introducer the scan
takes a byte that has not come.

Three things can happen to a token at a cut. A decoder that has found its token
before the cut finds the same token when more bytes follow (`Complete`). A
decoder that waits has done nothing, and starts over when the rest has come
(`getNextToken_waits`). And a run of text or of NULs, which has no end of its
own, becomes two runs with the same effect as one (`Joins.text`, `Joins.nul`).

`Joins` is the induction hypothesis for all of them: receiving `b` after
everything else has been taken is as good as having had it from the start. The
induction follows the tokens of the first piece. The states that are compared
are `Alike`, since the dirty flags and the place of the pending bytes do depend
on the cuts.
-/

namespace MobileTerminal

namespace VT100

variable {F : Foundation} {v v' : VT100}

/-! ## The token loop without its counter -/

/-- The token loop on what is pending. -/
def consume (F : Foundation) (v : VT100) : Res VT100 :=
  tokenLoop F (v.terminal.pending.length + 1) v

/-- A token that does not stop the loop has taken a byte. -/
theorem shorter_of_token (hF : F.AsciiTotal) (h : v.Wf) {tok : VT100TCC} {v₁ v₂ : VT100}
    (hnext : v.getNextToken F = .ok (tok, v₁)) (hstops : ¬tok.stops = true)
    (hput : v₁.processToken F tok = .ok v₂) :
    v₂.terminal.pending.length < v.terminal.pending.length := by
  have hne : v.terminal.pending ≠ [] := by
    intro hp
    rw [getNextToken, hp] at hnext
    cases hnext
    exact hstops rfl
  rcases getNextToken_advanced hF hne hnext with hwait | ⟨hlt, heq, -⟩
  · simp [VT100TCC.stops, hwait] at hstops
  · have hlen := Terminal.pending_length h.terminal
    have hlen₁ := Terminal.pending_length (getNextToken_wf h hnext).terminal
    rw [(processToken_sameStream hput).pending_eq]
    omega

theorem tokenLoop_enough (hF : F.AsciiTotal) (h : v.Wf) {fuel fuel' : Nat}
    (hfuel : v.terminal.pending.length < fuel) (hfuel' : v.terminal.pending.length < fuel') :
    tokenLoop F fuel v = tokenLoop F fuel' v := by
  induction fuel generalizing v fuel' with
  | zero => omega
  | succ fuel ih =>
      obtain ⟨fuel', rfl⟩ : ∃ k, fuel' = k + 1 := ⟨fuel' - 1, by omega⟩
      refine bind_congr_ok fun p hnext => ?_
      obtain ⟨tok, v₁⟩ := p
      by_cases hstops : tok.stops = true
      · simp only [hstops, if_true]
      · simp only [hstops]
        refine bind_congr_ok fun v₂ hput => ?_
        have hshorter := shorter_of_token hF h hnext hstops hput
        exact ih (processToken_wf (getNextToken_wf h hnext) hput) (by omega) (by omega)

theorem consume_eq (hF : F.AsciiTotal) (h : v.Wf) :
    v.consume F = (do
      let (tok, v) ← v.getNextToken F
      if tok.stops then v.refresh
      else do
        let v ← v.processToken F tok
        v.consume F) := by
  rw [consume, tokenLoop]
  refine bind_congr_ok fun p hnext => ?_
  obtain ⟨tok, v₁⟩ := p
  by_cases hstops : tok.stops = true
  · simp only [hstops, if_true]
  · simp only [hstops]
    refine bind_congr_ok fun v₂ hput => ?_
    have hshorter := shorter_of_token hF h hnext hstops hput
    exact tokenLoop_enough hF (processToken_wf (getNextToken_wf h hnext) hput) hshorter
      (Nat.lt_succ_self _)

theorem Alike.consume (h : Alike v v') (hw : v.Wf) (hw' : v'.Wf) :
    ExceptRel Alike (v.consume F) (v'.consume F) := by
  rw [VT100.consume, VT100.consume, h.pending_eq]
  exact h.tokenLoop hw hw' _

end VT100

/-! ## A string is its pieces -/

namespace Screen

variable {F : Foundation} {t : Terminal} {s s' s'' : Screen}

/-- What decides where and how a string is printed. -/
structure SamePrinter (s s' : Screen) : Prop where
  charset_eq : s'.charset = s.charset
  print_eq : s'.printToAnsi = s.printToAnsi

theorem SamePrinter.refl (s : Screen) : SamePrinter s s := ⟨rfl, rfl⟩

theorem SamePrinter.trans (h : SamePrinter s s') (h' : SamePrinter s' s'') : SamePrinter s s'' :=
  ⟨h'.charset_eq.trans h.charset_eq, h'.print_eq.trans h.print_eq⟩

theorem Draws.samePrinter (hd : Draws s s') : SamePrinter s s' := by
  obtain ⟨⟨b, d, line, fg, bg, w, -, -, rfl⟩, -⟩ := hd
  exact ⟨rfl, rfl⟩

theorem addLineToScrollback_samePrinter (s : Screen) : SamePrinter s s.addLineToScrollback.2 := by
  unfold addLineToScrollback
  split
  · simp only
    split
    · split <;> exact ⟨rfl, rfl⟩
    · exact ⟨rfl, rfl⟩
  · exact .refl s

theorem keepTopLine_samePrinter (hok : s.keepTopLine = .ok s') : SamePrinter s s' := by
  have hadd := addLineToScrollback_samePrinter s
  unfold keepTopLine at hok
  split at hok
  · simp only at hok
    split at hok
    · exact hadd.trans (setDirty_draws hok).samePrinter
    · obtain ⟨d, hmove, hok⟩ := bind_eq_ok.mp hok
      exact hadd.trans ((Draws.dirty (move_size hmove)).trans (dirtyFill_draws hok)).samePrinter
  · exact (setDirty_draws hok).samePrinter

theorem setNewLine_samePrinter (hok : s.setNewLine t = .ok s') : SamePrinter s s' := by
  unfold setNewLine at hok
  split at hok
  · cases hok
    simp only
    split <;> exact ⟨rfl, rfl⟩
  · split at hok
    · obtain ⟨s₁, h₁, hok⟩ := bind_eq_ok.mp hok
      obtain ⟨line, -, hok⟩ := bind_eq_ok.mp hok
      obtain ⟨hcharset, hprint⟩ := (setDefaultLine_draws hok).samePrinter
      exact (keepTopLine_samePrinter h₁).trans ⟨hcharset, hprint⟩
    · obtain ⟨-, -, hok⟩ := bind_eq_ok.mp hok
      exact (scrollUpRegion_draws hok).samePrinter

theorem putCell_samePrinter {c : ScreenChar} (hok : s.putCell t c = .ok s') : SamePrinter s s' := by
  obtain ⟨-, hd⟩ | ⟨-, s₁, hd, hnl⟩ := putCell_cases hok
  · obtain ⟨hcharset, hprint⟩ := hd.samePrinter
    exact ⟨hcharset, hprint⟩
  · obtain ⟨hcharset, hprint⟩ := hd.samePrinter
    exact SamePrinter.trans ⟨hcharset, hprint⟩ (setNewLine_samePrinter hnl)

theorem setString_append {a b : List UniChar} (ha : a ≠ []) (hb : b ≠ []) :
    s.setString F t (a ++ b) true =
      s.setString F t a true >>= fun s => s.setString F t b true := by
  have hlen : ∀ l : List UniChar, l ≠ [] → ¬l.length < 1 := by
    intro l hl
    have := List.length_pos_iff.mpr hl
    omega
  simp only [setString, stringCells, if_true, hlen (a ++ b) (by simp [ha]), hlen a ha, hlen b hb,
    if_false, bind_assoc, ok_bind]
  refine bind_congr_ok fun graphics hgraphics => ?_
  rw [show (if graphics then (a ++ b).map charmap else a ++ b) =
      (if graphics then a.map charmap else a) ++ (if graphics then b.map charmap else b) by
    split <;> simp, List.map_append, List.foldlM_append]
  refine bind_congr_ok fun s₁ h₁ => ?_
  have hsame : SamePrinter s s₁ := foldlM_inv (P := SamePrinter s)
    (fun _ _ _ hI hs => hI.trans (putCell_samePrinter hs)) (.refl s) h₁
  rw [hsame.charset_eq, hgraphics, ok_bind]

theorem putString_append {a b : List UniChar} (ha : a ≠ []) (hb : b ≠ []) :
    s.putString F t (a ++ b) true =
      s.putString F t a true >>= fun s => s.putString F t b true := by
  by_cases hprint : s.printToAnsi = true
  · have hpos : ∀ l : List UniChar, l ≠ [] → l.length > 0 := fun l hl => List.length_pos_iff.mpr hl
    simp only [putString, hprint, if_true, ok_bind, printStringToAnsi, hpos (a ++ b) (by simp [ha]),
      hpos a ha, hpos b hb]
    cases s.printToAnsiString <;> simp
  · have hoff : s.printToAnsi = false := by simpa using hprint
    simp only [putString, hoff, setString_append ha hb, Bool.false_eq_true, if_false]
    refine bind_congr_ok fun s₁ h₁ => ?_
    have hsame : SamePrinter s s₁ := by
      unfold setString at h₁
      split at h₁
      · cases h₁
        exact .refl s
      · obtain ⟨cells, -, h₁⟩ := bind_eq_ok.mp h₁
        exact foldlM_inv (P := SamePrinter s)
          (fun _ _ _ hI hs => hI.trans (putCell_samePrinter hs)) (.refl s) h₁
    rw [hsame.print_eq, hoff]
    simp

end Screen

/-! ## The bytes of a token -/

/-- The bytes a scan passes before the one at which it stops. A locator introducer
does not stop it: one more byte is taken. -/
def csiInside : CsiState → List UInt8 → List UInt8
  | _, [] => []
  | st, b :: bs =>
      if st.stopped then []
      else if (st.step b).stopped && !isLocator b then []
      else b :: csiInside (st.step b) bs

/-- The bytes inside the control sequence that `bytes` starts with. -/
def sequenceInside (bytes : List UInt8) : List UInt8 :=
  csiInside (csiStart bytes) (csiPrefix bytes).2.1

/-- How many bytes the token takes that `bytes` starts with; none when it is
waited for. -/
def tokenLength (bytes : List UInt8) : Nat :=
  if isCSI bytes then (if (csiResult bytes).param.cmd = 0 then 0 else (csiResult bytes).taken)
  else if (bytes.head?.map isAsciiText).getD false then (bytes.takeWhile isAsciiText).length
  else (decodePlain bytes).2

/-- What is left of `bytes` when some of its tokens have been taken. -/
inductive TokenAt (bytes : List UInt8) : List UInt8 → Prop where
  | start : TokenAt bytes bytes
  | next {rest : List UInt8} (h : TokenAt bytes rest) (hn : 0 < tokenLength rest) :
      TokenAt bytes (rest.drop (tokenLength rest))

/-- No control character and no locator introducer inside a control sequence. -/
def Clean (bytes : List UInt8) : Prop :=
  ∀ rest, TokenAt bytes rest → isCSI rest = true →
    ∀ b ∈ sequenceInside rest, 0x20 ≤ b ∧ isLocator b = false

theorem TokenAt.trans {bytes rest rest' : List UInt8} (h : TokenAt bytes rest)
    (h' : TokenAt rest rest') : TokenAt bytes rest' := by
  induction h' with
  | start => exact h
  | next _ hn ih => exact ih.next hn

/-- The first token, and what is left after it. -/
theorem TokenAt.cases_first {bytes rest : List UInt8} (h : TokenAt bytes rest) :
    rest = bytes ∨ 0 < tokenLength bytes ∧ TokenAt (bytes.drop (tokenLength bytes)) rest := by
  induction h with
  | start => exact Or.inl rfl
  | next _ hn ih =>
      rcases ih with rfl | ⟨hpos, hat⟩
      · exact Or.inr ⟨hn, .start⟩
      · exact Or.inr ⟨hpos, hat.next hn⟩

theorem Clean.rest {bytes rest : List UInt8} (h : Clean bytes) (hr : TokenAt bytes rest) :
    Clean rest :=
  fun rest' hr' => h rest' (hr.trans hr')

theorem Clean.drop {bytes : List UInt8} (h : Clean bytes) (hn : 0 < tokenLength bytes) :
    Clean (bytes.drop (tokenLength bytes)) :=
  h.rest (.next .start hn)

/-! ### Runs of text and of NULs -/

theorem takeWhile_dropWhile (p : UInt8 → Bool) (l : List UInt8) :
    (l.dropWhile p).takeWhile p = [] := by
  induction l with
  | nil => rfl
  | cons b bs ih =>
      by_cases hb : p b = true
      · rw [List.dropWhile_cons_of_pos hb]
        exact ih
      · rw [List.dropWhile_cons_of_neg hb, List.takeWhile_cons_of_neg hb]

/-- A kind of byte of which a run is one token. -/
structure IsRun (p : UInt8 → Bool) : Prop where
  not_csi : ∀ b bs, p b = true → isCSI (b :: bs) = false
  length_eq : ∀ b bs, p b = true → tokenLength (b :: bs) = ((b :: bs).takeWhile p).length

theorem isCSI_head {b : UInt8} {bs : List UInt8} (h : isCSI (b :: bs) = true) : b = escByte := by
  cases bs with
  | nil => cases h
  | cons c cs =>
      simp only [isCSI, Bool.and_eq_true, decide_eq_true_eq] at h
      exact h.1

theorem text_isRun : IsRun isAsciiText := by
  have hcsi : ∀ b bs, isAsciiText b = true → isCSI (b :: bs) = false := by
    intro b bs hb
    by_contra hc
    have hesc : b = escByte := isCSI_head (by simpa using hc)
    rw [hesc] at hb
    exact absurd hb (by decide)
  refine ⟨hcsi, fun b bs hb => ?_⟩
  simp [tokenLength, hcsi b bs hb, hb]

theorem nul_isRun : IsRun (· = 0) := by
  have hcsi : ∀ b bs, decide (b = 0) = true → isCSI (b :: bs) = false := by
    intro b bs hb
    by_contra hc
    have hesc : b = escByte := isCSI_head (by simpa using hc)
    rw [hesc] at hb
    exact absurd hb (by decide)
  refine ⟨hcsi, fun b bs hb => ?_⟩
  obtain rfl : b = 0 := by simpa using hb
  have htext : isAsciiText 0 = false := by decide
  simp [tokenLength, hcsi 0 bs rfl, htext, decodePlain]

theorem IsRun.tokenLength_append {p : UInt8 → Bool} (h : IsRun p) {run : List UInt8}
    (hne : run ≠ []) (hrun : ∀ b ∈ run, p b = true) (rest : List UInt8) :
    tokenLength (run ++ rest) = run.length + (rest.takeWhile p).length := by
  obtain ⟨b, bs, rfl⟩ := List.exists_cons_of_ne_nil hne
  rw [List.cons_append, h.length_eq b _ (hrun b (by simp)), ← List.cons_append,
    List.takeWhile_append_of_pos hrun, List.length_append]

/-- After a part of a run the rest of it is a token. -/
theorem IsRun.clean {p : UInt8 → Bool} (h : IsRun p) {run rest : List UInt8} (hne : run ≠ [])
    (hrun : ∀ b ∈ run, p b = true) (hclean : Clean (run ++ rest)) : Clean rest := by
  have hlen := h.tokenLength_append hne hrun rest
  have hpos : 0 < tokenLength (run ++ rest) := by
    have := List.length_pos_iff.mpr hne
    omega
  have hnext : TokenAt (run ++ rest) (rest.drop (rest.takeWhile p).length) := by
    have hstart : TokenAt (run ++ rest) (run ++ rest) := .start
    have hstep := hstart.next hpos
    rwa [hlen, List.drop_append, List.drop_of_length_le (by omega), List.nil_append,
      Nat.add_sub_cancel_left] at hstep
  cases rest with
  | nil =>
      rintro rest' hrest' hcsi
      rcases hrest'.cases_first with rfl | ⟨hn, -⟩
      · cases hcsi
      · cases hn
  | cons b bs =>
      by_cases hb : p b = true
      · -- the rest begins with the end of the run
        intro rest' hrest' hcsi
        rcases hrest'.cases_first with rfl | ⟨-, hat⟩
        · rw [h.not_csi b bs hb] at hcsi
          cases hcsi
        · rw [h.length_eq b bs hb] at hat
          exact hclean rest' (hnext.trans hat) hcsi
      · rw [List.takeWhile_cons_of_neg hb] at hnext
        exact hclean.rest hnext

/-! ### Control sequences -/

theorem csiInside_stopped {st : CsiState} (h : st.stopped = true) (bytes : List UInt8) :
    csiInside st bytes = [] := by
  cases bytes with
  | nil => rfl
  | cons b bs => simp [csiInside, h]

theorem csiInside_append (st : CsiState) (a b : List UInt8) :
    csiInside st (a ++ b) = csiInside st a ++ csiInside (csiScan st a) b := by
  induction a generalizing st with
  | nil => rfl
  | cons c a ih =>
      have hscan : csiScan st (c :: a) = csiScan (st.step c) a := rfl
      by_cases hs : st.stopped = true
      · rw [csiInside_stopped hs, csiInside_stopped hs, csiScan_stopped hs, csiInside_stopped hs]
        rfl
      · simp only [List.cons_append, csiInside, hs, hscan, ih]
        by_cases hstop : ((st.step c).stopped && !isLocator c) = true
        · have hstopped : (st.step c).stopped = true := (Bool.and_eq_true_iff.mp hstop).1
          simp [hstop, csiScan_stopped hstopped, csiInside_stopped hstopped]
        · simp [hstop]

theorem mem_of_mem_csiInside {st : CsiState} {bytes : List UInt8} {c : UInt8}
    (h : c ∈ csiInside st bytes) : c ∈ bytes := by
  induction bytes generalizing st with
  | nil => cases h
  | cons b bs ih =>
      rw [csiInside] at h
      split at h
      · cases h
      · split at h
        · cases h
        · rcases List.mem_cons.mp h with rfl | h
          · exact List.mem_cons_self ..
          · exact List.mem_cons_of_mem b (ih h)

theorem mem_of_mem_csiPrefix {q : List UInt8} {c : UInt8} (h : c ∈ (csiPrefix q).2.1) : c ∈ q := by
  apply List.mem_of_mem_drop (i := 2)
  unfold csiPrefix at h
  simp only at h
  split at h
  all_goals simp_all

theorem mem_csiInside {st : CsiState} {bytes : List UInt8} {c : UInt8}
    (h : c ∈ csiControls st bytes) : c ∈ csiInside st bytes ∧ isCsiControl c = true := by
  induction bytes generalizing st with
  | nil => cases h
  | cons b bs ih =>
      have hs : ¬st.stopped = true := by
        intro hs
        rw [csiControls_stopped hs] at h
        cases h
      have hrun : st.stopped = false := by simpa using hs
      have hgo : ∀ c ∈ csiControls (st.step b) bs,
          ¬((st.step b).stopped && !isLocator b) = true := by
        intro c hc hstop
        rw [csiControls_stopped (Bool.and_eq_true_iff.mp hstop).1] at hc
        cases hc
      rw [csiControls] at h
      by_cases hb : isCsiControl b = true
      · have hstep : (st.step b).stopped = false := by
          rw [CsiState.step_control hrun hb]
          exact st.commit_stopped.trans hrun
        simp only [hrun, hb, Bool.not_false, Bool.and_self, if_true, List.mem_cons] at h
        simp only [csiInside, hrun, hstep, Bool.false_and, Bool.false_eq_true, if_false,
          List.mem_cons]
        rcases h with rfl | h
        · exact ⟨Or.inl rfl, hb⟩
        · exact ⟨Or.inr (ih h).1, (ih h).2⟩
      · simp only [hb, Bool.and_false, Bool.false_eq_true, if_false] at h
        rw [csiInside, if_neg hs, if_neg (hgo c h)]
        exact ⟨List.mem_cons_of_mem b (ih h).1, (ih h).2⟩

theorem isCSI_append {q : List UInt8} (h : isCSI q = true) (b : List UInt8) :
    isCSI (q ++ b) = true := by
  match q, h with
  | c0 :: c1 :: rest, h => exact h

theorem csiPrefix_append {q : List UInt8} (h : isCSI q = true) (hne : q.drop 2 ≠ [])
    (b : List UInt8) :
    csiPrefix (q ++ b) = ((csiPrefix q).1, (csiPrefix q).2.1 ++ b, (csiPrefix q).2.2) := by
  match q, h with
  | c0 :: c1 :: [], _ => exact absurd rfl hne
  | c0 :: c1 :: c :: rest, _ =>
      simp only [csiPrefix, List.cons_append, List.drop_succ_cons, List.drop_zero]
      by_cases h1 : c = 0x3f
      · subst h1
        rfl
      · by_cases h2 : c = 0x3e
        · subst h2
          rfl
        · split <;> simp_all

/-- The final byte stops a scan, and so does a byte that ends it as unrecognized. -/
theorem csiScan_cmd {st : CsiState} {bytes : List UInt8} (h : (csiScan st bytes).stopped = false) :
    (csiScan st bytes).param.cmd = st.param.cmd := by
  induction bytes generalizing st with
  | nil => rfl
  | cons b bs ih =>
      have hscan : csiScan st (b :: bs) = csiScan (st.step b) bs := rfl
      have hstep : (st.step b).stopped = false := by
        by_contra hs
        rw [hscan, csiScan_stopped (by simpa using hs)] at h
        exact hs h
      have hrun := (CsiState.step_running hstep).1
      rw [hscan, ih (hscan ▸ h)]
      have hcommit : st.commit.param.cmd = st.param.cmd := by
        unfold CsiState.commit
        split <;> rfl
      by_cases hd : isDigit b = true
      · simp only [CsiState.step, hrun, hd, Bool.false_eq_true, if_false, if_true]
      · have heq : st.step b = st.commit.punctuate b := by
          simp only [CsiState.step, hrun, hd, Bool.false_eq_true, if_false]
        rw [heq] at hstep ⊢
        unfold CsiState.punctuate at hstep ⊢
        split at hstep
        · rename_i hsemi
          rw [if_pos hsemi]
          simp only [CSIParam.addBlank]
          split <;> exact hcommit
        · rename_i hsemi
          rw [if_neg hsemi]
          split at hstep
          · cases hstep
          · rename_i halpha
            rw [if_neg halpha]
            split at hstep
            · cases hstep
            · rename_i hquote
              rw [if_neg hquote]
              split at hstep
              · rename_i hcontrol
                rw [if_pos hcontrol]
                exact hcommit
              · cases hstep

/-- A sequence that has a final byte, or that is not recognized, is the same when
more bytes follow. -/
theorem csiResult_append {q : List UInt8} (h : isCSI q = true)
    (hcmd : (csiResult q).param.cmd ≠ 0) (b : List UInt8) :
    csiResult (q ++ b) = csiResult q ∧ embeddedControls (q ++ b) = embeddedControls q := by
  have hparam : (csiResult q).param.cmd = (csiScan (csiStart q) (csiPrefix q).2.1).param.cmd := by
    rw [csiResult]
    unfold CsiState.commit
    split <;> rfl
  have hstart : (csiStart q).param.cmd = 0 := by
    simp only [csiStart, CsiState.start, csiPrefix]
    split <;> rfl
  have hstop : (csiScan (csiStart q) (csiPrefix q).2.1).stopped = true := by
    by_contra hrun
    rw [hparam, csiScan_cmd (by simpa using hrun)] at hcmd
    exact hcmd hstart
  have hne : q.drop 2 ≠ [] := by
    intro hnil
    have hpre : (csiPrefix q).2.1 = [] := by
      simp only [csiPrefix, hnil]
    rw [hpre] at hstop
    cases hstop
  have hpre := csiPrefix_append h hne b
  have hst : csiStart (q ++ b) = csiStart q := by
    rw [csiStart, csiStart, hpre]
  constructor
  · rw [csiResult, csiResult, hst, hpre, csiScan_append, csiScan_stopped hstop]
  · rw [embeddedControls, embeddedControls, hst, hpre, csiControls_append,
      csiControls_stopped hstop, List.append_nil]

theorem decodeCsi_append {q : List UInt8} (h : isCSI q = true)
    (hcmd : (csiResult q).param.cmd ≠ 0) (b : List UInt8) (t : Terminal) (s : Screen) :
    decodeCsi t (q ++ b) s = decodeCsi t q s := by
  obtain ⟨hresult, hcontrols⟩ := csiResult_append h hcmd b
  simp only [decodeCsi, getCSIParam_eq, hresult, hcontrols]

theorem mem_sequenceInside_append {q : List UInt8} (h : isCSI q = true) (b : List UInt8)
    {c : UInt8} (hc : c ∈ sequenceInside q) : c ∈ sequenceInside (q ++ b) := by
  by_cases hne : q.drop 2 = []
  · have hpre : (csiPrefix q).2.1 = [] := by
      simp only [csiPrefix, hne]
    rw [sequenceInside, hpre] at hc
    cases hc
  · have hpre := csiPrefix_append h hne b
    have hst : csiStart (q ++ b) = csiStart q := by
      rw [csiStart, csiStart, hpre]
    rw [sequenceInside, hst, hpre, csiInside_append]
    exact List.mem_append_left _ hc

/-- Nothing is executed inside a clean sequence of ASCII. -/
theorem embeddedControls_of_clean {q : List UInt8} (hascii : ∀ c ∈ q, c < 0x80)
    (hclean : ∀ c ∈ sequenceInside q, 0x20 ≤ c ∧ isLocator c = false) :
    embeddedControls q = [] := by
  by_contra hne
  obtain ⟨c, hc⟩ := List.exists_mem_of_ne_nil _ hne
  obtain ⟨hin, hcontrol⟩ := mem_csiInside hc
  have hlow := (hclean c hin).1
  have hhigh := hascii c (mem_of_mem_csiPrefix (mem_of_mem_csiInside hin))
  rw [UInt8.le_iff_toNat_le] at hlow
  rw [UInt8.lt_iff_toNat_lt] at hhigh
  simp only [isCsiControl, csiControlCodes, List.contains_iff_mem, List.mem_cons,
    List.not_mem_nil, or_false, UInt8.reduceToNat] at hcontrol hlow hhigh
  omega

theorem not_cutLocator_of_clean {q : List UInt8}
    (hclean : ∀ c ∈ sequenceInside q, 0x20 ≤ c ∧ isLocator c = false) : ¬CutLocator q := by
  rintro ⟨-, body, c, hbytes, hc, hrun⟩
  have hin : c ∈ sequenceInside q := by
    rw [sequenceInside, hbytes, csiInside_append]
    refine List.mem_append_right _ ?_
    simp [csiInside, hrun, hc]
  rw [(hclean c hin).2] at hc
  cases hc

/-! ### Other control characters -/

theorem decodeOther_append {c1 : UInt8} (hwait : (decodeOther c1 none).1.type ≠ .wait)
    (c2 : Option UInt8) : decodeOther c1 c2 = decodeOther c1 none := by
  unfold decodeOther at hwait ⊢
  split at hwait
  all_goals first
    | exact absurd rfl hwait
    | rfl

theorem decodePlain_append {c : UInt8} {cs : List UInt8} (hc : c ≠ 0)
    (hcsi : ¬isCSI (c :: cs) = true) (hwait : (decodePlain (c :: cs)).1.type ≠ .wait)
    (b : List UInt8) :
    ¬isCSI (c :: cs ++ b) = true ∧ decodePlain (c :: cs ++ b) = decodePlain (c :: cs) := by
  by_cases hesc : c = escByte
  · subst hesc
    cases cs with
    | nil => exact absurd rfl hwait
    | cons c1 cs =>
        refine ⟨hcsi, ?_⟩
        have hzero : ¬escByte = 0 := by decide
        simp only [decodePlain, List.cons_append, hzero, if_false, if_true] at hwait ⊢
        cases cs with
        | nil => exact decodeOther_append hwait _
        | cons c2 cs => rfl
  · constructor
    · intro hcsi'
      exact hesc (isCSI_head hcsi')
    · simp only [decodePlain, List.cons_append, hc, hesc, if_false]

/-! ### Tokens do not end the loop -/

section

variable {param : CSIParam} {r : TokenType × CSIParam}

theorem windowOp_not_null (hok : windowOp param = .ok r) : r.1 ≠ .cc 0 := by
  obtain ⟨op, -, hok⟩ := bind_eq_ok.mp hok
  split at hok
  all_goals first
    | (rw [default2_type hok]; decide)
    | (cases hok; simp)

theorem csiCommand_not_null {height : Int} (hok : csiCommand height param = .ok r) :
    r.1 ≠ .cc 0 := by
  unfold csiCommand at hok
  split at hok
  case h_16 =>
    obtain ⟨p, -, hok⟩ := bind_eq_ok.mp hok
    cases hok
    simp
  case h_23 => exact windowOp_not_null hok
  case h_25 =>
    split at hok
    · rw [default1_type hok]
      decide
    · cases hok
      simp
  all_goals first
    | (rw [default1_type hok]; decide)
    | (rw [default2_type hok]; decide)
    | (cases hok; simp only; split <;> simp)
    | (cases hok; simp)

theorem csiPrivate_not_null (hok : csiPrivate param = .ok r) : r.1 ≠ .cc 0 := by
  unfold csiPrivate at hok
  split at hok
  all_goals first
    | (rw [default1_type hok]; decide)
    | (cases hok; simp)

end

theorem decodeOther_not_null (c1 : UInt8) (c2 : Option UInt8) :
    (decodeOther c1 c2).1.type ≠ .cc 0 := by
  have hthree : ∀ type : UInt8 → TokenType, (∀ c, type c ≠ .cc 0) →
      (threeByte type c2).1.type ≠ .cc 0 := by
    intro type htype
    cases c2 with
    | none => simp [threeByte]
    | some c => exact htype c
  unfold decodeOther
  split
  case h_1 =>
    refine hthree _ fun c => ?_
    split <;> decide
  all_goals first
    | exact hthree _ fun _ => by decide
    | simp

/-- `VT100CC_NULL` is the answer to an empty stream and to nothing else. -/
theorem decodeControl_not_null {t : Terminal} {c : UInt8} {cs : List UInt8} {s s' : Screen}
    {tok : VT100TCC} {n : Nat} (hok : decodeControl t (c :: cs) s = .ok (tok, n, s')) :
    tok.type ≠ .cc 0 := by
  by_cases hcsi : isCSI (c :: cs) = true
  · rw [decodeControl_csi hcsi, decodeCsi, getCSIParam_eq, bind_assoc] at hok
    obtain ⟨s₁, -, hok⟩ := bind_eq_ok.mp hok
    simp only [ok_bind] at hok
    split at hok
    · cases hok
      simp
    · split at hok
      · obtain ⟨r, hr, hok⟩ := bind_eq_ok.mp hok
        cases hok
        split at hr
        · exact csiPrivate_not_null hr
        · exact csiCommand_not_null hr
      · cases hok
        simp
  · rw [decodeControl_plain hcsi] at hok
    cases hok
    rw [decodePlain.eq_def]
    simp only
    split
    · simp
    · rename_i hzero
      split
      · split
        · simp
        · exact decodeOther_not_null _ _
      · simp only [ne_eq, TokenType.cc.injEq]
        intro hc
        exact hzero (UInt8.toNat_inj.mp hc)

/-- The number of bytes a control character or sequence takes. -/
theorem decodeControl_tokenLength {t : Terminal} {c : UInt8} {cs : List UInt8} {s s' : Screen}
    {tok : VT100TCC} {n : Nat} (hc : isAsciiText c = false)
    (hok : decodeControl t (c :: cs) s = .ok (tok, n, s')) : n = tokenLength (c :: cs) := by
  by_cases hcsi : isCSI (c :: cs) = true
  · rw [decodeControl_csi hcsi, decodeCsi, getCSIParam_eq, bind_assoc] at hok
    obtain ⟨s₁, -, hok⟩ := bind_eq_ok.mp hok
    simp only [ok_bind] at hok
    have htaken := two_le_csiResult_taken (c :: cs)
    rw [tokenLength, if_pos hcsi]
    split at hok
    · rename_i hff
      cases hok
      rw [if_neg (by rw [hff]; decide)]
    · split at hok
      · rename_i hpos
        obtain ⟨r, hr, hok⟩ := bind_eq_ok.mp hok
        cases hok
        rw [if_neg (by omega)]
      · cases hok
        rw [if_pos (by omega)]
  · rw [decodeControl_plain hcsi] at hok
    cases hok
    simp [tokenLength, hcsi, hc]

/-! ### Complete tokens -/

theorem control_not_text {c : UInt8} (hc : c ≤ 0x1f) : isAsciiText c = false := by
  have hlt : ¬0x20 ≤ c := by
    rw [UInt8.le_iff_toNat_le] at hc ⊢
    simp only [UInt8.reduceToNat] at hc ⊢
    omega
  simp [isAsciiText, hlt]

/-- A complete control character or sequence, with what follows it taken care of. -/
structure Complete (q b : List UInt8) : Prop where
  same : ∀ t s, decodeControl t (q ++ b) s = decodeControl t q s
  waits : ∀ t s tok n s', decodeControl t q s = .ok (tok, n, s') → tok.type ≠ .wait
  length_eq : tokenLength (q ++ b) = tokenLength q
  length_pos : 0 < tokenLength q
  length_le : tokenLength q ≤ q.length

/-- A control sequence is complete, or it is waited for without any effect. -/
theorem csi_complete_or_wait {q b : List UInt8} (hcsi : isCSI q = true)
    (hascii : ∀ c ∈ q, c < 0x80)
    (hclean : ∀ c ∈ sequenceInside (q ++ b), 0x20 ≤ c ∧ isLocator c = false) :
    Complete q b ∨
      tokenLength q = 0 ∧ ∀ t s, decodeControl t q s = .ok ({ type := .wait }, 0, s) := by
  have hinside : ∀ c ∈ sequenceInside q, 0x20 ≤ c ∧ isLocator c = false :=
    fun c hc => hclean c (mem_sequenceInside_append hcsi b hc)
  by_cases hcmd : (csiResult q).param.cmd = 0
  · refine Or.inr ⟨by rw [tokenLength, if_pos hcsi, if_pos hcmd], fun t s => ?_⟩
    rw [decodeControl_csi hcsi, decodeCsi_incomplete hcmd,
      embeddedControls_of_clean hascii hinside]
    rfl
  · have htaken := two_le_csiResult_taken q
    have hle := (csiResult_taken_iff hcsi).mpr (not_cutLocator_of_clean hinside)
    have hlen : tokenLength q = (csiResult q).taken := by
      rw [tokenLength, if_pos hcsi, if_neg hcmd]
    refine Or.inl ⟨fun t s => ?_, fun t s tok n s' hok hwait => ?_, ?_, by omega, by omega⟩
    · rw [decodeControl_csi hcsi, decodeControl_csi (isCSI_append hcsi b),
        decodeCsi_append hcsi hcmd]
    · rw [decodeControl_csi hcsi] at hok
      exact hcmd (decodeCsi_wait hok hwait)
    · have hresult := (csiResult_append hcsi hcmd b).1
      rw [tokenLength, if_pos (isCSI_append hcsi b), hresult, if_neg hcmd, hlen]

theorem plain_complete_or_wait {c : UInt8} {cs : List UInt8} (b : List UInt8) (hc : c ≠ 0)
    (htext : isAsciiText c = false) (hcsi : ¬isCSI (c :: cs) = true) :
    Complete (c :: cs) b ∨ tokenLength (c :: cs) = 0 ∧
      ∀ t s, decodeControl t (c :: cs) s = .ok ({ type := .wait }, 0, s) := by
  have hlen : ∀ cs, ¬isCSI (c :: cs) = true →
      tokenLength (c :: cs) = (decodePlain (c :: cs)).2 := by
    intro cs hcsi
    simp [tokenLength, hcsi, htext]
  by_cases hwait : (decodePlain (c :: cs)).1.type = .wait
  · refine Or.inr ⟨by rw [hlen cs hcsi, decodePlain_wait hwait], fun t s => ?_⟩
    rw [decodeControl_plain hcsi, decodePlain_wait hwait]
  · obtain ⟨hcsi', hplain⟩ := decodePlain_append hc hcsi hwait b
    refine Or.inl ⟨fun t s => ?_, fun t s tok n s' hok => ?_, ?_, ?_, ?_⟩
    · rw [decodeControl_plain hcsi, decodeControl_plain hcsi', hplain]
    · rw [decodeControl_plain hcsi] at hok
      cases hok
      exact hwait
    · rw [hlen cs hcsi, ← hplain]
      exact hlen (cs ++ b) hcsi'
    · rw [hlen cs hcsi]
      exact decodePlain_pos hwait
    · rw [hlen cs hcsi]
      exact decodePlain_length _

theorem text_or_control {c : UInt8} (hc : c < 0x80) : isAsciiText c = true ∨ c ≤ 0x1f := by
  rw [UInt8.lt_iff_toNat_lt] at hc
  simp only [isAsciiText, Bool.and_eq_true, decide_eq_true_eq, UInt8.le_iff_toNat_le]
  simp only [UInt8.reduceToNat] at hc ⊢
  omega

/-- The tokens of ASCII: a run of text or of NULs, or a control character or sequence. -/
theorem token_cases {c : UInt8} {cs b : List UInt8} (hascii : ∀ x ∈ c :: cs, x < 0x80)
    (hclean : Clean (c :: cs ++ b)) :
    (∃ p, IsRun p ∧ p c = true) ∨ Complete (c :: cs) b ∨ tokenLength (c :: cs) = 0 := by
  rcases text_or_control (hascii c (by simp)) with htext | hctl
  · exact Or.inl ⟨_, text_isRun, htext⟩
  · by_cases hzero : c = 0
    · exact Or.inl ⟨_, nul_isRun, by simpa using hzero⟩
    · refine Or.inr ?_
      by_cases hcsi : isCSI (c :: cs) = true
      · exact (csi_complete_or_wait hcsi hascii (hclean _ .start (isCSI_append hcsi b))).imp_right
          And.left
      · exact (plain_complete_or_wait b hzero (control_not_text hctl) hcsi).imp_right And.left

theorem IsRun.length_eq_of_lt {p : UInt8 → Bool} (h : IsRun p) {c : UInt8} {cs : List UInt8}
    (hc : p c = true) (hlt : tokenLength (c :: cs) < (c :: cs).length) (b : List UInt8) :
    tokenLength (c :: cs ++ b) = tokenLength (c :: cs) := by
  rw [h.length_eq c cs hc] at hlt ⊢
  rw [List.cons_append, h.length_eq c _ hc, ← List.cons_append, List.takeWhile_append,
    if_neg (by omega)]

/-- A token of the first piece is one of the whole, unless it is the last one. -/
theorem tokenAt_append {x y rest : List UInt8} (hascii : ∀ c ∈ x, c < 0x80)
    (hclean : Clean (x ++ y)) (h : TokenAt x rest) :
    rest = [] ∨ (∀ c ∈ rest, c < 0x80) ∧ TokenAt (x ++ y) (rest ++ y) := by
  induction h with
  | start => exact Or.inr ⟨hascii, .start⟩
  | @next q _ hn ih =>
      rcases ih with rfl | ⟨hq, hat⟩
      · cases hn
      · have hdrop : ∀ c ∈ q.drop (tokenLength q), c < 0x80 :=
          fun c hc => hq c (List.mem_of_mem_drop hc)
        by_cases hnil : q.drop (tokenLength q) = []
        · exact Or.inl hnil
        · refine Or.inr ⟨hdrop, ?_⟩
          have hlt : tokenLength q < q.length := by
            by_contra hge
            exact hnil (List.drop_of_length_le (by omega))
          have hlen : tokenLength (q ++ y) = tokenLength q := by
            cases q with
            | nil => cases hlt
            | cons c cs =>
                rcases token_cases hq (hclean.rest hat) with ⟨p, hp, hc⟩ | hdone | hwait
                · exact hp.length_eq_of_lt hc hlt y
                · exact hdone.length_eq
                · omega
          have hstep := hat.next (by rw [hlen]; exact hn)
          rwa [hlen, List.drop_append_of_le_length (by omega)] at hstep

theorem Clean.of_append {x y : List UInt8} (hascii : ∀ c ∈ x, c < 0x80) (hclean : Clean (x ++ y)) :
    Clean x := by
  intro rest hat hcsi c hc
  rcases tokenAt_append hascii hclean hat with rfl | ⟨-, hat'⟩
  · cases hcsi
  · exact hclean _ hat' (isCSI_append hcsi y) c (mem_sequenceInside_append hcsi y hc)

/-! ## One piece after the other

`Ahead` relates the object that has received the second piece already to the one
that has not. As long as the first piece lasts they find the same tokens; then
the one waits for what the other has in front of it. -/

namespace VT100

variable {F : Foundation} {v v' : VT100}

theorem Foundation_asciiTotal (hF : F.AsciiExact) : F.AsciiTotal := by
  intro bytes hbytes hnone
  rw [hF bytes hbytes] at hnone
  cases hnone

/-- The token of a run of text. -/
def textToken (text : List UInt8) : VT100TCC :=
  { type := .asciiString, string := text.map UInt8.toUInt16 }

/-- `n` pending bytes are passed over. -/
def pass (n : Nat) (v : VT100) : VT100 := { v with terminal := v.terminal.skip n }

theorem pass_pass (m n : Nat) (v : VT100) : (v.pass m).pass n = v.pass (m + n) := by
  simp only [pass, Terminal.skip, Nat.cast_add, Int.add_assoc]

theorem pass_wf (h : v.Wf) {n : Nat} (hn : n ≤ v.terminal.pending.length) : (v.pass n).Wf :=
  ⟨Terminal.skip_wf h.terminal hn, h.screen⟩

/-- A run of text is fetched as far as it has arrived. -/
theorem getNextToken_text (hF : F.AsciiExact) (h : v.terminal.Wf) {text rest : List UInt8}
    (hne : text ≠ []) (htext : ∀ b ∈ text, isAsciiText b = true)
    (hend : rest.takeWhile isAsciiText = []) (hp : v.terminal.pending = text ++ rest) :
    v.getNextToken F = .ok (textToken text, v.pass text.length) := by
  have hrun : (text ++ rest).takeWhile isAsciiText = text := by
    rw [List.takeWhile_append_of_pos htext, hend, List.append_nil]
  have hlen : ¬text.length = 0 := fun h0 => hne (List.length_eq_zero_iff.mp h0)
  have hdecode : decodeAsciiString F (text ++ rest) = (textToken text, text.length) := by
    simp only [decodeAsciiString, hrun, if_neg hlen, textToken, hF text fun b hb => by
      simpa [isAsciiText] using htext b hb]
  have hle : text.length ≤ v.terminal.pending.length := by
    rw [hp, List.length_append]
    omega
  obtain ⟨b, text', rfl⟩ := List.exists_cons_of_ne_nil hne
  rw [List.cons_append] at hp hdecode
  simp only [getNextToken, hp, htext b (by simp), if_true, hdecode, advance_eq h hle, ok_bind]
  rfl

theorem consume_text (hF : F.AsciiExact) (h : v.Wf) {text rest : List UInt8} (hne : text ≠ [])
    (htext : ∀ b ∈ text, isAsciiText b = true) (hend : rest.takeWhile isAsciiText = [])
    (hp : v.terminal.pending = text ++ rest) :
    v.consume F = (v.pass text.length).processToken F (textToken text) >>= consume F := by
  rw [consume_eq (Foundation_asciiTotal hF) h, getNextToken_text hF h.terminal hne htext hend hp]
  rfl

theorem putToken_text_append {a b : List UInt8} (ha : a ≠ []) (hb : b ≠ []) (t : Terminal)
    (s : Screen) :
    ExceptRel Screen.SameButDirty (s.putToken F t (textToken (a ++ b)))
      (s.putToken F t (textToken a) >>= fun s => s.putToken F t (textToken b)) := by
  have hsplit : s.dispatch F t (textToken (a ++ b)) =
      s.dispatch F t (textToken a) >>= fun s => s.dispatch F t (textToken b) := by
    show s.putString F t ((a ++ b).map UInt8.toUInt16) true = _
    rw [List.map_append]
    exact Screen.putString_append (by simpa using ha) (by simpa using hb)
  have hleft := Screen.SameButDirty.putToken_dispatch F t (textToken (a ++ b)) s
  have hright : ExceptRel Screen.SameButDirty
      (s.dispatch F t (textToken a) >>= fun s => s.dispatch F t (textToken b))
      (s.putToken F t (textToken a) >>= fun s => s.putToken F t (textToken b)) := by
    refine (Screen.SameButDirty.putToken_dispatch F t (textToken a) s).bind fun s₁ s₂ hs => ?_
    exact (Screen.SameButDirty.putToken_dispatch F t (textToken b) s₁).trans
      (fun _ _ _ h h' => h.trans h') (hs.putToken F t (textToken b))
  rw [hsplit] at hleft
  exact (hleft.symm fun _ _ h => h.symm).trans (fun _ _ _ h h' => h.trans h') hright

/-- Executing a run of text is executing its two parts. -/
theorem processToken_text_append {a b : List UInt8} (ha : a ≠ []) (hb : b ≠ []) (v : VT100) :
    ExceptRel Alike (v.processToken F (textToken (a ++ b)))
      (v.processToken F (textToken a) >>= fun v => v.processToken F (textToken b)) := by
  have hexec : ∀ (text : List UInt8) (v : VT100), v.processToken F (textToken text) =
      v.screen.putToken F v.terminal (textToken text) >>= fun s => .ok { v with screen := s } :=
    fun _ _ => rfl
  simp only [hexec, bind_assoc, ok_bind]
  rw [← bind_assoc]
  exact (putToken_text_append ha hb v.terminal v.screen).bind fun _ _ hs => ⟨⟨.refl _, hs⟩, rfl⟩

/-- The stream offset does not matter to a run of text. -/
theorem processToken_pass (n : Nat) (text : List UInt8) (v : VT100) :
    (v.pass n).processToken F (textToken text) =
      v.processToken F (textToken text) >>= fun v => .ok (v.pass n) := by
  show v.screen.putToken F (v.terminal.skip n) (textToken text) >>= _ =
    (v.screen.putToken F v.terminal (textToken text) >>= _) >>= _
  have hmodes : v.terminal.SameModes (v.terminal.skip n) := ⟨_, _, _, _, rfl⟩
  rw [putToken_sameModes F hmodes, bind_assoc]
  rfl

theorem consume_text_cut (hF : F.AsciiExact) (h : v.Wf) {text rest : List UInt8} (hne : text ≠ [])
    (htext : ∀ b ∈ text, isAsciiText b = true) (hp : v.terminal.pending = text ++ rest) :
    ExceptRel Alike (v.consume F)
      ((v.pass text.length).processToken F (textToken text) >>= consume F) := by
  by_cases hend : rest.takeWhile isAsciiText = []
  · rw [consume_text hF h hne htext hend hp]
    exact .of_eq Alike.refl _
  · -- the run goes on in `rest`
    obtain ⟨more, after, rfl, hmore, hafter⟩ : ∃ more after, rest = more ++ after ∧
        (∀ b ∈ more, isAsciiText b = true) ∧ after.takeWhile isAsciiText = [] := by
      refine ⟨rest.takeWhile isAsciiText, rest.dropWhile isAsciiText,
        (List.takeWhile_append_dropWhile ..).symm, fun b hb => List.mem_takeWhile_imp hb, ?_⟩
      exact takeWhile_dropWhile isAsciiText rest
    have hmne : more ≠ [] := by
      rintro rfl
      exact hend hafter
    have hall : ∀ b ∈ text ++ more, isAsciiText b = true := by
      intro b hb
      exact (List.mem_append.mp hb).elim (htext b) (hmore b)
    have hlen : (text ++ more).length ≤ v.terminal.pending.length := by
      rw [hp, ← List.append_assoc, @List.length_append _ (text ++ more)]
      omega
    have hright : (v.pass text.length).processToken F (textToken text) >>= consume F =
        (v.processToken F (textToken text) >>= fun v => v.processToken F (textToken more)) >>=
          fun v => (v.pass (text ++ more).length).consume F := by
      rw [processToken_pass, bind_assoc, bind_assoc]
      refine bind_congr_ok fun v₁ h₁ => ?_
      have hp₁ : (v₁.pass text.length).terminal.pending = more ++ after := by
        have hwf₁ := processToken_wf h h₁
        have hpending := (processToken_sameStream h₁).pending_eq
        rw [pass, Terminal.skip_pending hwf₁.terminal (by rw [hpending]; simp at hlen; omega),
          hpending, hp, List.drop_left]
      have hwf₁ : (v₁.pass text.length).Wf :=
        pass_wf (processToken_wf h h₁) (by
          rw [(processToken_sameStream h₁).pending_eq]
          simp at hlen
          omega)
      rw [ok_bind, consume_text hF hwf₁ hmne hmore hafter hp₁, pass_pass, processToken_pass,
        bind_assoc, List.length_append]
      rfl
    rw [consume_text hF h (by simp [hne]) hall hafter (by rw [hp, List.append_assoc]), hright,
      processToken_pass, bind_assoc]
    refine (processToken_text_append hne hmne v).bind_ok fun v₁ v₂ h₁ h₂ halike => ?_
    obtain ⟨u, hu, h₂⟩ := bind_eq_ok.mp h₂
    have hwf₁ := processToken_wf h h₁
    have hwf₂ := processToken_wf (processToken_wf h hu) h₂
    have hlen₁ : (text ++ more).length ≤ v₁.terminal.pending.length := by
      rw [(processToken_sameStream h₁).pending_eq]
      exact hlen
    have hpass : Alike (v₁.pass (text ++ more).length) (v₂.pass (text ++ more).length) :=
      halike.skip hwf₁.terminal hwf₂.terminal hlen₁
    exact hpass.consume (pass_wf hwf₁ hlen₁) (pass_wf hwf₂ (by rw [halike.pending_eq]; exact hlen₁))

/-- A run of NULs is skipped as far as it has arrived. -/
theorem consume_nul (hF : F.AsciiTotal) (h : v.Wf) {run rest : List UInt8} (hne : run ≠ [])
    (hrun : ∀ b ∈ run, b = 0) (hp : v.terminal.pending = run ++ rest) :
    v.consume F = (v.pass (run.length + (rest.takeWhile (· = 0)).length)).consume F := by
  have htoken := nul_isRun.tokenLength_append hne (by simpa using hrun) rest
  have hle : tokenLength (run ++ rest) ≤ v.terminal.pending.length := by
    have hsub := (List.takeWhile_sublist (l := rest) (· = 0)).length_le
    rw [htoken, hp, List.length_append]
    omega
  rw [← htoken]
  obtain ⟨b, bs, rfl⟩ := List.exists_cons_of_ne_nil hne
  obtain rfl : b = 0 := hrun b (by simp)
  rw [List.cons_append] at hp hle ⊢
  have hcsi : ¬isCSI (0 :: (bs ++ rest)) = true := by
    rw [nul_isRun.not_csi 0 _ rfl]
    decide
  have hdecode : decodeControl v.terminal (0 :: (bs ++ rest)) v.screen =
      .ok ({ type := .skip }, tokenLength (0 :: (bs ++ rest)), v.screen) := by
    have hplain := decodeControl_plain hcsi v.terminal v.screen
    rw [hplain, ← decodeControl_tokenLength (by decide) hplain]
    rfl
  have hfetch : v.getNextToken F =
      .ok ({ type := .skip }, v.pass (tokenLength (0 :: (bs ++ rest)))) := by
    rw [getNextToken_control _ (by decide) hp, hdecode]
    show v.advance _ >>= _ = _
    rw [advance_eq h.terminal hle]
    rfl
  rw [consume_eq hF h, hfetch]
  rfl

theorem consume_nul_cut (hF : F.AsciiTotal) (h : v.Wf) {run rest : List UInt8} (hne : run ≠ [])
    (hrun : ∀ b ∈ run, b = 0) (hp : v.terminal.pending = run ++ rest) :
    v.consume F = (v.pass run.length).consume F := by
  have hlen : run.length ≤ v.terminal.pending.length := by
    rw [hp, List.length_append]
    omega
  rw [consume_nul hF h hne hrun hp]
  by_cases hend : rest.takeWhile (· = 0) = []
  · rw [hend]
    rfl
  · -- the run goes on in `rest`
    have hp' : (v.pass run.length).terminal.pending = rest.takeWhile (· = 0) ++
        rest.dropWhile (· = 0) := by
      rw [pass, Terminal.skip_pending h.terminal hlen, hp, List.drop_left,
        List.takeWhile_append_dropWhile]
    have hzero : ∀ b ∈ rest.takeWhile (· = 0), b = 0 := by
      intro b hb
      simpa using List.mem_takeWhile_imp hb
    rw [consume_nul hF (pass_wf h hlen) hend hzero hp', pass_pass, takeWhile_dropWhile]
    rfl

/-- `v'` has received `b` more than `v`. -/
structure Ahead (b : List UInt8) (v v' : VT100) : Prop extends SameState v v' where
  pending_eq : v'.terminal.pending = v.terminal.pending ++ b

theorem Ahead.pass {b run rest : List UInt8} (hahead : Ahead b v v') (h : v.Wf) (h' : v'.Wf)
    (hp : v.terminal.pending = run ++ rest) :
    (v.pass run.length).Wf ∧ (v'.pass run.length).Wf ∧
      Ahead b (v.pass run.length) (v'.pass run.length) ∧
      (v.pass run.length).terminal.pending = rest := by
  have hp' : v'.terminal.pending = run ++ (rest ++ b) := by
    rw [hahead.pending_eq, hp, List.append_assoc]
  have hlen : run.length ≤ v.terminal.pending.length := by
    rw [hp, List.length_append]
    omega
  have hlen' : run.length ≤ v'.terminal.pending.length := by
    rw [hp', List.length_append]
    omega
  have hq : (v.pass run.length).terminal.pending = rest := by
    rw [VT100.pass, Terminal.skip_pending h.terminal hlen, hp, List.drop_left]
  refine ⟨pass_wf h hlen, pass_wf h' hlen', ⟨⟨?_, hahead.screen⟩, ?_⟩, hq⟩
  · obtain ⟨stream, len, total, off, hmodes⟩ := hahead.modes
    simp only [VT100.pass, hmodes]
    exact ⟨_, _, _, _, rfl⟩
  · rw [hq, VT100.pass, Terminal.skip_pending h'.terminal hlen', hp', List.drop_left]

/-- Receiving `b` after everything else has been taken is as good as having it. -/
def Joins (F : Foundation) (b : List UInt8) (v v' : VT100) : Prop :=
  ExceptRel Alike (v.consume F >>= fun v => v.readInputStream F b) (v'.consume F)

theorem consume_stop {v₁ : VT100} {tok : VT100TCC} (hF : F.AsciiTotal) (h : v.Wf)
    (hnext : v.getNextToken F = .ok (tok, v₁)) (hstops : tok.stops = true) :
    ∃ s, v.consume F = .ok { v₁ with screen := s } ∧ v₁.screen.SameButDirty s ∧
      Wf { v₁ with screen := s } := by
  have hwf := getNextToken_wf h hnext
  obtain ⟨s, hs, hd, -⟩ := Screen.refresh_spec hwf.screen
  refine ⟨s, ?_, Screen.refresh_sameButDirty hs, hwf.terminal, hd.wf hwf.screen⟩
  rw [consume_eq hF h, hnext]
  simp only [ok_bind, hstops, if_true, VT100.refresh, hs]

theorem getNextToken_empty (hp : v.terminal.pending = []) : v.getNextToken F =
    .ok ({ type := .cc 0 }, { v with terminal := v.terminal.emptyStream }) := by
  rw [getNextToken, hp]

theorem Ahead.stop {b : List UInt8} {v₁ : VT100} {tok : VT100TCC} (hF : F.AsciiTotal)
    (h : v.Wf) (h' : v'.Wf) (hnext : v.getNextToken F = .ok (tok, v₁)) (hstops : tok.stops = true)
    (hahead : Ahead b v₁ v') : Joins F b v v' := by
  obtain ⟨s, hconsume, hsame, hwf⟩ := consume_stop hF h hnext hstops
  obtain ⟨t, hput, hwft, hmodes, hpending⟩ := Terminal.putStreamData_spec hwf.terminal b
  have hread : readInputStream F b { v₁ with screen := s } =
      consume F { terminal := t, screen := s } := by
    rw [readInputStream, VT100.putStreamData, hput]
    rfl
  rw [Joins, hconsume, ok_bind, hread]
  have halike : Alike { terminal := t, screen := s } v' :=
    ⟨⟨hmodes.symm.trans hahead.modes, hsame.symm.trans hahead.screen⟩,
      hahead.pending_eq.trans hpending.symm⟩
  exact halike.consume ⟨hwft, hwf.screen⟩ h'

theorem Joins.nil {b : List UInt8} (hF : F.AsciiTotal) (h : v.Wf) (h' : v'.Wf)
    (hahead : Ahead b v v') (hp : v.terminal.pending = []) : Joins F b v v' := by
  refine Ahead.stop hF h h' (getNextToken_empty hp) rfl ⟨⟨?_, hahead.screen⟩, ?_⟩
  · exact (Terminal.emptyStream_sameModes _).symm.trans hahead.modes
  · rw [hahead.pending_eq, hp, Terminal.emptyStream_pending]

/-- A run of text, whether or not it goes on in `b`. -/
theorem Joins.text {b text rest : List UInt8} (hF : F.AsciiExact) (h : v.Wf) (h' : v'.Wf)
    (hahead : Ahead b v v') (hne : text ≠ []) (htext : ∀ c ∈ text, isAsciiText c = true)
    (hend : rest.takeWhile isAsciiText = []) (hp : v.terminal.pending = text ++ rest)
    (ih : ∀ v₁ v₁' : VT100, v₁.Wf → v₁'.Wf → Ahead b v₁ v₁' → v₁.terminal.pending = rest →
      Joins F b v₁ v₁') : Joins F b v v' := by
  have hp' : v'.terminal.pending = text ++ (rest ++ b) := by
    rw [hahead.pending_eq, hp, List.append_assoc]
  obtain ⟨hwf, hwf', hpass, hq⟩ := hahead.pass h h' hp
  have hright := consume_text_cut hF h' hne htext hp'
  refine ExceptRel.trans (fun _ _ _ h h' => h.trans h') ?_
    (hright.symm fun _ _ h => h.symm)
  rw [consume_text hF h hne htext hend hp, bind_assoc]
  refine (hpass.toSameState.processToken (textToken text)).bind_ok fun v₁ v₁' h₁ h₁' hsame => ?_
  have hq₁ : v₁.terminal.pending = rest := (processToken_sameStream h₁).pending_eq.trans hq
  refine ih v₁ v₁' (processToken_wf hwf h₁) (processToken_wf hwf' h₁') ⟨hsame, ?_⟩ hq₁
  rw [(processToken_sameStream h₁').pending_eq, hpass.pending_eq, hq, hq₁]

/-- A run of NULs, whether or not it goes on in `b`. -/
theorem Joins.nul {b run rest : List UInt8} (hF : F.AsciiTotal) (h : v.Wf) (h' : v'.Wf)
    (hahead : Ahead b v v') (hne : run ≠ []) (hrun : ∀ c ∈ run, c = 0)
    (hp : v.terminal.pending = run ++ rest)
    (ih : ∀ v₁ v₁' : VT100, v₁.Wf → v₁'.Wf → Ahead b v₁ v₁' → v₁.terminal.pending = rest →
      Joins F b v₁ v₁') : Joins F b v v' := by
  have hp' : v'.terminal.pending = run ++ (rest ++ b) := by
    rw [hahead.pending_eq, hp, List.append_assoc]
  obtain ⟨hwf, hwf', hpass, hq⟩ := hahead.pass h h' hp
  rw [Joins, consume_nul_cut hF h hne hrun hp, consume_nul_cut hF h' hne hrun hp']
  exact ih _ _ hwf hwf' hpass hq

/-- A control character or sequence that has been waited for in vain. -/
theorem getNextToken_waits {c : UInt8} {cs : List UInt8} (hc : c ≤ 0x1f)
    (hp : v.terminal.pending = c :: cs)
    (hwait : decodeControl v.terminal (c :: cs) v.screen = .ok ({ type := .wait }, 0, v.screen)) :
    v.getNextToken F = .ok ({ type := .wait }, v) := by
  rw [getNextToken_control cs hc hp, hwait]
  rfl

/-- A control character or sequence that is complete is the same one in `v'`. -/
theorem Joins.control {b : List UInt8} {c : UInt8} {cs : List UInt8} (hF : F.AsciiTotal) (h : v.Wf)
    (h' : v'.Wf) (hahead : Ahead b v v') (hc : c ≤ 0x1f) (hp : v.terminal.pending = c :: cs)
    (hdone : Complete (c :: cs) b)
    (ih : ∀ v₁ v₁' : VT100, v₁.Wf → v₁'.Wf → Ahead b v₁ v₁' →
      v₁.terminal.pending = (c :: cs).drop (tokenLength (c :: cs)) → Joins F b v₁ v₁') :
    Joins F b v v' := by
  have hp' : v'.terminal.pending = c :: (cs ++ b) := by
    rw [hahead.pending_eq, hp, List.cons_append]
  have htext : isAsciiText c = false := control_not_text hc
  rw [Joins, consume_eq hF h, consume_eq hF h', getNextToken_control cs hc hp,
    getNextToken_control (cs ++ b) hc hp', ← List.cons_append, hdone.same]
  simp only [bind_assoc]
  have hdecode := decodeControl_alike hahead.modes hahead.screen (c :: cs)
  refine hdecode.bind_ok fun p p' h₁ h₁' hdecoded => ?_
  obtain ⟨tok, n, s⟩ := p
  obtain ⟨tok', n', s'⟩ := p'
  obtain ⟨rfl, rfl, hs⟩ : tok = tok' ∧ n = n' ∧ s.SameButDirty s' := hdecoded
  have hwait := hdone.waits _ _ _ _ _ h₁
  have hlen := decodeControl_tokenLength htext h₁
  have hn : n ≤ (c :: cs).length := by
    rw [hlen]
    exact hdone.length_le
  have hnull := decodeControl_not_null h₁
  have hwf : Wf { v with screen := s } := ⟨h.terminal, Screen.decodeControl_wf h.screen h₁⟩
  have hwf' : Wf { v' with screen := s' } := ⟨h'.terminal, Screen.decodeControl_wf h'.screen h₁'⟩
  have hstart : SameState { v with screen := s } { v' with screen := s' } := ⟨hahead.modes, hs⟩
  refine (hstart.setMode tok).bind_ok fun v₁ v₁' h₁ h₁' hmode => ?_
  refine (hmode.setCharAttr tok).bind_ok fun v₂ v₂' h₂ h₂' hattr => ?_
  have hp₂ : v₂.terminal.pending = (c :: cs).take n ++ (c :: cs).drop n := by
    rw [(setCharAttr_sameStream h₂).pending_eq, (setMode_sameStream h₁).pending_eq,
      List.take_append_drop, hp]
  have hp₂' : v₂'.terminal.pending = v₂.terminal.pending ++ b := by
    rw [(setCharAttr_sameStream h₂').pending_eq, (setMode_sameStream h₁').pending_eq, hp₂,
      List.take_append_drop, hp', List.cons_append]
  have hwf₂ := setCharAttr_wf (setMode_wf hwf h₁) h₂
  have hwf₂' := setCharAttr_wf (setMode_wf hwf' h₁') h₂'
  have hlen₂ : n = ((c :: cs).take n).length := by
    rw [List.length_take]
    omega
  obtain ⟨hwf₃, hwf₃', hahead₃, hp₃⟩ := Ahead.pass ⟨hattr, hp₂'⟩ hwf₂ hwf₂' hp₂
  rw [← hlen₂] at hwf₃ hwf₃' hahead₃ hp₃
  have hle₂ : n ≤ v₂.terminal.pending.length := by
    rw [hp₂, List.take_append_drop]
    exact hn
  have hle₂' : n ≤ v₂'.terminal.pending.length := by
    rw [hp₂', List.length_append]
    omega
  rw [advance_eq hwf₂.terminal hle₂, advance_eq hwf₂'.terminal hle₂']
  have hstops : tok.stops = false := by
    simp [VT100TCC.stops, hwait, hnull]
  simp only [ok_bind, hstops, Bool.false_eq_true, if_false, bind_assoc]
  refine (hahead₃.toSameState.processToken tok).bind_ok fun v₄ v₄' h₄ h₄' hexec => ?_
  have hp₄ := (processToken_sameStream h₄).pending_eq
  have hp₄' := (processToken_sameStream h₄').pending_eq
  refine ih v₄ v₄' (processToken_wf hwf₃ h₄) (processToken_wf hwf₃' h₄') ⟨hexec, ?_⟩ ?_
  · exact hp₄'.trans (hahead₃.pending_eq.trans (by rw [hp₄]))
  · rw [hp₄, ← hlen]
    exact hp₃

/-- Nothing is lost or done twice where the bytes are cut. -/
theorem joins (hF : F.AsciiExact) {b : List UInt8} (h : v.Wf) (h' : v'.Wf) (hahead : Ahead b v v')
    (hascii : ∀ c ∈ v'.terminal.pending, c < 0x80) (hclean : Clean v'.terminal.pending) :
    Joins F b v v' := by
  have htotal := Foundation_asciiTotal hF
  generalize hlen : v.terminal.pending.length = n
  induction n using Nat.strongRecOn generalizing v v' with
  | ind n ih =>
      have hp' := hahead.pending_eq
      -- what is left after a token is shorter, and clean
      have hrec : ∀ rest : List UInt8, rest.length < n →
          (∀ c ∈ rest ++ b, c < 0x80) → Clean (rest ++ b) →
          ∀ v₁ v₁' : VT100, v₁.Wf → v₁'.Wf → Ahead b v₁ v₁' → v₁.terminal.pending = rest →
            Joins F b v₁ v₁' := by
        intro rest hshort hascii hclean v₁ v₁' h₁ h₁' hahead₁ hp₁
        have hp₁' : v₁'.terminal.pending = rest ++ b := by rw [hahead₁.pending_eq, hp₁]
        exact ih rest.length hshort h₁ h₁' hahead₁ (by rw [hp₁']; exact hascii)
          (by rw [hp₁']; exact hclean) (by rw [hp₁])
      cases hp : v.terminal.pending with
      | nil => exact .nil htotal h h' hahead hp
      | cons c cs =>
          rw [hp] at hp' hlen
          rw [hp'] at hascii hclean
          -- a run is split off and the rest is shorter
          have hrun : ∀ p : UInt8 → Bool, IsRun p → p c = true →
              ((c :: cs).takeWhile p ≠ [] ∧ (∀ x ∈ (c :: cs).takeWhile p, p x = true) ∧
              c :: cs = (c :: cs).takeWhile p ++ (c :: cs).dropWhile p) ∧
              ∀ v₁ v₁' : VT100, v₁.Wf → v₁'.Wf → Ahead b v₁ v₁' →
                v₁.terminal.pending = (c :: cs).dropWhile p → Joins F b v₁ v₁' := by
            intro p hp hpc
            have hne : (c :: cs).takeWhile p ≠ [] := by
              rw [List.takeWhile_cons_of_pos hpc]
              exact List.cons_ne_nil _ _
            have hall : ∀ x ∈ (c :: cs).takeWhile p, p x = true :=
              fun x hx => List.mem_takeWhile_imp hx
            have hsplit : c :: cs = (c :: cs).takeWhile p ++ (c :: cs).dropWhile p :=
              List.takeWhile_append_dropWhile.symm
            refine ⟨⟨hne, hall, hsplit⟩, hrec _ ?_ ?_ ?_⟩
            · have hsum := congrArg List.length hsplit
              have hpos := List.length_pos_iff.mpr hne
              rw [List.length_append] at hsum
              omega
            · intro x hx
              refine hascii x ?_
              rw [hsplit, List.append_assoc]
              exact List.mem_append_right _ hx
            · refine hp.clean hne hall ?_
              rw [← List.append_assoc, ← hsplit]
              exact hclean
          rcases text_or_control (hascii c (by simp)) with htext | hctl
          · obtain ⟨⟨hne, hall, hsplit⟩, hnext⟩ := hrun _ text_isRun htext
            exact .text hF h h' hahead hne hall (takeWhile_dropWhile _ _) (hp.trans hsplit) hnext
          · by_cases hzero : c = 0
            · obtain ⟨⟨hne, hall, hsplit⟩, hnext⟩ := hrun _ nul_isRun (by simpa using hzero)
              exact .nul htotal h h' hahead hne (by simpa using hall) (hp.trans hsplit) hnext
            · have htext : isAsciiText c = false := control_not_text hctl
              have hcases : Complete (c :: cs) b ∨ tokenLength (c :: cs) = 0 ∧
                  ∀ t s, decodeControl t (c :: cs) s = .ok ({ type := .wait }, 0, s) := by
                by_cases hcsi : isCSI (c :: cs) = true
                · exact csi_complete_or_wait hcsi (fun x hx => hascii x (List.mem_append_left _ hx))
                    (hclean _ .start (isCSI_append hcsi b))
                · exact plain_complete_or_wait b hzero htext hcsi
              rcases hcases with hdone | ⟨-, hwait⟩
              · have hle := hdone.length_le
                have hpos := hdone.length_pos
                have hdrop : (c :: cs ++ b).drop (tokenLength (c :: cs ++ b)) =
                    (c :: cs).drop (tokenLength (c :: cs)) ++ b := by
                  rw [hdone.length_eq, List.drop_append_of_le_length hle]
                refine .control htotal h h' hahead hctl hp hdone (hrec _ ?_ ?_ ?_)
                · rw [List.length_drop]
                  omega
                · intro x hx
                  rw [← hdrop] at hx
                  exact hascii x (List.mem_of_mem_drop hx)
                · rw [← hdrop]
                  exact hclean.drop (by rw [hdone.length_eq]; exact hpos)
              · exact Ahead.stop htotal h h' (getNextToken_waits hctl hp (hwait _ _)) rfl
                  ⟨hahead.toSameState, by rw [hahead.pending_eq]⟩

/-! ## Any number of pieces -/

/-- The calls of `readInputStream:` for the pieces, one after the other. -/
def feed (F : Foundation) (chunks : List (List UInt8)) (v : VT100) : Res VT100 :=
  chunks.foldlM (fun v chunk => v.readInputStream F chunk) v

theorem readInputStream_wf {data : List UInt8} (h : v.Wf)
    (hok : v.readInputStream F data = .ok v') : v'.Wf := by
  have hinv : ∀ c c' : Config, Path (Step F) SizesPositive c c' → c.2.Wf → c'.2.Wf := by
    intro c c' hpath
    induction hpath with
    | refl => exact id
    | step hstep hsize _ ih => exact fun hwf => ih (step_wf hwf hsize hstep)
  exact hinv _ _ (readInputStream_run hok) h

theorem readInputStream_eq (h : v.Wf) (data : List UInt8) :
    ∃ t, v.readInputStream F data = consume F { v with terminal := t } ∧ t.Wf ∧
      v.terminal.SameModes t ∧ t.pending = v.terminal.pending ++ data := by
  obtain ⟨t, hput, hwf, hmodes, hpending⟩ := Terminal.putStreamData_spec h.terminal data
  refine ⟨t, ?_, hwf, hmodes, hpending⟩
  rw [readInputStream, VT100.putStreamData, hput]
  rfl

theorem Alike.readInputStream (halike : Alike v v') (h : v.Wf) (h' : v'.Wf) (data : List UInt8) :
    ExceptRel Alike (v.readInputStream F data) (v'.readInputStream F data) := by
  obtain ⟨t, hread, hwf, hmodes, hp⟩ := readInputStream_eq (F := F) h data
  obtain ⟨t', hread', hwf', hmodes', hp'⟩ := readInputStream_eq (F := F) h' data
  rw [hread, hread']
  refine Alike.consume ⟨⟨?_, halike.screen⟩, ?_⟩ ⟨hwf, h.screen⟩ ⟨hwf', h'.screen⟩
  · exact hmodes.symm.trans (halike.modes.trans hmodes')
  · rw [hp, hp', halike.pending_eq]

theorem Alike.feed (halike : Alike v v') (h : v.Wf) (h' : v'.Wf) (chunks : List (List UInt8)) :
    ExceptRel Alike (feed F chunks v) (feed F chunks v') := by
  induction chunks generalizing v v' with
  | nil => exact halike
  | cons chunk chunks ih =>
      rw [VT100.feed, VT100.feed, List.foldlM_cons, List.foldlM_cons]
      exact (halike.readInputStream h h' chunk).bind_ok fun _ _ h₁ h₁' halike =>
        ih halike (readInputStream_wf h h₁) (readInputStream_wf h' h₁')

theorem readInputStream_append (hF : F.AsciiExact) (h : v.Wf) {a b : List UInt8}
    (hascii : ∀ c ∈ v.terminal.pending ++ (a ++ b), c < 0x80)
    (hclean : Clean (v.terminal.pending ++ (a ++ b))) :
    ExceptRel Alike (v.readInputStream F a >>= fun v => v.readInputStream F b)
      (v.readInputStream F (a ++ b)) := by
  obtain ⟨t, hread, hwf, hmodes, hp⟩ := readInputStream_eq (F := F) h a
  obtain ⟨t', hread', hwf', hmodes', hp'⟩ := readInputStream_eq (F := F) h (a ++ b)
  rw [hread, hread']
  refine joins hF ⟨hwf, h.screen⟩ ⟨hwf', h.screen⟩ ⟨⟨hmodes.symm.trans hmodes', .refl _⟩, ?_⟩ ?_ ?_
  · rw [hp', hp, List.append_assoc]
  · simpa only [hp'] using hascii
  · simpa only [hp'] using hclean

theorem feed_cons (hF : F.AsciiExact) (h : v.Wf) (chunk : List UInt8) (chunks : List (List UInt8))
    (hascii : ∀ c ∈ v.terminal.pending ++ (chunk ++ chunks.flatten), c < 0x80)
    (hclean : Clean (v.terminal.pending ++ (chunk ++ chunks.flatten))) :
    ExceptRel Alike (feed F (chunk :: chunks) v)
      (v.readInputStream F (chunk ++ chunks.flatten)) := by
  induction chunks generalizing chunk with
  | nil =>
      have hone : feed F [chunk] v = v.readInputStream F (chunk ++ [].flatten) := by
        rw [feed, List.foldlM_cons, List.flatten_nil, List.append_nil]
        exact bind_pure _
      rw [hone]
      exact .of_eq Alike.refl _
  | cons next chunks ih =>
      have hsame : v.terminal.pending ++ (chunk ++ (next :: chunks).flatten) =
          v.terminal.pending ++ (chunk ++ next) ++ chunks.flatten := by
        simp [List.flatten_cons]
      rw [hsame] at hascii hclean
      have htwo := readInputStream_append (a := chunk) (b := next) hF h
        (fun c hc => hascii c (List.mem_append_left _ hc))
        (hclean.of_append fun c hc => hascii c (List.mem_append_left _ hc))
      have hrest := ih (chunk ++ next) (by simpa using hascii) (by simpa using hclean)
      have hfeed : feed F (chunk :: next :: chunks) v =
          (v.readInputStream F chunk >>= fun v => v.readInputStream F next) >>= feed F chunks := by
        rw [feed, List.foldlM_cons, bind_assoc]
        rfl
      rw [hfeed, List.flatten_cons, ← List.append_assoc]
      refine ExceptRel.trans (fun _ _ _ h h' => h.trans h') ?_ hrest
      rw [feed, List.foldlM_cons]
      refine htwo.bind_ok fun v₁ v₂ h₁ h₂ halike => ?_
      obtain ⟨u, hu, h₁⟩ := bind_eq_ok.mp h₁
      exact halike.feed (readInputStream_wf (readInputStream_wf h hu) h₁) (readInputStream_wf h h₂)
        chunks

/-- It makes no difference how the bytes are cut into pieces: both runs end in the
same state, but for the dirty flags and the stream buffer, or stop for the same
reason. -/
theorem chunks_independent (hF : F.AsciiExact) (h : v.Wf) (hempty : v.terminal.pending = [])
    {bytes : List UInt8} (hascii : ∀ b ∈ bytes, b < 0x80) (hclean : Clean bytes)
    {chunks : List (List UInt8)} (hchunks : chunks.flatten = bytes) :
    ExceptRel Alike (feed F chunks v) (v.readInputStream F bytes) := by
  subst hchunks
  cases chunks with
  | nil =>
      obtain ⟨t, hread, hwf, hmodes, hp⟩ := readInputStream_eq (F := F) h []
      rw [hempty, List.append_nil] at hp
      have hwf₁ : Wf { v with terminal := t } := ⟨hwf, h.screen⟩
      obtain ⟨s, hend, hsame, -⟩ := consume_stop (Foundation_asciiTotal hF) hwf₁
        (getNextToken_empty hp) rfl
      rw [List.flatten_nil, hread, hend]
      refine ⟨⟨hmodes.trans (Terminal.emptyStream_sameModes t), hsame⟩, ?_⟩
      rw [hempty, Terminal.emptyStream_pending]
  | cons chunk chunks =>
      rw [List.flatten_cons] at hascii hclean ⊢
      exact feed_cons hF h chunk chunks (by rw [hempty]; exact hascii) (by rw [hempty]; exact hclean)

/-- `a ESC [ 4 m` on a new object, cut after the escape and after the number. -/
theorem init_chunks : ∃ v, VT100.init ⟨0, 0, 0⟩ = .ok v ∧
    ExceptRel Alike (feed Foundation.latin1 [[0x61, 0x1b], [0x5b, 0x34], [0x6d]] v)
      (v.readInputStream Foundation.latin1 [0x61, 0x1b, 0x5b, 0x34, 0x6d]) := by
  obtain ⟨v, hv, ht, -⟩ := init_fresh ⟨0, 0, 0⟩
  have hempty : v.terminal.pending = [] := by
    rw [ht]
    rfl
  have hclean : Clean [0x61, 0x1b, 0x5b, 0x34, 0x6d] := by
    intro rest hat hcsi
    rcases hat.cases_first with rfl | ⟨-, hat⟩
    · cases hcsi
    · have hat : TokenAt [0x1b, 0x5b, 0x34, 0x6d] rest := hat
      rcases hat.cases_first with rfl | ⟨-, hat⟩
      · rw [show sequenceInside [0x1b, 0x5b, 0x34, 0x6d] = [0x34] from rfl]
        simp [isLocator]
      · have hat : TokenAt [] rest := hat
        rcases hat.cases_first with rfl | ⟨hn, -⟩
        · cases hcsi
        · cases hn
  exact ⟨v, hv, chunks_independent Foundation.latin1_asciiExact (init_wf hv) hempty
    (by simp) hclean rfl⟩

end VT100

end MobileTerminal
