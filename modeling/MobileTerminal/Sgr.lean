import MobileTerminal.Chunks
import MobileTerminal.LastWrite

/-!
# Character attributes

An SGR sequence `ESC [ p1 ; ... ; pn m` sets fields of the terminal that say how
the next characters are drawn. Each number of the sequence sets some of these
fields (`attrWrites`), so a sequence, and a run of sequences, is a list of
writes of which the last one to a field wins.

`readInputStream_sgr` connects this view to the bytes: the scan, the defaults of
`decode_csi` and the loop of `setCharAttr:` together do what `sgrWrites` says,
and change nothing that is shown. On the way a parameter that is left blank
becomes 0, except that a last blank is not counted at all (`sgrNumbers`).

Two rules for the numbers compete in the code. `setCharAttr:` tests whether the
whole sequence is one 256-colour item, `38;5;c` or `48;5;c`, and takes it whole
if so; in any other sequence every number stands for itself. What follows from
that for sequences of several items is the subject of the next modules, which
only use `sgrWrites`.
-/

namespace MobileTerminal

variable {F : Foundation}

/-! ## What a number sets -/

/-- The fields of the terminal that SGR sets. -/
inductive Attr where
  | bold
  | under
  | blink
  | reversed
  | highlight
  | fg
  | bg
deriving DecidableEq

namespace Terminal

variable {t t' : Terminal}

def attr (t : Terminal) : Attr → Int
  | .bold => t.bold
  | .under => t.under
  | .blink => t.blink
  | .reversed => t.reversed
  | .highlight => t.highlight
  | .fg => t.fgColorcode
  | .bg => t.bgColorcode

theorem SameModes.attr_eq (h : t.SameModes t') : t'.attr = t.attr := by
  obtain ⟨stream, len, total, off, rfl⟩ := h
  rfl

end Terminal

/-- The fields with all attributes off. -/
def attrOff : Attr → Int
  | .fg => fgColorCodeDefault
  | .bg => bgColorCodeDefault
  | _ => 0

/-- What an attribute number that stands for itself sets. -/
def attrWrites (n : Int) : Attr → Option Int
  | .bold => if n = 0 ∨ n = 22 then some 0 else if n = 1 then some 1 else none
  | .under => if n = 0 ∨ n = 24 then some 0 else if n = 4 then some 1 else none
  | .blink => if n = 0 ∨ n = 25 then some 0 else if n = 5 then some 1 else none
  | .reversed => if n = 0 ∨ n = 27 then some 0 else if n = 7 then some 1 else none
  | .highlight =>
      if n = 0 ∨ 30 ≤ n ∧ n ≤ 37 ∨ 40 ≤ n ∧ n ≤ 47 then some 0
      else if 90 ≤ n ∧ n ≤ 97 ∨ 100 ≤ n ∧ n ≤ 107 then some 1
      else none
  | .fg =>
      if n = 0 ∨ n = 39 then some fgColorCodeDefault
      else if 30 ≤ n ∧ n ≤ 37 then some (n - 30)
      else if 90 ≤ n ∧ n ≤ 97 then some (n - 90)
      else none
  | .bg =>
      if n = 0 ∨ n = 49 then some bgColorCodeDefault
      else if 40 ≤ n ∧ n ≤ 47 then some (n - 40)
      else if 100 ≤ n ∧ n ≤ 107 then some (n - 100)
      else none

/-- The numbers that `setCharAttr:` takes as one 256-colour item. -/
def isColour256 (ns : List Int) : Bool :=
  match ns with
  | [k, 5, _] => k = 38 || k = 48
  | _ => false

theorem isColour256_iff {ns : List Int} :
    isColour256 ns = true ↔ ∃ k c : Int, ns = [k, 5, c] ∧ (k = 38 ∨ k = 48) := by
  constructor
  · intro h
    unfold isColour256 at h
    split at h
    · rename_i k c
      exact ⟨k, c, rfl, by simpa using h⟩
    · cases h
  · rintro ⟨k, c, rfl, hk⟩
    simpa [isColour256] using hk

/-- What a 256-colour item sets: `38;5;c` the foreground, `48;5;c` the background. -/
def colourWrites (k c : Int) : Attr → Option Int
  | .fg => if k = 38 then some c else none
  | .bg => if k = 38 then none else some c
  | _ => none

/-- What the numbers of one SGR sequence set. -/
def sgrWrites (ns : List Int) : Attr → Option Int :=
  if ns = [] then fun k => some (attrOff k)
  else if isColour256 ns then colourWrites (ns.getD 0 0) (ns.getD 2 0)
  else lastWrite attrWrites ns

/-- The first `ns.length` parameters, and the count, are `ns`. -/
structure CSIParam.Lists (csi : CSIParam) (ns : List Int) : Prop where
  count_eq : csi.count = ns.length
  load_eq : ∀ i (h : i < ns.length), (csi.p.load i : Res Int) = .ok (ns.get ⟨i, h⟩)

namespace Terminal

variable {t t' : Terminal}

theorem charAttr_attr (n : Int) (t : Terminal) :
    (t.charAttr n).attr = overwrite (attrWrites n) t.attr := by
  by_cases hmem : n ∈ ([0, 1, 22, 4, 24, 5, 25, 7, 27, 39, 49, 38, 48] : List Int)
  · simp only [List.mem_cons, List.not_mem_nil, or_false] at hmem
    rcases hmem with rfl | rfl | rfl | rfl | rfl | rfl | rfl | rfl | rfl | rfl | rfl | rfl | rfl
    all_goals
      funext k
      cases k <;> rfl
  · -- only the four ranges are left, and a number is in one of them at most
    simp only [List.mem_cons, List.not_mem_nil, or_false, not_or] at hmem
    obtain ⟨h0, h1, h22, h4, h24, h5, h25, h7, h27, h39, h49, h38, h48⟩ := hmem
    simp only [charAttr, h0, h1, h22, h4, h24, h5, h25, h7, h27, h39, h49, h38, h48, or_self,
      if_false]
    funext k
    rw [overwrite]
    split
    · have hbg : ¬(40 ≤ n ∧ n ≤ 47) := by omega
      have hfgHi : ¬(90 ≤ n ∧ n ≤ 97) := by omega
      have hbgHi : ¬(100 ≤ n ∧ n ≤ 107) := by omega
      cases k <;> simp [attr, attrWrites, *]
    · split
      · have hfgHi : ¬(90 ≤ n ∧ n ≤ 97) := by omega
        have hbgHi : ¬(100 ≤ n ∧ n ≤ 107) := by omega
        cases k <;> simp [attr, attrWrites, *]
      · split
        · have hbgHi : ¬(100 ≤ n ∧ n ≤ 107) := by omega
          cases k <;> simp [attr, attrWrites, *]
        · split
          · cases k <;> simp [attr, attrWrites, *]
          · cases k <;> simp [attr, attrWrites, *]

/-! ## The loop over the numbers -/

/-- From a number on that does not start a 256-colour item, every number stands for
itself. -/
theorem setCharAttrFrom_attr {csi : CSIParam} {ns : List Int} (h : csi.Lists ns)
    (hnot : isColour256 ns = false) {i : Nat} (hi : i ≤ ns.length) (t : Terminal) :
    ∃ t', setCharAttrFrom csi (ns.length - i) i t = .ok t' ∧
      t'.attr = overwriteAll attrWrites (ns.drop i) t.attr ∧ t.SameStream t' := by
  induction hk : ns.length - i generalizing i t with
  | zero =>
      rw [List.drop_eq_nil_of_le (by omega)]
      exact ⟨t, rfl, rfl, SameStream.refl t⟩
  | succ k ih =>
      have hlt : i < ns.length := by omega
      obtain ⟨t', hok, hattr, hs⟩ := ih (i := i + 1) (by omega)
        (t.charAttr (ns.get ⟨i, hlt⟩)) (by omega)
      have hcolour : (if (ns.get ⟨i, hlt⟩ = 38 ∨ ns.get ⟨i, hlt⟩ = 48) ∧ csi.count = 3 ∧
          (i : Int) = 0 then (do
            let p1 ← csi.p.load 1
            .ok (decide (p1 = 5)))
          else .ok false : Res Bool) = .ok false := by
        split
        · rename_i hcond
          obtain ⟨hsel, hcount, hzero⟩ := hcond
          obtain rfl : i = 0 := by omega
          have hlen : ns.length = 3 := by
            have := h.count_eq
            omega
          obtain ⟨a, b, c, rfl⟩ := List.length_eq_three.mp hlen
          have hload := h.load_eq 1 (by simp)
          simp only [Nat.cast_one, List.get_eq_getElem, List.getElem_cons_succ,
            List.getElem_cons_zero] at hload
          rw [hload, ok_bind]
          by_cases hb : b = 5
          · subst hb
            simp only [isColour256, Bool.or_eq_false_iff, decide_eq_false_iff_not] at hnot
            simp only [List.get_eq_getElem, List.getElem_cons_zero] at hsel
            omega
          · simp [hb]
        · rfl
      refine ⟨t', ?_, ?_, (charAttr_sameStream _ t).trans hs⟩
      · rw [setCharAttrFrom, h.load_eq i hlt, ok_bind, hcolour, ok_bind, if_neg (by simp)]
        exact_mod_cast hok
      · rw [hattr, charAttr_attr, List.drop_eq_getElem_cons hlt]
        rfl

theorem colour_attr (k c : Int) (t : Terminal) :
    (if k = 38 then { t with fgColorcode := c } else { t with bgColorcode := c }).attr =
      overwrite (colourWrites k c) t.attr := by
  funext a
  by_cases hk : k = 38
  · cases a <;> simp [attr, overwrite, colourWrites, hk]
  · cases a <;> simp [attr, overwrite, colourWrites, hk]

theorem setCharAttr_attr {tok : VT100TCC} (htype : tok.type = .sgr) {ns : List Int}
    (h : tok.csi.Lists ns) (t : Terminal) :
    ∃ t', t.setCharAttr tok = .ok t' ∧ t'.attr = overwrite (sgrWrites ns) t.attr := by
  have hcount := h.count_eq
  rw [setCharAttr, if_pos htype]
  by_cases hnil : ns = []
  · subst hnil
    have hzero : tok.csi.count = 0 := hcount
    rw [if_pos hzero]
    refine ⟨t.allOff, rfl, ?_⟩
    funext k
    cases k <;> rfl
  · have hpos : 0 < ns.length := List.length_pos_iff.mpr hnil
    rw [if_neg (by omega), hcount, Int.toNat_natCast, sgrWrites, if_neg hnil]
    cases hcolour : isColour256 ns with
    | false =>
        obtain ⟨t', hok, hattr, -⟩ := setCharAttrFrom_attr h hcolour (Nat.zero_le _) t
        refine ⟨t', by simpa using hok, ?_⟩
        rw [hattr, List.drop_zero]
        funext k
        rw [overwriteAll_apply]
        rfl
    | true =>
        obtain ⟨k, c, rfl, hk⟩ := isColour256_iff.mp hcolour
        have hload0 : (tok.csi.p.load 0 : Res Int) = .ok k := h.load_eq 0 (by simp)
        have hload1 : (tok.csi.p.load 1 : Res Int) = .ok 5 := h.load_eq 1 (by simp)
        have hload2 : (tok.csi.p.load 2 : Res Int) = .ok c := h.load_eq 2 (by simp)
        have hthree : tok.csi.count = 3 := hcount
        refine ⟨_, ?_, colour_attr k c t⟩
        simp only [List.length_cons, List.length_nil, Nat.zero_add, Nat.reduceAdd,
          setCharAttrFrom, hload0, hload1, hload2, ok_bind, hk, hthree, and_self, if_true,
          decide_true]

end Terminal

/-! ## Reading a sequence -/

/-- The number that `decode_csi` leaves for a parameter. -/
def sgrNumber (p : List UInt8) : Int := max 0 (cint (decimal p))

/-- The numbers of a sequence: a blank is 0, except that a last blank does not count. -/
def sgrNumbers (params : List (List UInt8)) : List Int :=
  (if params.getLast? = some [] then params.dropLast else params).map sgrNumber

/-- The final byte of SGR. -/
def sgrByte : UInt8 := 0x6d

theorem sgrNumber_eq (p : List UInt8) :
    sgrNumber p = if paramCell p < 0 then 0 else paramCell p := by
  unfold sgrNumber paramCell
  by_cases hp : p = []
  · subst hp
    rfl
  · rw [if_neg hp]
    split <;> omega

theorem sgrNumbers_concat (ps : List (List UInt8)) (last : List UInt8) :
    sgrNumbers (ps ++ [last]) =
      if last = [] then ps.map sgrNumber else (ps ++ [last]).map sgrNumber := by
  rw [sgrNumbers, List.getLast?_concat, List.dropLast_concat]
  simp only [Option.some.injEq]
  split <;> rfl

theorem sgrNumbers_get {ps : List (List UInt8)} {last : List UInt8} {i : Nat}
    (hi : i < (sgrNumbers (ps ++ [last])).length) :
    (sgrNumbers (ps ++ [last])).get ⟨i, hi⟩ = sgrNumber ((ps ++ [last]).getD i []) := by
  have hget : (sgrNumbers (ps ++ [last]))[i]? = some (sgrNumber ((ps ++ [last]).getD i [])) := by
    rw [sgrNumbers_concat] at hi ⊢
    split at hi
    · rename_i hlast
      have hi' : i < ps.length := by simpa using hi
      rw [if_pos hlast, List.getElem?_map, List.getD_append _ _ _ _ hi',
        List.getElem?_eq_getElem hi', List.getD_eq_getElem _ _ hi']
      rfl
    · rename_i hlast
      have hi' : i < (ps ++ [last]).length := by simpa using hi
      rw [if_neg hlast, List.getElem?_map, List.getElem?_eq_getElem hi',
        List.getD_eq_getElem _ _ hi']
      rfl
  rw [List.getElem?_eq_getElem hi] at hget
  exact Option.some.inj hget

/-- Inside the loop of `decode_csi`: the parameters below `i` have their defaults. -/
structure CSIParam.DefaultedTo (param : CSIParam) (n : Nat) (i : Int) (p : CSIParam) : Prop where
  size_eq : p.p.size = csiParamMax
  count_eq : p.count = n
  cell_eq : ∀ j : Nat,
    p.p.cell j = if (j : Int) < i ∧ param.p.cell j < 0 then 0 else param.p.cell j

theorem CSIParam.DefaultedTo.step {param p : CSIParam} {n i : Nat} (h : param.DefaultedTo n i p)
    (hn : (n : Int) ≤ csiParamMax) (hi : i < n) :
    ∃ p', CSIParam.setDefault i 0 p = .ok p' ∧ param.DefaultedTo n (i + 1) p' := by
  have hsize := h.size_eq
  have hcount := h.count_eq
  have h0 : (0 : Int) ≤ i := by omega
  have hlt : (i : Int) < p.p.size := by omega
  refine ⟨{ p with
    p := p.p.set i (if p.p.cell i < 0 then 0 else p.p.cell i)
    count := if p.count > i + 1 then p.count else i + 1 }, ?_, hsize, ?_, fun j => ?_⟩
  · simp only [CSIParam.setDefault, Block.load_of_lt h0 hlt, ok_bind, Block.store_of_lt _ h0 hlt]
  · simp only
    split <;> omega
  · simp only [Block.set]
    have hj := h.cell_eq j
    by_cases hji : (j : Int) = i
    · obtain rfl : j = i := by omega
      rw [if_neg (by omega)] at hj
      rw [if_pos rfl, hj]
      simp
    · rw [if_neg hji, hj]
      congr 1
      rw [eq_iff_iff]
      omega

theorem forUp_setDefault {param : CSIParam} (hsize : param.p.size = csiParamMax) {n : Nat}
    (hcount : param.count = n) (hn : (n : Int) ≤ csiParamMax) :
    ∃ param', forUp (fun i param => CSIParam.setDefault i 0 param) 0 n param = .ok param' ∧
      param.DefaultedTo n n param' := by
  have hstart : param.DefaultedTo n 0 param :=
    ⟨hsize, hcount, fun j => by rw [if_neg (by omega)]⟩
  have hstep : ∀ (i : Int) (p : CSIParam), 0 ≤ i → i < 0 + n → param.DefaultedTo n i p →
      ∃ p', CSIParam.setDefault i 0 p = .ok p' ∧ param.DefaultedTo n (i + 1) p' := by
    intro i p hi hin hp
    obtain ⟨m, rfl⟩ := Int.eq_ofNat_of_zero_le hi
    exact hp.step hn (by omega)
  obtain ⟨param', hok, hdone⟩ := forUp_total 0 n hstep hstart
  exact ⟨param', hok, by simpa using hdone⟩

theorem decodeCsi_sgr {params : List (List UInt8)} (hp : IsParams params) (hne : params ≠ [])
    (hlen : params.length ≤ 16) (rest : List UInt8) (t : Terminal) (s : Screen) :
    ∃ tok, decodeCsi t (csiSequence [] params sgrByte ++ rest) s =
        .ok (tok, (csiSequence [] params sgrByte).length, s) ∧ tok.type = .sgr ∧
      tok.csi.Lists (sgrNumbers params) := by
  have hf : isFinal sgrByte = true := rfl
  have hcsi := VT100.getCSIParam_few (Or.inl rfl) hp hf hlen rest t s
  obtain ⟨hcmd, hsize, -⟩ := VT100.csiResult_few (Or.inl rfl) hp hf hlen rest
  obtain ⟨ps, last, rfl⟩ : ∃ ps last, params = ps ++ [last] :=
    ⟨params.dropLast, params.getLast hne, (List.dropLast_append_getLast hne).symm⟩
  have htable := csiResult_table (Or.inl rfl) hp (by simpa using hlen) hf rest
  generalize (csiResult (csiSequence [] (ps ++ [last]) sgrByte ++ rest)).param = param at *
  have hmax : csiParamMax = 16 := rfl
  have hcount : param.count = ((sgrNumbers (ps ++ [last])).length : Nat) := by
    rw [htable.count_eq, sgrNumbers_concat]
    split <;> simp
  have hroom : ((sgrNumbers (ps ++ [last])).length : Int) ≤ csiParamMax := by
    simp only [List.length_append, List.length_cons, List.length_nil] at hlen
    rw [sgrNumbers_concat]
    split
    · simp only [List.length_map]
      omega
    · simp only [List.length_map, List.length_append, List.length_cons, List.length_nil]
      omega
  obtain ⟨param', hok, hdone⟩ := forUp_setDefault hsize hcount hroom
  have hsize' := hdone.size_eq
  have hquestion : param.question = false := htable.question_eq
  have hcommand : csiCommand s.height param = .ok (.sgr, param') := by
    simp only [csiCommand, hcmd, sgrByte, hcount, Int.toNat_natCast]
    simp [hok, ok_bind]
  refine ⟨{ type := .sgr, csi := param' }, ?_, rfl, hdone.count_eq, fun i hi => ?_⟩
  · have hpos : 0 < (csiSequence [] (ps ++ [last]) sgrByte).length := by simp [csiSequence]
    have hcmd' : param.cmd ≠ 0xff ∧ param.cmd > 0 := by
      rw [hcmd]
      decide
    simp only [decodeCsi, hcsi, ok_bind, if_neg hcmd'.1, if_pos (And.intro hpos hcmd'.2),
      hquestion, Bool.false_eq_true, if_false, hcommand]
  · rw [Block.load_of_lt (by omega) (by rw [hsize']; omega), hdone.cell_eq i, htable.cell_eq i]
    simp only [Nat.cast_lt, hi, true_and, ← sgrNumber_eq]
    exact congrArg Except.ok (sgrNumbers_get hi).symm

namespace VT100

variable {v : VT100}

theorem processToken_sgr {tok : VT100TCC} (htype : tok.type = .sgr) (v : VT100) :
    v.processToken F tok = .ok v := by
  have hput : v.screen.putToken F v.terminal tok = .ok v.screen := by
    simp [Screen.putToken, Screen.dispatch, htype, ok_bind]
  simp [processToken, VT100.putToken, hput, htype, ok_bind]

/-- What follows a sequence that was all there was. -/
theorem tokenLoop_refresh (h : v.Wf) (hp : v.terminal.pending = []) (fuel : Nat) :
    ∃ s', tokenLoop F (fuel + 1) v = .ok { terminal := v.terminal.emptyStream, screen := s' } ∧
      v.screen.SameButDirty s' := by
  obtain ⟨s', hok, -, -⟩ := Screen.refresh_spec h.screen
  refine ⟨s', ?_, Screen.refresh_sameButDirty hok⟩
  simp only [tokenLoop, getNextToken, hp, ok_bind, VT100TCC.stops, VT100.refresh, hok]
  rfl

/-- The sequence is taken as one token, which the screen does nothing with. -/
theorem readInputStream_sgr_params (h : v.Wf) (hempty : v.terminal.pending = [])
    {params : List (List UInt8)} (hp : IsParams params) (hne : params ≠ [])
    (hlen : params.length ≤ 16) :
    ∃ v', v.readInputStream F (csiSequence [] params sgrByte) = .ok v' ∧ v'.Wf ∧
      v'.terminal.pending = [] ∧
      v'.terminal.attr = overwrite (sgrWrites (sgrNumbers params)) v.terminal.attr ∧
      v.screen.SameButDirty v'.screen := by
  obtain ⟨t₁, h₁, hwf₁, hmodes₁, hpending₁⟩ :=
    Terminal.putStreamData_spec h.terminal (csiSequence [] params sgrByte)
  rw [hempty, List.nil_append] at hpending₁
  obtain ⟨tok, hdecode, htype, hlists⟩ := decodeCsi_sgr hp hne hlen [] t₁ v.screen
  rw [List.append_nil] at hdecode
  obtain ⟨t₂, hattr, heffect⟩ := Terminal.setCharAttr_attr htype hlists t₁
  have hmode : setMode tok { v with terminal := t₁ } = .ok { v with terminal := t₁ } := by
    simp [setMode, htype]
  have hset : setCharAttr tok { v with terminal := t₁ } = .ok { v with terminal := t₂ } := by
    simp only [VT100.setCharAttr, hattr, ok_bind]
  have hwf₁' : Wf { v with terminal := t₁ } := ⟨hwf₁, h.screen⟩
  obtain ⟨v₂, hnext, hwf₂, hpending₂, hscreen₂, hmodes₂⟩ :=
    getNextToken_of_decode (F := F) hwf₁' (b := escByte) (by decide) hpending₁ hdecode
      (Nat.le_refl _) hmode hset
  have hstops : tok.stops = false := by simp [VT100TCC.stops, htype]
  have hpending₂' : v₂.terminal.pending = [] := by
    rw [hpending₂]
    exact List.drop_length
  obtain ⟨s₃, hend, hsame⟩ := tokenLoop_refresh (F := F) hwf₂ hpending₂'
    (0x5b :: ([] ++ (joinParams params ++ [sgrByte]))).length
  have hread : v.readInputStream F (csiSequence [] params sgrByte) =
      .ok { terminal := v₂.terminal.emptyStream, screen := s₃ } := by
    rw [readInputStream, VT100.putStreamData, h₁]
    simp only [ok_bind, hpending₁]
    rw [tokenLoop_token hnext hstops (processToken_sgr htype v₂)]
    exact hend
  have hscreen : v₂.screen = v.screen := hscreen₂
  refine ⟨_, hread, readInputStream_wf h hread, Terminal.emptyStream_pending _, ?_, ?_⟩
  · rw [(Terminal.emptyStream_sameModes _).attr_eq, hmodes₂.attr_eq, heffect, hmodes₁.attr_eq]
  · rw [← hscreen]
    exact hsame

/-- An SGR sequence sets what its numbers say and changes nothing that is shown. -/
theorem readInputStream_sgr (h : v.Wf) (hempty : v.terminal.pending = [])
    {params : List (List UInt8)} (hp : IsParams params) (hlen : params.length ≤ 16) :
    ∃ v', v.readInputStream F (csiSequence [] params sgrByte) = .ok v' ∧ v'.Wf ∧
      v'.terminal.pending = [] ∧
      v'.terminal.attr = overwrite (sgrWrites (sgrNumbers params)) v.terminal.attr ∧
      v.screen.SameButDirty v'.screen := by
  by_cases hne : params = []
  · -- no parameter and one blank parameter are the same bytes
    subst hne
    have hblank : IsParams [[]] := by simp [IsParams]
    have hread := readInputStream_sgr_params (F := F) h hempty hblank (by simp) (by simp)
    exact hread
  · exact readInputStream_sgr_params h hempty hp hne hlen

/-- A run of SGR sequences, each in a call of its own. -/
def feedSgr (F : Foundation) (run : List (List (List UInt8))) (v : VT100) : Res VT100 :=
  v.feed F (run.map fun params => csiSequence [] params sgrByte)

theorem feedSgr_cons (params : List (List UInt8)) (run : List (List (List UInt8))) (v : VT100) :
    v.feedSgr F (params :: run) = (do
      let v ← v.readInputStream F (csiSequence [] params sgrByte)
      v.feedSgr F run) := by
  rw [feedSgr, List.map_cons, feed, List.foldlM_cons]
  rfl

theorem feedSgr_attr (h : v.Wf) (hempty : v.terminal.pending = [])
    {run : List (List (List UInt8))} (hrun : ∀ params ∈ run, IsParams params ∧ params.length ≤ 16) :
    ∃ v', v.feedSgr F run = .ok v' ∧ v'.Wf ∧ v'.terminal.pending = [] ∧
      v'.terminal.attr =
        overwriteAll (fun params => sgrWrites (sgrNumbers params)) run v.terminal.attr := by
  induction run generalizing v with
  | nil => exact ⟨v, rfl, h, hempty, rfl⟩
  | cons params run ih =>
      obtain ⟨hp, hlen⟩ := hrun params (List.mem_cons_self ..)
      obtain ⟨v₁, h₁, hwf₁, hempty₁, hattr₁, -⟩ := readInputStream_sgr (F := F) h hempty hp hlen
      obtain ⟨v', h', hwf', hempty', hattr'⟩ :=
        ih hwf₁ hempty₁ fun params' hmem => hrun params' (List.mem_cons_of_mem _ hmem)
      refine ⟨v', by rw [feedSgr_cons, h₁, ok_bind, h'], hwf', hempty', ?_⟩
      rw [hattr', hattr₁]
      rfl

end VT100

end MobileTerminal
