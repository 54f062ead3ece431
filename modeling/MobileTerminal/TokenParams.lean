import MobileTerminal.Reachable

/-!
# The parameters of a token

What the handlers may rely on. A token carries up to sixteen numbers, and the
ones its handler reads have gone through the scan of the sequence and through
the defaults that `decode_csi` fills in. The scan multiplies by ten and adds
with the arithmetic of `int`, so a long number wraps around and may well end up
negative.

The first parameter of a token that `getNextToken` delivers is an `int`, and it
is not negative where a handler counts with it (`TokenType.counts`): the
defaults are filled in for every parameter below zero, so a number that has
wrapped around to a negative one gives way to the default, just as a blank
parameter does. All parameters of a token that sets attributes are of type
`int`, as far as its counter says.

`SequenceOk` is the statement for a complete control sequence. From it follows
what `getNextToken_params` says of every token, whatever decoder it comes from,
and that is what the theorems on the handlers take as their hypothesis.
-/

namespace MobileTerminal

/-- The tokens whose first parameter `putToken:` reads. -/
def TokenType.counts : TokenType → Bool
  | .cub | .cud | .cuf | .cup | .cuu | .decstbm | .ed | .el | .hvp | .tbc | .decset | .decrst
  | .cha | .vpa | .vpr | .ech | .print | .insblnk | .insln | .delch | .delln | .su | .sd => true
  | _ => false

/-- What the first parameter of a delivered token may be: of type `int`, and for a token that
counts rows or columns with it not negative. -/
structure VT100TCC.ParamsOk (tok : VT100TCC) : Prop where
  isInt : IsInt (tok.csi.p.cell 0)
  nonneg : tok.type.counts = true → 0 ≤ tok.csi.p.cell 0

/-! ## The scan -/

/-- All numbers read so far are of type `int`. -/
structure CsiState.Ints (st : CsiState) : Prop where
  cells : ∀ i, IsInt (st.param.p.cell i)
  num : ∀ n, st.num = some n → IsInt n

theorem CsiState.Ints.commit {st : CsiState} (h : st.Ints) : st.commit.Ints := by
  cases hn : st.num with
  | none =>
      rw [CsiState.commit, hn]
      exact h
  | some n =>
      rw [CsiState.commit, hn]
      refine ⟨fun i => ?_, fun _ h' => by cases h'⟩
      simp only [CSIParam.addNumber]
      split
      · simp only [Block.set]
        split
        · exact h.num n hn
        · exact h.cells i
      · exact h.cells i

theorem digit_isInt {b : UInt8} (h : isDigit b = true) : IsInt ((b.toNat : Int) - 0x30) := by
  simp only [isDigit, Bool.and_eq_true, decide_eq_true_eq, UInt8.le_iff_toNat_le,
    UInt8.reduceToNat] at h
  unfold IsInt
  omega

theorem CsiState.Ints.step {st : CsiState} (h : st.Ints) (b : UInt8) : (st.step b).Ints := by
  unfold CsiState.step
  split
  · exact h
  · split
    · rename_i hb
      refine ⟨h.cells, fun n hn => ?_⟩
      cases hn
      unfold CsiState.addDigit
      split
      · exact digit_isInt hb
      · exact cint_isInt _
    · have hc := h.commit
      unfold CsiState.punctuate
      split
      · refine ⟨fun i => ?_, hc.num⟩
        simp only [CSIParam.addBlank]
        split <;> exact hc.cells i
      · split
        · exact ⟨hc.cells, hc.num⟩
        · split
          · exact ⟨hc.cells, hc.num⟩
          · split
            · exact ⟨hc.cells, hc.num⟩
            · exact ⟨hc.cells, hc.num⟩

theorem csiStart_ints (datap : List UInt8) : (csiStart datap).Ints := by
  refine ⟨fun i => ?_, fun _ h => by cases h⟩
  have hneg : IsInt (-1) := by
    unfold IsInt
    omega
  simp only [csiStart, CsiState.start, csiPrefix]
  split <;> exact hneg

theorem csiResult_ints (datap : List UInt8) (i : Int) :
    IsInt ((csiResult datap).param.p.cell i) := by
  have hscan : ∀ (bytes : List UInt8) (st : CsiState), st.Ints → (csiScan st bytes).Ints := by
    intro bytes
    induction bytes with
    | nil => exact fun _ h => h
    | cons b bs ih => exact fun st h => ih (st.step b) (h.step b)
  exact ((hscan _ _ (csiStart_ints datap)).commit).cells i

/-! ## Defaults -/

variable {param param' : CSIParam} {type : TokenType}

theorem setDefault_cell {n d : Int} (hok : param.setDefault n d = .ok param') (i : Int) :
    param'.p.cell i = if i = n then (if param.p.cell n < 0 then d else param.p.cell n)
      else param.p.cell i := by
  obtain ⟨v, hv, hok⟩ := bind_eq_ok.mp hok
  obtain ⟨p, hp, hok⟩ := bind_eq_ok.mp hok
  obtain ⟨-, rfl⟩ := Block.load_eq_ok.mp hv
  obtain ⟨-, rfl⟩ := Block.store_eq_ok.mp hp
  cases hok
  rfl

/-- The first parameter of a decoded sequence. -/
def FirstOk (r : TokenType × CSIParam) : Prop :=
  IsInt (r.2.p.cell 0) ∧ (r.1.counts = true → 0 ≤ r.2.p.cell 0)

theorem default1_first (h : IsInt (param.p.cell 0)) {d : Int} (hd : d = 0 ∨ d = 1)
    {r : TokenType × CSIParam} (hok : param.default1 type d = .ok r) : FirstOk r := by
  obtain ⟨p, hp, hok⟩ := bind_eq_ok.mp hok
  have hcell := setDefault_cell hp 0
  cases hok
  unfold FirstOk IsInt at *
  simp only [if_true] at hcell
  simp only [hcell]
  constructor
  · split <;> omega
  · intro _
    split <;> omega

theorem default2_first (h : IsInt (param.p.cell 0)) {d d' : Int} (hd : d = 0 ∨ d = 1)
    {r : TokenType × CSIParam} (hok : param.default2 type 0 d 1 d' = .ok r) : FirstOk r := by
  obtain ⟨p, hp, hok⟩ := bind_eq_ok.mp hok
  obtain ⟨p', hp', hok⟩ := bind_eq_ok.mp hok
  have hcell := setDefault_cell hp 0
  have hcell' := setDefault_cell hp' 0
  cases hok
  unfold FirstOk IsInt at *
  simp only [if_true] at hcell
  simp only [show ¬((0 : Int) = 1) by decide, if_false] at hcell'
  simp only [hcell', hcell]
  constructor
  · split <;> omega
  · intro _
    split <;> omega

theorem other_first (h : IsInt (param.p.cell 0)) (htype : type.counts = false) :
    FirstOk (type, param) :=
  ⟨h, fun hc => by rw [htype] at hc; cases hc⟩

theorem windowOp_first (h : IsInt (param.p.cell 0)) {r : TokenType × CSIParam}
    (hok : windowOp param = .ok r) : FirstOk r := by
  have htwo : ∀ type' : TokenType, type'.counts = false →
      param.default2 type' 1 0 2 0 = .ok r → FirstOk r := by
    intro type' htype hok
    obtain ⟨p, hp, hok⟩ := bind_eq_ok.mp hok
    obtain ⟨p', hp', hok⟩ := bind_eq_ok.mp hok
    have hcell := setDefault_cell hp 0
    have hcell' := setDefault_cell hp' 0
    cases hok
    refine other_first ?_ htype
    simp only [show ¬((0 : Int) = 1) by decide, show ¬((0 : Int) = 2) by decide, if_false] at *
    rw [hcell', hcell]
    exact h
  obtain ⟨op, -, hok⟩ := bind_eq_ok.mp hok
  split at hok
  all_goals first
    | exact htwo _ rfl hok
    | (cases hok; exact other_first h rfl)

theorem sgr_first (h : IsInt (param.p.cell 0)) {n : Nat}
    (hok : forUp (fun i param => CSIParam.setDefault i 0 param) 0 n param = .ok param') :
    IsInt (param'.p.cell 0) := by
  refine forUp_inv (P := fun _ (p : CSIParam) => IsInt (p.p.cell 0)) ?_ h hok
  intro i p p' _ _ hp hs
  rw [setDefault_cell hs 0]
  unfold IsInt at *
  split
  · rename_i hi
    subst hi
    split <;> omega
  · exact hp

theorem csiCommand_first (h : IsInt (param.p.cell 0)) {height : Int} {r : TokenType × CSIParam}
    (hok : csiCommand height param = .ok r) : FirstOk r := by
  unfold csiCommand at hok
  split at hok
  case h_16 =>
    obtain ⟨p, hp, hok⟩ := bind_eq_ok.mp hok
    cases hok
    exact other_first (sgr_first h hp) rfl
  case h_23 => exact windowOp_first h hok
  case h_25 =>
    split at hok
    · exact default1_first h (Or.inr rfl) hok
    · cases hok
      exact other_first h rfl
  all_goals first
    | exact default1_first h (Or.inl rfl) hok
    | exact default1_first h (Or.inr rfl) hok
    | exact default2_first h (Or.inr rfl) hok
    | (cases hok; exact other_first h rfl)
    | (cases hok; split <;> exact other_first h rfl)

theorem csiPrivate_first (h : IsInt (param.p.cell 0)) {r : TokenType × CSIParam}
    (hok : csiPrivate param = .ok r) : FirstOk r := by
  unfold csiPrivate at hok
  split at hok
  · exact default1_first h (Or.inl rfl) hok
  · exact default1_first h (Or.inl rfl) hok
  · cases hok
    exact other_first h rfl

/-! ## Attributes -/

/-- A complete control sequence is not waited for and never saves the cursor, and its
attributes are numbers of type `int`. -/
structure SequenceOk (r : TokenType × CSIParam) : Prop where
  not_wait : r.1 ≠ .wait
  not_save : r.1 ≠ .decsc
  not_restore : r.1 ≠ .decrc
  attrs : r.1 = .sgr → ∀ i, IsInt (r.2.p.cell i)

theorem sequenceOk_of_type {r : TokenType × CSIParam} (hr : r.1 = type)
    (htype : type ≠ .wait ∧ type ≠ .decsc ∧ type ≠ .decrc ∧ type ≠ .sgr) : SequenceOk r := by
  subst hr
  obtain ⟨hwait, hsave, hrestore, hsgr⟩ := htype
  exact ⟨hwait, hsave, hrestore, fun h => absurd h hsgr⟩

theorem sequenceOk_mk
    (htype : type ≠ .wait ∧ type ≠ .decsc ∧ type ≠ .decrc ∧ type ≠ .sgr) :
    SequenceOk (type, param) :=
  sequenceOk_of_type rfl htype

theorem default1_type {d : Int} {r : TokenType × CSIParam}
    (hok : param.default1 type d = .ok r) : r.1 = type := by
  obtain ⟨p, -, hok⟩ := bind_eq_ok.mp hok
  cases hok
  rfl

theorem default2_type {n d n' d' : Int} {r : TokenType × CSIParam}
    (hok : param.default2 type n d n' d' = .ok r) : r.1 = type := by
  obtain ⟨p, -, hok⟩ := bind_eq_ok.mp hok
  obtain ⟨p', -, hok⟩ := bind_eq_ok.mp hok
  cases hok
  rfl

theorem sgr_ints (h : ∀ i, IsInt (param.p.cell i)) {n : Nat}
    (hok : forUp (fun i param => CSIParam.setDefault i 0 param) 0 n param = .ok param') (i : Int) :
    IsInt (param'.p.cell i) := by
  refine forUp_inv (P := fun _ (p : CSIParam) => ∀ i, IsInt (p.p.cell i)) ?_ h hok i
  intro k p p' _ _ hp hs i
  have hk := hp k
  rw [setDefault_cell hs i]
  unfold IsInt at *
  split
  · split <;> omega
  · exact hp i

theorem windowOp_sequenceOk {r : TokenType × CSIParam} (hok : windowOp param = .ok r) :
    SequenceOk r := by
  obtain ⟨op, -, hok⟩ := bind_eq_ok.mp hok
  split at hok
  all_goals first
    | exact sequenceOk_of_type (default2_type hok) (by decide)
    | (cases hok; exact sequenceOk_mk (by decide))

theorem csiCommand_sequenceOk (h : ∀ i, IsInt (param.p.cell i)) {height : Int}
    {r : TokenType × CSIParam} (hok : csiCommand height param = .ok r) : SequenceOk r := by
  unfold csiCommand at hok
  split at hok
  case h_16 =>
    obtain ⟨p, hp, hok⟩ := bind_eq_ok.mp hok
    cases hok
    exact ⟨nofun, nofun, nofun, fun _ => sgr_ints h hp⟩
  case h_23 => exact windowOp_sequenceOk hok
  case h_25 =>
    split at hok
    · exact sequenceOk_of_type (default1_type hok) (by decide)
    · cases hok
      exact sequenceOk_mk (by decide)
  all_goals first
    | exact sequenceOk_of_type (default1_type hok) (by decide)
    | exact sequenceOk_of_type (default2_type hok) (by decide)
    | (cases hok; split <;> exact sequenceOk_mk (by decide))
    | (cases hok; exact sequenceOk_mk (by decide))

theorem csiPrivate_sequenceOk {r : TokenType × CSIParam} (hok : csiPrivate param = .ok r) :
    SequenceOk r := by
  unfold csiPrivate at hok
  split at hok
  all_goals first
    | exact sequenceOk_of_type (default1_type hok) (by decide)
    | (cases hok; exact sequenceOk_mk (by decide))

theorem csi_sequenceOk {datap : List UInt8} {height : Int} {r : TokenType × CSIParam}
    (hok : (if (csiResult datap).param.question then csiPrivate (csiResult datap).param
      else csiCommand height (csiResult datap).param) = .ok r) : SequenceOk r := by
  split at hok
  · exact csiPrivate_sequenceOk hok
  · exact csiCommand_sequenceOk (csiResult_ints datap) hok

theorem decodeCsi_cases {t : Terminal} {datap : List UInt8} {s s' : Screen} {tok : VT100TCC}
    {n : Nat} (hok : decodeCsi t datap s = .ok (tok, n, s')) :
    tok = { type := .unknownChar } ∨ SequenceOk (tok.type, tok.csi) ∨
      tok = { type := .wait } ∧ (csiResult datap).param.cmd = 0 := by
  rw [decodeCsi, getCSIParam_eq, bind_assoc] at hok
  obtain ⟨s₁, -, hok⟩ := bind_eq_ok.mp hok
  simp only [ok_bind] at hok
  split at hok
  · cases hok
    exact Or.inl rfl
  · split at hok
    · obtain ⟨r, hr, hok⟩ := bind_eq_ok.mp hok
      cases hok
      exact Or.inr (Or.inl (csi_sequenceOk hr))
    · rename_i hlen
      cases hok
      have htaken := two_le_csiResult_taken datap
      exact Or.inr (Or.inr ⟨rfl, by omega⟩)

/-! ## Tokens -/

theorem zero_isInt : IsInt 0 := by
  unfold IsInt
  omega

theorem paramsOk_of_zero {tok : VT100TCC} (h : tok.csi = CSIParam.zero) : tok.ParamsOk := by
  have hcell : tok.csi.p.cell 0 = 0 := by
    rw [h]
    rfl
  constructor
  · rw [hcell]
    exact zero_isInt
  · rw [hcell]
    exact fun _ => Int.le_refl 0

theorem decodeCsi_params {t : Terminal} {datap : List UInt8} {s s' : Screen} {tok : VT100TCC}
    {n : Nat} (hok : decodeCsi t datap s = .ok (tok, n, s')) : tok.ParamsOk := by
  rw [decodeCsi, getCSIParam_eq, bind_assoc] at hok
  obtain ⟨s₁, -, hok⟩ := bind_eq_ok.mp hok
  simp only [ok_bind] at hok
  have hints := csiResult_ints datap 0
  split at hok
  · cases hok
    exact paramsOk_of_zero rfl
  · split at hok
    · obtain ⟨⟨type, param⟩, htype, hok⟩ := bind_eq_ok.mp hok
      cases hok
      have hfirst : FirstOk (type, param) := by
        split at htype
        · exact csiPrivate_first hints htype
        · exact csiCommand_first hints htype
      exact ⟨hfirst.1, hfirst.2⟩
    · cases hok
      exact paramsOk_of_zero rfl

theorem decodeOther_csi (c1 : UInt8) (c2 : Option UInt8) :
    (decodeOther c1 c2).1.csi = CSIParam.zero := by
  have hthree : ∀ type, (threeByte type c2).1.csi = CSIParam.zero := by
    intro type
    cases c2 <;> rfl
  unfold decodeOther
  split
  all_goals first
    | exact hthree _
    | rfl

theorem decodePlain_csi (datap : List UInt8) : (decodePlain datap).1.csi = CSIParam.zero := by
  cases datap with
  | nil => rfl
  | cons b rest =>
      rw [decodePlain.eq_def]
      simp only
      split
      · rfl
      · split
        · cases rest with
          | nil => rfl
          | cons c1 rest => exact decodeOther_csi c1 _
        · rfl

theorem decodeControl_params {t : Terminal} {datap : List UInt8} {s s' : Screen}
    {tok : VT100TCC} {n : Nat} (hok : decodeControl t datap s = .ok (tok, n, s')) :
    tok.ParamsOk := by
  by_cases hcsi : isCSI datap = true
  · rw [decodeControl_csi hcsi] at hok
    exact decodeCsi_params hok
  · rw [decodeControl_plain hcsi] at hok
    cases hok
    exact paramsOk_of_zero (decodePlain_csi datap)

/-- What `getNextToken` delivers. -/
theorem VT100.getNextToken_params {F : Foundation} {v v' : VT100} {tok : VT100TCC}
    (hok : v.getNextToken F = .ok (tok, v')) : tok.ParamsOk := by
  cases getNextToken_fetches hok with
  | empty hp => exact paramsOk_of_zero rfl
  | text hp htext h₁ =>
      refine paramsOk_of_zero ?_
      unfold decodeAsciiString
      simp only
      split <;> rfl
  | control hp hb hdecode hmode hattr h₁ => exact decodeControl_params hdecode
  | undecoded hp hb hdecode hne h₁ => exact paramsOk_of_zero rfl
  | string hp hb hdecode hzero h₁ =>
      refine paramsOk_of_zero ?_
      unfold decodeString at hdecode
      simp only at hdecode
      split at hdecode
      · cases hdecode
        rfl
      · split at hdecode <;> cases hdecode <;> rfl
  | unknown hp hb h₁ => exact paramsOk_of_zero rfl

/-! ## Where tokens come from -/

/-- The tokens that are answered without decoding a control character. -/
def TokenType.isPlain : TokenType → Bool
  | .wait | .asciiString | .string | .unknownChar | .cc 0 => true
  | _ => false

theorem decodeAsciiString_type (F : Foundation) (datap : List UInt8) :
    (decodeAsciiString F datap).1.type.isPlain = true := by
  unfold decodeAsciiString
  simp only
  split
  · split <;> rfl
  · rfl

theorem decodeString_type (F : Foundation) (datap : List UInt8) (encoding : Encoding) :
    (decodeString F datap encoding).1.type.isPlain = true := by
  unfold decodeString
  simp only
  split
  · rfl
  · split <;> rfl

/-- Every other token is decoded from a control character, and the modes and attributes
it sets are set on the screen its embedded controls have left. -/
theorem VT100.getNextToken_of_control {F : Foundation} {v v' : VT100} {tok : VT100TCC}
    (htok : tok.type.isPlain = false) (hok : v.getNextToken F = .ok (tok, v')) :
    ∃ n s v₁ v₂, decodeControl v.terminal v.terminal.pending v.screen = .ok (tok, n, s) ∧
      setMode tok { v with screen := s } = .ok v₁ ∧ v₁.setCharAttr tok = .ok v₂ ∧
      v₂.advance n = .ok v' := by
  cases getNextToken_fetches hok with
  | empty hp => cases htok
  | text hp htext h₁ =>
      rw [decodeAsciiString_type] at htok
      cases htok
  | control hp hb hdecode hmode hattr h₁ => exact ⟨_, _, _, _, hdecode, hmode, hattr, h₁⟩
  | undecoded hp hb hdecode hwait h₁ => cases htok
  | string hp hb hdecode hwait h₁ =>
      have htype := decodeString_type F v.terminal.pending v.terminal.encoding
      rw [hdecode] at htype
      rw [htype] at htok
      cases htok
  | unknown hp hb h₁ => cases htok

end MobileTerminal
