import MobileTerminal.Sequence

/-!
# The size of the screen

A client sets the size and feeds bytes, in any order. Only `setScreenSize:`
changes the size, and what the calls leave is a function of the sizes alone
(`runCalls_size`): no byte that is read changes the width or the height, neither
by a token nor by a control character inside a sequence.

One would expect the last size to be the one that counts. It is not always:
`resizeWidth:height:` returns at once when the width or the height of the screen
is zero already, so the first size with a zero component is also the last one
that has an effect. `sizeAfter` is this rule for one call, and the size after
all calls is a fold of it over the history. `last_size_wins_iff` reads off when
the fold is the last size of the list.

The theorems are about histories whose calls complete. A resize may also stop on
an assertion, for instance after the cursor has left the screen at the top, and
then there is no size to speak of.
-/

namespace MobileTerminal

namespace Screen

variable {F : Foundation} {t : Terminal} {s s' : Screen}

def size (s : Screen) : Int × Int := (s.width, s.height)

theorem Keeps.size_eq (h : Keeps s s') : s'.size = s.size :=
  Prod.ext h.width_eq h.height_eq

theorem Draws.size_eq (hd : Draws s s') : s'.size = s.size := hd.keeps.size_eq

theorem decodeControl_size {datap : List UInt8} {tok : VT100TCC} {n : Nat}
    (hok : decodeControl t datap s = .ok (tok, n, s')) : s'.size = s.size :=
  decodeControl_inv (P := fun s' => s'.size = s.size)
    (fun _ _ _ hs hstep => (control_keeps hstep).size_eq.trans hs) rfl hok

/-- The size a resize asks for is the size afterwards, except on a screen that has no cell,
where a resize has no effect. -/
def resized (size new : Int × Int) : Int × Int :=
  if size.1 = 0 ∨ size.2 = 0 then size else new

theorem install_size (T w h : Int) (r : Reflow) (bl : Block ScreenChar) (s : Screen) :
    (s.install T w h r bl).size = (w, h) := rfl

theorem resizeWidth_size {w h : Int} (hok : s.resizeWidth t w h = .ok s') :
    s'.size = resized s.size (w, h) := by
  unfold resizeWidth at hok
  split at hok
  · rename_i hsame
    cases hok
    obtain hw | hh | ⟨hw, hh⟩ := hsame
    · exact (if_pos (Or.inl hw)).symm
    · exact (if_pos (Or.inr hh)).symm
    · rw [hw, hh]
      exact (ite_self _).symm
  · rename_i hsame
    obtain ⟨trimmed, -, hok⟩ := bind_eq_ok.mp hok
    obtain ⟨r, -, hok⟩ := bind_eq_ok.mp hok
    obtain ⟨bl, -, hok⟩ := bind_eq_ok.mp hok
    obtain ⟨s₁, h₁, hok⟩ := bind_eq_ok.mp hok
    rw [(refresh_draws hok).size_eq, (setDirty_draws h₁).size_eq, install_size]
    exact (if_neg (fun hzero => hsame (hzero.imp_right Or.inl))).symm

/-- A new screen can be resized to no rows at all. -/
theorem Fresh.resizeWidth_zero {w h : Nat} (hs : s.Fresh w h) (hh : 0 < h) (t : Terminal)
    (w' : Nat) (hw' : 0 < w') : ∃ s', s.resizeWidth t w' 0 = .ok s' := by
  have hclosed : Wrap.Closed ScreenChar.isNul s.rows := fun row hrow =>
    Wrap.marked_of_nul (hs.blank row (List.mem_of_getLast? hrow))
  obtain ⟨s₀, height, r, bl, out, -, -, -, -, heq⟩ := resizeWidth_copied (h := 0) t hs.wf
    (by rw [hs.cursor.2]) (by rw [hs.cursor.2, hs.height_eq]; omega) hclosed hw'
    (by rw [hs.height_eq]; omega)
  generalize hs₁ : s₀.install (s.maxScrollbackLines + (0 : Nat)) w' (0 : Nat) r bl = s₁ at heq
  have harea : s₁.width * s₁.height = 0 := by
    rw [← hs₁]
    exact Int.mul_zero _
  obtain ⟨s₂, h₂, hd₂, -⟩ := setDirty_of_area (s := s₁) (by rw [harea])
  obtain ⟨s₃, h₃, -⟩ := refresh_of_area (s := s₂)
    (by rw [hd₂.width_eq, hd₂.height_eq, harea])
  refine ⟨s₃, heq.trans ?_⟩
  rw [h₂, ok_bind, h₃]

end Screen

namespace VT100

variable {F : Foundation} {v v' : VT100}

/-! ## Reading keeps the size -/

theorem setMode_size {tok : VT100TCC} (hok : v.setMode tok = .ok v') :
    v'.screen.size = v.screen.size := by
  obtain ⟨temp, hd⟩ := setMode_screen hok
  exact hd.size_eq

theorem getNextToken_size {tok : VT100TCC} (hok : v.getNextToken F = .ok (tok, v')) :
    v'.screen.size = v.screen.size := by
  cases getNextToken_fetches hok with
  | empty hp => rfl
  | text hp htext h₁ => rw [advance_screen h₁]
  | control hp hb hdecode hmode hattr h₁ =>
      rw [advance_screen h₁, setCharAttr_screen hattr, setMode_size hmode]
      exact Screen.decodeControl_size hdecode
  | undecoded hp hb hdecode hwait h₁ =>
      rw [advance_screen h₁]
      rfl
  | string hp hb hdecode hwait h₁ =>
      rw [advance_screen h₁]
      rfl
  | unknown hp hb h₁ => rw [advance_screen h₁]

theorem processToken_size {tok : VT100TCC} (hok : v.processToken F tok = .ok v') :
    v'.screen.size = v.screen.size := by
  unfold processToken at hok
  split at hok
  · cases hok
    rfl
  · obtain ⟨s, hs, hok⟩ := bind_eq_ok.mp hok
    cases hok
    obtain ⟨hwidth, hheight, -⟩ := Screen.putToken_kept hs
    exact Prod.ext hwidth hheight

theorem tokenLoop_size {fuel : Nat} (hok : tokenLoop F fuel v = .ok v') :
    v'.screen.size = v.screen.size := by
  induction fuel generalizing v with
  | zero => cases hok
  | succ fuel ih =>
      obtain ⟨⟨tok, v₁⟩, h₁, hok⟩ := bind_eq_ok.mp hok
      simp only at hok
      split at hok
      · obtain ⟨s, hs, hok⟩ := bind_eq_ok.mp hok
        cases hok
        exact (Screen.refresh_draws hs).size_eq.trans (getNextToken_size h₁)
      · obtain ⟨v₂, h₂, hok⟩ := bind_eq_ok.mp hok
        rw [ih hok, processToken_size h₂, getNextToken_size h₁]

theorem readInputStream_size {data : List UInt8} (hok : v.readInputStream F data = .ok v') :
    v'.screenSize = v.screenSize := by
  obtain ⟨v₁, h₁, hok⟩ := bind_eq_ok.mp hok
  obtain ⟨t, -, h₁⟩ := bind_eq_ok.mp h₁
  cases h₁
  exact (tokenLoop_size hok).trans rfl

theorem setScreenSize_size {w h : Int} (hok : v.setScreenSize w h = .ok v') :
    v'.screenSize = Screen.resized v.screenSize (w, h) := by
  obtain ⟨s, hs, hok⟩ := bind_eq_ok.mp hok
  cases hok
  exact Screen.resizeWidth_size hs

/-- Width and height are of type `int`. -/
def IntSize (size : Int × Int) : Prop := IsInt size.1 ∧ IsInt size.2

theorem step_intSize {c c' : Config} {e : Event} (h : IntSize c.2.screen.size)
    (hguard : SizesPositive c e) (hstep : Step F c e c') : IntSize c'.2.screen.size := by
  cases hstep with
  | put hok =>
      obtain ⟨t, -, hok⟩ := bind_eq_ok.mp hok
      cases hok
      exact h
  | token hok hs => exact (getNextToken_size hok).symm ▸ h
  | stop hok hs hrefresh =>
      obtain ⟨s, hs', hrefresh⟩ := bind_eq_ok.mp hrefresh
      cases hrefresh
      exact ((Screen.refresh_draws hs').size_eq.trans (getNextToken_size hok)).symm ▸ h
  | exec hok => exact (processToken_size hok).symm ▸ h
  | setScreenSize hok =>
      obtain ⟨-, hw, -, hh⟩ := hguard
      change IntSize (screenSize _)
      rw [setScreenSize_size hok, Screen.resized]
      split
      · exact h
      · exact ⟨hw, hh⟩
  | clearScreen hok =>
      obtain ⟨s, hs, hok⟩ := bind_eq_ok.mp hok
      cases hok
      exact (Screen.clearBuffer_keeps hs).size_eq.symm ▸ h

theorem reachable_intSize {c : Config} (hr : Reachable F c) : IntSize c.2.screen.size := by
  refine Reach.invariant (I := fun c : Config => IntSize c.2.screen.size) ?_ ?_ hr
  · rintro c ⟨fresh, v, hv, rfl⟩
    obtain ⟨v₀, hv₀, -, hs⟩ := init_fresh fresh
    obtain rfl := Except.ok.inj (hv₀.symm.trans hv)
    have hsize : v₀.screen.size = (kDefaultWidth, kDefaultHeight) :=
      Prod.ext hs.width_eq hs.height_eq
    rw [hsize]
    exact ⟨⟨by decide, by decide⟩, ⟨by decide, by decide⟩⟩
  · intro c e c' hI hguard hstep
    exact step_intSize hI hguard hstep

/-! ## A client's calls -/

inductive Call where
  | readInputStream (data : List UInt8)
  | setScreenSize (width height : Int)

def call (F : Foundation) (v : VT100) : Call → Res VT100
  | .readInputStream data => v.readInputStream F data
  | .setScreenSize width height => v.setScreenSize width height

def runCalls (F : Foundation) (calls : List Call) (v : VT100) : Res VT100 :=
  calls.foldlM (call F) v

/-- What a call makes of the size. -/
def sizeAfter (size : Int × Int) : Call → Int × Int
  | .readInputStream _ => size
  | .setScreenSize width height => Screen.resized size (width, height)

theorem call_size {c : Call} (hok : call F v c = .ok v') :
    v'.screenSize = sizeAfter v.screenSize c := by
  cases c with
  | readInputStream data => exact readInputStream_size hok
  | setScreenSize width height => exact setScreenSize_size hok

theorem runCalls_size {calls : List Call} (hok : runCalls F calls v = .ok v') :
    v'.screenSize = calls.foldl sizeAfter v.screenSize := by
  induction calls generalizing v with
  | nil =>
      cases hok
      rfl
  | cons c calls ih =>
      rw [runCalls, List.foldlM_cons] at hok
      obtain ⟨v₁, h₁, hok⟩ := bind_eq_ok.mp hok
      rw [List.foldl_cons, ← call_size h₁]
      exact ih hok

/-- No call has asked for a screen without cells. -/
def SizesNonzero (calls : List Call) : Prop :=
  ∀ w h, Call.setScreenSize w h ∈ calls → w ≠ 0 ∧ h ≠ 0

theorem foldl_sizeAfter_stuck (calls : List Call) {w h : Int} (hzero : w = 0 ∨ h = 0) :
    calls.foldl sizeAfter (w, h) = (w, h) := by
  induction calls with
  | nil => rfl
  | cons c calls ih =>
      have hstay : sizeAfter (w, h) c = (w, h) := by
        cases c with
        | readInputStream data => rfl
        | setScreenSize w' h' => exact if_pos hzero
      rw [List.foldl_cons, hstay, ih]

/-- A screen has cells as long as no call has asked for one without. -/
theorem foldl_sizeAfter_nonzero (calls : List Call) (size : Int × Int)
    (hsize : size.1 ≠ 0 ∧ size.2 ≠ 0) :
    ((calls.foldl sizeAfter size).1 ≠ 0 ∧ (calls.foldl sizeAfter size).2 ≠ 0) ↔
      SizesNonzero calls := by
  induction calls generalizing size with
  | nil => simp [SizesNonzero, hsize]
  | cons c calls ih =>
      have hmem : SizesNonzero (c :: calls) ↔
          (∀ w h, c = .setScreenSize w h → w ≠ 0 ∧ h ≠ 0) ∧ SizesNonzero calls := by
        constructor
        · intro hall
          exact ⟨fun w h hc => hall w h (by simp [hc]), fun w h hc => hall w h (by simp [hc])⟩
        · rintro ⟨hc, hall⟩ w h hmem
          obtain heq | hmem := List.mem_cons.mp hmem
          · exact hc w h heq.symm
          · exact hall w h hmem
      rw [List.foldl_cons, hmem]
      cases c with
      | readInputStream data => simpa [sizeAfter] using ih size hsize
      | setScreenSize w h =>
          have hnew : sizeAfter size (.setScreenSize w h) = (w, h) :=
            if_neg (fun hzero => hzero.elim hsize.1 hsize.2)
          rw [hnew]
          by_cases hzero : w ≠ 0 ∧ h ≠ 0
          · simpa [hzero] using ih (w, h) hzero
          · rw [foldl_sizeAfter_stuck calls (by omega)]
            constructor
            · intro hc
              exact absurd hc hzero
            · intro hall
              exact absurd (hall.1 w h rfl) hzero

theorem init_screenSize {fresh : ScreenChar} (hinit : init fresh = .ok v) :
    v.screenSize = (kDefaultWidth, kDefaultHeight) := by
  obtain ⟨v₀, hv₀, -, hs⟩ := init_fresh fresh
  obtain rfl : v₀ = v := Except.ok.inj (hv₀.symm.trans hinit)
  exact Prod.ext hs.width_eq hs.height_eq

/-- The last size a client sets is the size of the screen exactly when no size before it had a
zero component. Bytes may be read before and between the resizes; they do not matter. The
last size itself may well be one without cells. -/
theorem last_size_wins_iff {fresh : ScreenChar} {calls : List Call} {w h : Int}
    (hinit : init fresh = .ok v) (hw : 1 ≤ w) (hh : 1 ≤ h)
    (hrun : runCalls F (calls ++ [.setScreenSize w h]) v = .ok v') :
    v'.screenSize = (w, h) ↔ SizesNonzero calls := by
  have hsize := runCalls_size hrun
  rw [List.foldl_append, List.foldl_cons, List.foldl_nil, init_screenSize hinit] at hsize
  have hiff := foldl_sizeAfter_nonzero calls (kDefaultWidth, kDefaultHeight) (by decide)
  generalize calls.foldl sizeAfter (kDefaultWidth, kDefaultHeight) = size at hsize hiff
  rw [hsize, ← hiff]
  constructor
  · intro hlast
    by_contra hzero
    have hstay : sizeAfter size (.setScreenSize w h) = size := if_pos (by omega)
    rw [hstay] at hlast
    exact hzero (by rw [hlast]; omega)
  · intro hnonzero
    exact if_neg (by omega)

/-- A new object is resized, two rows of text are read, and it is resized again. -/
theorem text_size_wins : ∃ v v', init ⟨0, 0, 0⟩ = .ok v ∧
    runCalls Foundation.latin1
      [.setScreenSize 20 5, .readInputStream textBytes, .setScreenSize 40 10] v = .ok v' ∧
    v'.screenSize = (40, 10) := by
  obtain ⟨v, v₁, hinit, h₁, ht, hfresh⟩ := sized_fresh ⟨0, 0, 0⟩ (w := 20) (h := 5) (by decide)
    (by decide)
  obtain ⟨v₂, first, row, h₂, -, hs, -⟩ := fresh_text Foundation.latin1_asciiExact hfresh
    (by decide) (by decide) ht
  have hne : ¬(((40 : Nat) : Int) = v₂.screen.width ∧ ((10 : Nat) : Int) = v₂.screen.height) :=
    fun h => absurd (h.1.trans hs.width_eq) (by decide)
  obtain ⟨s', -, hsize, -⟩ := Screen.resizeWidth_spec v₂.terminal hs.wf hs.cursor_range.1
    hs.cursor_range.2 (hs.closed (by rw [List.length_singleton]; decide)) (by decide) (by decide) hne
  have h₃ : v₂.setScreenSize 40 10 = .ok { v₂ with screen := s' } := congrArg (· >>= _) hsize
  have hrun : runCalls Foundation.latin1
      ([.setScreenSize 20 5, .readInputStream textBytes] ++ [.setScreenSize 40 10]) v =
        .ok { v₂ with screen := s' } := by
    have h₁ : v.setScreenSize 20 5 = .ok v₁ := h₁
    simp only [runCalls, List.cons_append, List.nil_append, List.foldlM_cons, List.foldlM_nil, call,
      h₁, h₂, h₃, ok_bind]
    rfl
  refine ⟨v, _, hinit, hrun, (last_size_wins_iff hinit (by decide) (by decide) hrun).mpr ?_⟩
  intro w h hmem
  simp only [List.mem_cons, Call.setScreenSize.injEq, reduceCtorEq, List.not_mem_nil,
    or_false] at hmem
  rw [hmem.1, hmem.2]
  decide

/-- No rows, then 40 columns and 10 rows: the screen stays without rows. -/
theorem zero_size_sticks : ∃ v v', init ⟨0, 0, 0⟩ = .ok v ∧
    runCalls Foundation.latin1 [.setScreenSize 80 0, .setScreenSize 40 10] v = .ok v' ∧
    v'.screenSize = (80, 0) := by
  obtain ⟨v, hinit, -, hs⟩ := init_fresh ⟨0, 0, 0⟩
  obtain ⟨s', hok⟩ := hs.resizeWidth_zero (by decide) v.terminal 80 (by decide)
  have h₁ : v.setScreenSize 80 0 = .ok { v with screen := s' } := congrArg (· >>= _) hok
  have hsize : s'.size = (80, 0) := by
    rw [Screen.resizeWidth_size hok]
    have hold : v.screen.size = (kDefaultWidth, kDefaultHeight) := init_screenSize hinit
    exact if_neg (by rw [hold]; simp [kDefaultWidth, kDefaultHeight])
  have h₂ : setScreenSize 40 10 { v with screen := s' } = .ok { v with screen := s' } := by
    have hstay : s'.resizeWidth v.terminal 40 10 = .ok s' :=
      if_pos (Or.inr (Or.inl (congrArg Prod.snd hsize)))
    exact congrArg (· >>= _) hstay
  refine ⟨v, { v with screen := s' }, hinit, ?_, hsize⟩
  simp only [runCalls, List.foldlM_cons, List.foldlM_nil, call, h₁, h₂, ok_bind]
  rfl

end VT100

end MobileTerminal
