import MobileTerminal.Fetch

/-!
# Cutting UTF-8 text

`decode_utf8` is to pass over whole characters, to replace bytes that belong to
no character and to leave a character whose last bytes have not arrived for the
next call. `Utf8Cut` says so, without a loop: it is a relation between the
buffer, the bytes that stand in it afterwards and what is left for later, with
one rule for each kind of first byte.

The code asks `utf8_reqbyte` about the first byte of the buffer, not about the
byte at hand, and never looks at the bytes after a lead byte: it cuts the text
into pieces that are all as long as the first character announces. What the loop
does is therefore a matter of one number `k` (`utf8Loop_spec`), and it is right
as long as the text stays in step with it: the characters fill a multiple of `k`
bytes, and what is left of a last one is shorter than `k`.

`utf8_cut_iff` says for which buffers the cut is right. Texts whose characters
all have the length of the first are among them, so a buffer of accented letters
is cut well, and one in which a letter of two bytes is followed by one of three
is not.
-/

namespace MobileTerminal

/-! ## What a cut is

The relation has one rule for each kind of front: a character, an unfinished
character at the end, a malformed byte, and the end of the text. No rule looks
at what has been passed over before. -/

/-- `0x80..0xbf` -/
def isContinuation (b : UInt8) : Bool := 0x80 ≤ b && b ≤ 0xbf

/-- A lead byte and as many continuation bytes as it announces. -/
def Utf8Char : List UInt8 → Prop
  | [] => False
  | b :: cs => 0x80 ≤ b ∧ utf8Reqbyte b = cs.length + 1 ∧ ∀ c ∈ cs, isContinuation c = true

/-- The bytes of a character that have arrived, when the others have not. -/
def Utf8Unfinished : List UInt8 → Prop
  | [] => False
  | b :: cs => 0x80 ≤ b ∧ cs.length + 1 < utf8Reqbyte b ∧ ∀ c ∈ cs, isContinuation c = true

/-- With `rest` behind it, `b` neither is the start of a character nor can become one. -/
def Malformed (b : UInt8) (rest : List UInt8) : Prop :=
  0x80 ≤ b ∧ ¬Utf8Unfinished (b :: rest) ∧ ∀ c tail, b :: rest = c ++ tail → ¬Utf8Char c

/-- The text is over: no byte is left, or one below `0x80` is next. -/
def EndsText (tail : List UInt8) : Prop := ∀ b ∈ tail.head?, b < 0x80

/-- `Utf8Cut l out tail`: of the buffer `l` the run up to `tail` is passed over, and stands
in the buffer as `out` afterwards. -/
inductive Utf8Cut : List UInt8 → List UInt8 → List UInt8 → Prop where
  | ended {l : List UInt8} (h : EndsText l) : Utf8Cut l [] l
  | unfinished {l : List UInt8} (h : Utf8Unfinished l) : Utf8Cut l [] l
  | char {c rest out tail : List UInt8} (hc : Utf8Char c) (h : Utf8Cut rest out tail) :
      Utf8Cut (c ++ rest) (c ++ out) tail
  | malformed {b : UInt8} {rest out tail : List UInt8} (hb : Malformed b rest)
      (h : Utf8Cut rest out tail) : Utf8Cut (b :: rest) (unknownByte :: out) tail

variable {b first : UInt8} {k : Nat} {l c bs out tail done ahead : List UInt8}
  {chars : List (List UInt8)}

theorem unknownByte_lt (hb : 0x80 ≤ b) : unknownByte ≠ b := by
  rintro rfl
  exact absurd hb (by decide)

theorem Utf8Char.bytes_ge (h : Utf8Char c) : ∀ x ∈ c, 0x80 ≤ x := by
  cases c with
  | nil => exact h.elim
  | cons b cs =>
      obtain ⟨hb, -, hcs⟩ := h
      intro x hx
      rcases List.mem_cons.mp hx with rfl | hx
      · exact hb
      · have := hcs x hx
        simp only [isContinuation, Bool.and_eq_true, decide_eq_true_eq] at this
        exact this.1

theorem Utf8Char.not_unfinished (h : Utf8Char c) (rest : List UInt8) :
    ¬Utf8Unfinished (c ++ rest) := by
  cases c with
  | nil => exact h.elim
  | cons b cs =>
      rintro ⟨-, hlen, -⟩
      have hreq := h.2.1
      change (cs ++ rest).length + 1 < utf8Reqbyte b at hlen
      rw [List.length_append] at hlen
      omega

/-- Nothing is passed over exactly when the buffer is one unfinished character. -/
theorem Utf8Cut.out_eq_nil_iff (h : Utf8Cut (b :: bs) out tail) (hb : 0x80 ≤ b) :
    out = [] ↔ Utf8Unfinished (b :: bs) := by
  generalize hl : b :: bs = l at h
  cases h with
  | ended hends =>
      subst hl
      exact absurd hb (UInt8.not_le.mpr (hends b rfl))
  | unfinished hun => exact ⟨fun _ => hun, fun _ => rfl⟩
  | @char c rest out tail hc hrest =>
      refine ⟨fun hnil => ?_, fun hun => absurd hun (hc.not_unfinished rest)⟩
      rw [(List.append_eq_nil_iff.mp hnil).1] at hc
      exact hc.elim
  | malformed hm hrest => exact ⟨fun hnil => (List.cons_ne_nil _ _ hnil).elim,
      fun hun => absurd hun hm.2.1⟩

/-- A cut that replaces nothing is a sequence of characters. -/
theorem utf8Cut_unchanged_iff (hl : l = out ++ tail) :
    Utf8Cut l out tail ↔ (EndsText tail ∨ Utf8Unfinished tail) ∧
      ∃ chars : List (List UInt8), out = chars.flatten ∧ ∀ c ∈ chars, Utf8Char c := by
  constructor
  · intro h
    induction h with
    | ended h => exact ⟨.inl h, [], rfl, by simp⟩
    | unfinished h => exact ⟨.inr h, [], rfl, by simp⟩
    | @char c rest out tail hc h ih =>
        rw [List.append_assoc] at hl
        obtain ⟨hends, chars, rfl, hchars⟩ := ih (List.append_cancel_left hl)
        refine ⟨hends, c :: chars, rfl, ?_⟩
        intro c' hc'
        rcases List.mem_cons.mp hc' with rfl | hc'
        · exact hc
        · exact hchars c' hc'
    | malformed hb h ih =>
        rw [List.cons_append, List.cons.injEq] at hl
        exact absurd hl.1.symm (unknownByte_lt hb.1)
  · rintro ⟨hends, chars, rfl, hchars⟩
    subst hl
    induction chars with
    | nil =>
        rcases hends with hends | hun
        · exact .ended hends
        · exact .unfinished hun
    | cons c chars ih =>
        rw [List.flatten_cons, List.append_assoc]
        exact .char (hchars c (List.mem_cons_self ..))
          (ih fun c' hc' => hchars c' (List.mem_cons_of_mem _ hc'))

/-! ## The code -/

/-- `decode_utf8`: the type of the token, the number of bytes passed over and the buffer it
leaves. -/
def decodeUtf8 (datap : List UInt8) : TokenType × Nat × List UInt8 :=
  let (done, ahead) := stringLoop utf8Step datap.length [] datap
  if done.length = 0 then (.wait, 0, datap) else (.string, done.length, done ++ ahead)

/-- `decode_string` takes type and length from it. -/
theorem decodeString_utf8 (F : Foundation) (datap : List UInt8) :
    (decodeString F datap nsUtf8StringEncoding).1.type = (decodeUtf8 datap).1 ∧
      (decodeString F datap nsUtf8StringEncoding).2.1 = (decodeUtf8 datap).2.1 := by
  have hstep : stringStep nsUtf8StringEncoding = utf8Step := if_pos rfl
  unfold decodeString decodeUtf8
  rw [hstep]
  generalize stringLoop utf8Step datap.length [] datap = r
  obtain ⟨done, ahead⟩ := r
  dsimp only
  split
  · exact ⟨rfl, rfl⟩
  · split
    · exact ⟨rfl, rfl⟩
    · exact ⟨rfl, replaceUnknown_length ..⟩

theorem endsText_cons : EndsText (b :: bs) ↔ b < 0x80 := by
  simp [EndsText]

theorem utf8Step_stop (h : EndsText l) : utf8Step first l = .stop := by
  cases l with
  | nil => rfl
  | cons b bs => exact if_neg (UInt8.not_le.mpr (endsText_cons.mp h))

/-- Inside the text a round only asks how many bytes there are. -/
theorem utf8Step_take (hk : utf8Reqbyte first = k) (hpos : 0 < k) (h : ¬EndsText l) :
    utf8Step first l = if k ≤ l.length then .take k else .stop := by
  cases l with
  | nil => exact absurd (fun _ hb => by cases hb) h
  | cons b bs =>
      rw [endsText_cons, UInt8.not_lt] at h
      simp only [utf8Step, if_pos h, hk, gt_iff_lt, if_pos hpos, ge_iff_le]

theorem utf8Loop_stop (hk : utf8Reqbyte first = k) (hpos : 0 < k)
    (hfirst : (done ++ ahead).headD 0 = first) (hends : EndsText ahead ∨ ahead.length < k)
    (fuel : Nat) : stringLoop utf8Step fuel done ahead = (done, ahead) := by
  cases fuel with
  | zero => rfl
  | succ fuel =>
      have hstep : utf8Step ((done ++ ahead).headD 0) ahead = .stop := by
        by_cases hover : EndsText ahead
        · exact utf8Step_stop hover
        · have hshort := hends.resolve_left hover
          rw [hfirst, utf8Step_take hk hpos hover, if_neg (by omega)]
      simp only [stringLoop, hstep]

/-- The loop passes over pieces of `k` bytes, each of which begins inside the text, and stops at
the end of the text or before fewer than `k` bytes. -/
theorem utf8Loop_spec (hk : utf8Reqbyte first = k) (hpos : 0 < k) {fuel : Nat}
    (hfuel : ahead.length ≤ fuel) (hfirst : (done ++ ahead).headD 0 = first) :
    ∃ m, stringLoop utf8Step fuel done ahead =
        (done ++ ahead.take (k * m), ahead.drop (k * m)) ∧
      k * m ≤ ahead.length ∧ (∀ i < m, ¬EndsText (ahead.drop (k * i))) ∧
      (EndsText (ahead.drop (k * m)) ∨ (ahead.drop (k * m)).length < k) := by
  induction fuel generalizing done ahead with
  | zero =>
      obtain rfl : ahead = [] := List.eq_nil_of_length_eq_zero (by omega)
      exact ⟨0, by simp [stringLoop], by simp, by simp, .inl (by simp [EndsText])⟩
  | succ fuel ih =>
      by_cases hends : EndsText ahead ∨ ahead.length < k
      · refine ⟨0, ?_, by simp, by simp, by simpa using hends⟩
        rw [utf8Loop_stop hk hpos hfirst hends]
        simp
      · rw [not_or, Nat.not_lt] at hends
        have hwhole : done ++ ahead.take k ++ ahead.drop k = done ++ ahead := by
          rw [List.append_assoc, List.take_append_drop]
        have hstep : utf8Step ((done ++ ahead).headD 0) ahead = .take k := by
          rw [hfirst, utf8Step_take hk hpos hends.1, if_pos hends.2]
        have hfuel' : (ahead.drop k).length ≤ fuel := by
          rw [List.length_drop]
          omega
        have hfirst' : (done ++ ahead.take k ++ ahead.drop k).headD 0 = first := by
          rw [hwhole]
          exact hfirst
        obtain ⟨m, hloop, hle, hinside, hstop⟩ := ih hfuel' hfirst'
        have hdrop : ∀ i, (ahead.drop k).drop (k * i) = ahead.drop (k * (i + 1)) := by
          intro i
          rw [List.drop_drop, Nat.mul_succ, Nat.add_comm]
        rw [List.length_drop] at hle
        refine ⟨m + 1, ?_, by rw [Nat.mul_succ]; omega, ?_, by rw [← hdrop]; exact hstop⟩
        · simp only [stringLoop, hstep, hloop, hdrop]
          rw [Nat.mul_succ, Nat.add_comm, List.take_add, List.append_assoc]
        · rintro (_ | i) hi
          · exact hends.1
          · rw [← hdrop]
            exact hinside i (by omega)

/-- The text is made of characters, a multiple of `k` bytes long, and what is left of a last one
is shorter than `k`. -/
def InStep (k : Nat) (l : List UInt8) : Prop :=
  ∃ (chars : List (List UInt8)) (tail : List UInt8), l = chars.flatten ++ tail ∧
    (∀ c ∈ chars, Utf8Char c) ∧ k ∣ chars.flatten.length ∧
    (EndsText tail ∨ Utf8Unfinished tail ∧ tail.length < k)

theorem not_endsText_drop (hchars : ∀ c ∈ chars, Utf8Char c) {i : Nat}
    (hi : i < chars.flatten.length) : ¬EndsText ((chars.flatten ++ tail).drop i) := by
  rw [List.drop_append_of_le_length (by omega), List.drop_eq_getElem_cons hi, List.cons_append,
    endsText_cons, UInt8.not_lt]
  obtain ⟨c, hc, hmem⟩ := List.mem_flatten.mp (List.getElem_mem hi)
  exact (hchars c hc).bytes_ge _ hmem

/-- The loop cuts the text as it should exactly when the text is in step. -/
theorem utf8Loop_cut_iff {m : Nat} (hpos : 0 < k) (hle : k * m ≤ l.length)
    (hinside : ∀ i < m, ¬EndsText (l.drop (k * i)))
    (hstop : EndsText (l.drop (k * m)) ∨ (l.drop (k * m)).length < k) :
    Utf8Cut l (l.take (k * m)) (l.drop (k * m)) ↔ InStep k l := by
  rw [utf8Cut_unchanged_iff (List.take_append_drop _ _).symm]
  constructor
  · rintro ⟨hends, chars, htake, hchars⟩
    refine ⟨chars, l.drop (k * m), by rw [← htake, List.take_append_drop], hchars, ?_, ?_⟩
    · rw [← htake, List.length_take, Nat.min_eq_left hle]
      exact Nat.dvd_mul_right k m
    · rcases hends with hends | hun
      · exact .inl hends
      · rcases hstop with hstop | hshort
        · exact .inl hstop
        · exact .inr ⟨hun, hshort⟩
  · rintro ⟨chars, tail, rfl, hchars, ⟨m', hm'⟩, htail⟩
    have hend : (chars.flatten ++ tail).drop (k * m') = tail := by
      rw [← hm', List.drop_left]
    -- the loop neither stops among the characters nor goes on behind them
    have hmm : m = m' := by
      rcases Nat.lt_trichotomy m m' with hlt | heq | hgt
      · have hpiece : k * m + k ≤ k * m' := by
          rw [← Nat.mul_succ]
          exact Nat.mul_le_mul_left k hlt
        rcases hstop with hstop | hshort
        · exact absurd hstop (not_endsText_drop hchars (by omega))
        · rw [List.length_drop, List.length_append] at hshort
          omega
      · exact heq
      · have hpiece : k * m' + k ≤ k * m := by
          rw [← Nat.mul_succ]
          exact Nat.mul_le_mul_left k hgt
        have hopen := hinside m' hgt
        rw [hend] at hopen
        have hshort := (htail.resolve_left hopen).2
        rw [List.length_append] at hle
        omega
    rw [hmm, hend, ← hm', List.take_left]
    refine ⟨?_, chars, rfl, hchars⟩
    rcases htail with hends | hun
    · exact .inl hends
    · exact .inr hun.1

/-- A byte that announces nothing is malformed wherever it stands. -/
theorem malformed_of_reqbyte (hb : 0x80 ≤ b) (hk : utf8Reqbyte b = 0) (rest : List UInt8) :
    Malformed b rest := by
  refine ⟨hb, fun hun => ?_, fun c tail heq hc => ?_⟩
  · have hlen := hun.2.1
    omega
  · cases c with
    | nil => exact hc
    | cons x cs =>
        obtain ⟨rfl, -⟩ := List.cons.inj heq
        have hlen := hc.2.1
        omega

/-- When the first byte has been replaced, the cut is that of the bytes behind it. -/
theorem utf8Cut_unknown_iff (hb : 0x80 ≤ b) (hk : utf8Reqbyte b = 0) :
    Utf8Cut (b :: bs) (unknownByte :: out) tail ↔ Utf8Cut bs out tail := by
  constructor
  · intro h
    generalize hl : b :: bs = l at h
    generalize ho : unknownByte :: out = o at h
    cases h with
    | ended _ => cases ho
    | unfinished _ => cases ho
    | @char c rest out' tail hc hrest =>
        cases c with
        | nil => exact hc.elim
        | cons x cs =>
            obtain ⟨rfl, -⟩ := List.cons.inj hl
            exact absurd (List.cons.inj ho).1 (unknownByte_lt hb)
    | malformed hm hrest =>
        obtain ⟨-, rfl⟩ := List.cons.inj hl
        obtain ⟨-, rfl⟩ := List.cons.inj ho
        exact hrest
  · exact .malformed (malformed_of_reqbyte hb hk bs)

/-- `decode_utf8` cuts the buffer at characters, and waits when it holds one unfinished
character and nothing else. -/
structure CutsAtCharacters (datap : List UInt8) : Prop where
  cut : Utf8Cut datap ((decodeUtf8 datap).2.2.take (decodeUtf8 datap).2.1)
    ((decodeUtf8 datap).2.2.drop (decodeUtf8 datap).2.1)
  wait : (decodeUtf8 datap).1 = .wait ↔ Utf8Unfinished datap

theorem cutsAtCharacters_iff (hb : 0x80 ≤ b)
    (hloop : stringLoop utf8Step (b :: bs).length [] (b :: bs) = (done, ahead))
    (hnone : done = [] → ahead = b :: bs) :
    CutsAtCharacters (b :: bs) ↔ Utf8Cut (b :: bs) done ahead := by
  have hparts : (decodeUtf8 (b :: bs)).2.2.take (decodeUtf8 (b :: bs)).2.1 = done ∧
      (decodeUtf8 (b :: bs)).2.2.drop (decodeUtf8 (b :: bs)).2.1 = ahead ∧
      ((decodeUtf8 (b :: bs)).1 = .wait ↔ done = []) := by
    unfold decodeUtf8
    rw [hloop]
    dsimp only
    split
    · rename_i hzero
      have hnil := List.eq_nil_of_length_eq_zero hzero
      exact ⟨hnil.symm, (hnone hnil).symm, fun _ => hnil, fun _ => rfl⟩
    · rename_i hsome
      refine ⟨List.take_left, List.drop_left, ?_⟩
      exact iff_of_false (by simp) fun hnil => hsome (congrArg List.length hnil)
  constructor
  · rintro ⟨hcut, -⟩
    rwa [hparts.1, hparts.2.1] at hcut
  · intro hcut
    refine ⟨by rwa [hparts.1, hparts.2.1], ?_⟩
    rw [hparts.2.2]
    exact hcut.out_eq_nil_iff hb

/-- What the pieces of the loop have to fit: the whole buffer, in steps of the length its first
byte announces; or, when that byte announces none and becomes `#`, what stands behind it. -/
def TextInStep : List UInt8 → Prop
  | [] => True
  | b :: bs => if utf8Reqbyte b = 0 then InStep 1 bs else InStep (utf8Reqbyte b) (b :: bs)

/-- The cut is right exactly for the texts that are in step with the length of their first
character. This is about every buffer that starts with a byte from `0x80` on, whether it
holds UTF-8 or not, and whatever follows the text in it. -/
theorem utf8_cut_iff (hb : 0x80 ≤ b) : CutsAtCharacters (b :: bs) ↔ TextInStep (b :: bs) := by
  rw [TextInStep]
  by_cases hk : utf8Reqbyte b = 0
  · rw [if_pos hk]
    have hstep : utf8Step (([] ++ b :: bs).headD 0) (b :: bs) = .unknown := by
      change utf8Step b (b :: bs) = _
      simp only [utf8Step, if_pos hb, hk, gt_iff_lt, Nat.lt_irrefl, if_false]
    obtain ⟨m, hloop, hle, hinside, hstop⟩ := utf8Loop_spec (k := 1)
      (show utf8Reqbyte unknownByte = 1 by decide) (by decide) (Nat.le_refl bs.length)
      (show ([unknownByte] ++ bs).headD 0 = unknownByte from rfl)
    have hrun : stringLoop utf8Step (b :: bs).length [] (b :: bs) =
        (unknownByte :: bs.take (1 * m), bs.drop (1 * m)) := by
      rw [List.length_cons, stringLoop, hstep]
      exact hloop
    rw [cutsAtCharacters_iff hb hrun (by simp), utf8Cut_unknown_iff hb hk]
    exact utf8Loop_cut_iff (by decide) hle hinside hstop
  · rw [if_neg hk]
    have hpos : 0 < utf8Reqbyte b := Nat.pos_of_ne_zero hk
    obtain ⟨m, hloop, hle, hinside, hstop⟩ := utf8Loop_spec rfl hpos (Nat.le_refl (b :: bs).length)
      (show ([] ++ b :: bs).headD 0 = b from rfl)
    rw [List.nil_append] at hloop
    rw [cutsAtCharacters_iff hb hloop]
    · exact utf8Loop_cut_iff hpos hle hinside hstop
    · intro hnil
      rcases List.take_eq_nil_iff.mp hnil with hzero | hempty
      · rw [hzero, List.drop_zero]
      · cases hempty

/-- Two characters of two bytes each are in step, and the cut is right. -/
theorem utf8_two_twos : CutsAtCharacters [0xc3, 0xa9, 0xc3, 0xa8] := by
  have hlead : utf8Reqbyte 0xc3 = 2 := by decide
  refine (utf8_cut_iff (by decide)).mpr ?_
  rw [TextInStep, hlead, if_neg (by decide)]
  refine ⟨[[0xc3, 0xa9], [0xc3, 0xa8]], [], rfl, ?_, by decide, .inl (by simp [EndsText])⟩
  simp [Utf8Char, isContinuation, hlead]

/-- A character of two bytes, and one of three: the loop takes two bytes at a time and stops
inside the second character. -/
theorem utf8_two_three : ¬CutsAtCharacters [0xc3, 0xa9, 0xe2, 0x82, 0xac] := by
  intro h
  have hcut : Utf8Cut [0xc3, 0xa9, 0xe2, 0x82, 0xac] [0xc3, 0xa9, 0xe2, 0x82] [0xac] := h.cut
  have hsame : ([0xc3, 0xa9, 0xe2, 0x82, 0xac] : List UInt8) = [0xc3, 0xa9, 0xe2, 0x82] ++ [0xac] :=
    rfl
  rcases ((utf8Cut_unchanged_iff hsame).mp hcut).1 with hends | hun
  · exact absurd (endsText_cons.mp hends) (by decide)
  · exact absurd hun.2.1 (by decide)

end MobileTerminal
