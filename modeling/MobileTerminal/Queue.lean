import MobileTerminal.Chunks

/-!
# The input stream as a queue

`putStreamData:` appends to `STREAM`, `getNextToken` takes bytes off its front.
The buffer grows when there is no room, starts again at its beginning when it is
drained, and keeps what has been taken in front of what has not; the decoders
write into it. `queue_faithful` follows the bytes through any sequence of such
calls: what the tokens have taken and what is pending is what was put.

A run of the queue records its history: the bytes that were put, and for every
fetch the bytes it has taken, as they were before a decoder wrote over them.
`Sound` is the invariant. It holds as long as the sums of `putStreamData:` are
values of an `int`, and up to `2 ^ 30` bytes they are, since the buffer at most
doubles what it has to hold.

`cleanStream` sets the length back and leaves the offset. The number of unread
bytes is an unsigned difference, so that a terminal which has taken bytes off
the front then finds almost `2 ^ 32` of them. Only one that is at the start of
its buffer forgets its stream (`clean_forgets_iff`).
-/

namespace MobileTerminal

/-! ## What the decoders leave -/

theorem stringLoop_suffix (step : UInt8 → List UInt8 → StringStep) (fuel : Nat)
    (done ahead : List UInt8) : (stringLoop step fuel done ahead).2 <:+ ahead := by
  induction fuel generalizing done ahead with
  | zero => exact List.suffix_rfl
  | succ fuel ih =>
      simp only [stringLoop]
      split
      · exact List.suffix_rfl
      · exact (ih _ _).trans (List.drop_suffix _ _)
      · exact (ih _ _).trans (List.drop_suffix _ _)

/-- A decoder writes to no byte but those it takes. -/
theorem decodeString_drop (F : Foundation) (datap : List UInt8) (encoding : Encoding) :
    (decodeString F datap encoding).2.2.drop (decodeString F datap encoding).2.1 =
      datap.drop (decodeString F datap encoding).2.1 := by
  have hlen := stringLoop_length (stringStep_nil encoding) datap.length [] datap
  have hsuffix := stringLoop_suffix (stringStep encoding) datap.length [] datap
  unfold decodeString
  generalize stringLoop (stringStep encoding) datap.length [] datap = r at hlen hsuffix
  obtain ⟨done, ahead⟩ := r
  simp only [List.length_nil, Nat.zero_add] at hlen hsuffix ⊢
  have hahead : ahead = datap.drop done.length := by
    rw [List.suffix_iff_eq_drop.mp hsuffix]
    congr 1
    omega
  split
  · rfl
  · split
    · simp only [List.drop_left]
      exact hahead
    · have hdone := replaceUnknown_length F encoding done.length done
      simp only [hdone]
      rw [List.drop_left' hdone]
      exact hahead

theorem decodeString_zero {F : Foundation} {datap bytes : List UInt8} {encoding : Encoding}
    {tok : VT100TCC} (h : decodeString F datap encoding = (tok, 0, bytes)) : tok.type = .wait := by
  unfold decodeString at h
  generalize stringLoop (stringStep encoding) datap.length [] datap = r at h
  obtain ⟨done, ahead⟩ := r
  simp only at h
  split at h
  · cases h
    rfl
  · rename_i hne
    have hzero : done.length = 0 := by
      split at h
      · exact congrArg (fun p => p.2.1) h
      · have hlen := congrArg (fun p => p.2.1) h
        simpa only [replaceUnknown_length] using hlen
    exact absurd hzero hne

namespace Terminal

variable {t t' : Terminal}

/-- The bytes of the stream between the offset of `t` and that of `t'`. -/
def takenBytes (t t' : Terminal) : List UInt8 :=
  t.stream.slice t.streamOffset (t'.streamOffset - t.streamOffset).toNat

theorem takenBytes_append {n : Nat} (hn : n ≤ t.pending.length)
    (hoff : t'.streamOffset = t.streamOffset + n) (hrest : t'.pending = t.pending.drop n) :
    takenBytes t t' ++ t'.pending = t.pending := by
  have htaken : takenBytes t t' = t.pending.take n := by
    obtain ⟨m, hm⟩ := Nat.exists_eq_add_of_le hn
    rw [pending, Block.slice_length] at hm
    rw [takenBytes, hoff, pending, hm, Block.slice_add,
      show (t.streamOffset + (n : Int) - t.streamOffset).toNat = n by omega,
      List.take_left' (Block.slice_length _ _ _)]
  rw [htaken, hrest, List.take_append_drop]

end Terminal

namespace VT100

variable {F : Foundation} {v v' w : VT100}

theorem advance_ok (h : v.terminal.Wf) {n : Nat} (hok : v.advance n = .ok v') :
    n ≤ v.terminal.pending.length ∧ v'.terminal = v.terminal.skip n := by
  by_cases hn : n ≤ v.terminal.pending.length
  · rw [advance_eq h hn] at hok
    cases hok
    exact ⟨hn, rfl⟩
  · rw [advance_beyond h (by omega)] at hok
    cases hok

/-- A fetch takes bytes off the front and leaves the others alone. -/
structure Takes (t t' : Terminal) : Prop where
  bytes : t.takenBytes t' ++ t'.pending = t.pending
  writes : ∀ i, i < t.streamOffset ∨ t'.streamOffset ≤ i → t'.stream.cell i = t.stream.cell i
  total_le : t'.totalStreamLength ≤ t.totalStreamLength

/-- The end of a fetch: `w` is `v` but for bytes that are taken. -/
theorem Takes.advance {n : Nat} (hw : w.terminal.Wf)
    (hoff : w.terminal.streamOffset = v.terminal.streamOffset)
    (htotal : w.terminal.totalStreamLength = v.terminal.totalStreamLength)
    (hlen : w.terminal.pending.length = v.terminal.pending.length)
    (hdrop : w.terminal.pending.drop n = v.terminal.pending.drop n)
    (hcells : ∀ i, i < v.terminal.streamOffset ∨ v.terminal.streamOffset + n ≤ i →
      w.terminal.stream.cell i = v.terminal.stream.cell i)
    (hok : w.advance n = .ok v') : Takes v.terminal v'.terminal := by
  obtain ⟨hn, hskip⟩ := advance_ok hw hok
  have hoff' : v'.terminal.streamOffset = v.terminal.streamOffset + n := by
    rw [hskip, ← hoff]
    rfl
  refine ⟨Terminal.takenBytes_append (hlen ▸ hn) hoff' ?_, ?_, ?_⟩
  · rw [hskip, Terminal.skip_pending hw hn, hdrop]
  · rw [hskip] at hoff' ⊢
    rw [hoff']
    exact hcells
  · rw [hskip]
    exact htotal.le

theorem Takes.of_sameStream {n : Nat} (hw : w.terminal.Wf)
    (hs : v.terminal.SameStream w.terminal) (hok : w.advance n = .ok v') :
    Takes v.terminal v'.terminal :=
  .advance hw hs.offset hs.total (by rw [hs.pending_eq]) (by rw [hs.pending_eq])
    (fun i _ => by rw [hs.stream]) hok

/-- A decoder has written `bytes` over the pending ones, and the last of them are as before. -/
theorem Takes.overwritten {n : Nat} {bytes : List UInt8} (h : v.terminal.Wf)
    (hlen : bytes.length = v.terminal.pending.length)
    (hdrop : bytes.drop n = v.terminal.pending.drop n)
    (hok : (v.overwritePending bytes).advance n = .ok v') : Takes v.terminal v'.terminal := by
  have hpending := overwritePending_pending h hlen
  refine .advance (overwritePending_terminalWf h bytes) rfl rfl (by rw [hpending, hlen])
    (by rw [hpending, hdrop]) (fun i hi => ?_) hok
  simp only [overwritePending]
  by_cases hout : i < v.terminal.streamOffset ∨ v.terminal.streamOffset + bytes.length ≤ i
  · exact Block.paste_cell_of_notMem _ _ hout
  · -- behind the bytes that are taken
    obtain ⟨k, rfl⟩ : ∃ k : Nat, i = v.terminal.streamOffset + k :=
      ⟨(i - v.terminal.streamOffset).toNat, by omega⟩
    have hk : k < v.terminal.pending.length := by omega
    have hbyte : bytes[k]? = v.terminal.pending[k]? := by
      have hnk : n ≤ k := by omega
      have hget := congrArg (fun l => l[k - n]?) hdrop
      simpa only [List.getElem?_drop, Nat.add_sub_cancel' hnk] using hget
    have hcell : v.terminal.pending[k] = v.terminal.stream.cell (v.terminal.streamOffset + k) :=
      Block.slice_getElem _ _ _ _ hk
    rw [Block.paste_cell_of_mem _ _ (by omega) (by omega), ← hcell,
      show 0 + (v.terminal.streamOffset + (k : Int) - v.terminal.streamOffset) = k by omega]
    simp only [Block.ofList, Int.toNat_natCast, List.getD_eq_getElem?_getD, hbyte,
      List.getElem?_eq_getElem hk, Option.getD_some]

theorem getNextToken_takes {tok : VT100TCC} (h : v.terminal.Wf)
    (hok : v.getNextToken F = .ok (tok, v')) : Takes v.terminal v'.terminal := by
  have hlen := decodeString_bytes_length F v.terminal.pending v.terminal.encoding
  have hdrop := decodeString_drop F v.terminal.pending v.terminal.encoding
  cases getNextToken_fetches hok with
  | empty hp =>
      have hoff := h.offset_nonneg
      have hzero : v.terminal.emptyStream.streamOffset = 0 := by
        unfold Terminal.emptyStream
        simp only
        split <;> rfl
      have hst := h.standard_le
      refine ⟨?_, fun i _ => ?_, ?_⟩
      · rw [Terminal.emptyStream_pending, hp, Terminal.takenBytes, hzero,
          show (0 - v.terminal.streamOffset).toNat = 0 by omega]
        rfl
      · simp only [Terminal.emptyStream]
        split <;> rfl
      · simp only [Terminal.emptyStream]
        split
        · exact hst
        · exact Int.le_refl _
  | text hp htext h₁ => exact .of_sameStream h (.refl _) h₁
  | @control v₁ v₂ _ _ n s _ _ hp hb hdecode hmode hattr h₁ =>
      have hs : (VT100.mk v.terminal s).terminal.Wf := h
      exact .of_sameStream (setCharAttr_terminalWf (setMode_terminalWf hs hmode) hattr)
        ((setMode_sameStream hmode).trans (setCharAttr_sameStream hattr)) h₁
  | undecoded hp hb hdecode hwait h₁ => exact absurd (decodeString_zero hdecode) hwait
  | string hp hb hdecode hwait h₁ =>
      rw [hdecode] at hlen hdrop
      exact .overwritten h hlen hdrop h₁
  | unknown hp hb h₁ => exact .of_sameStream h (.refl _) h₁

end VT100

/-! ## Unread bytes -/

namespace Terminal

/-- `datalen`. The difference is an `unsigned int`: when the offset has passed the
length it wraps around. -/
def datalen (t : Terminal) : Nat :=
  if t.streamOffset ≤ t.currentStreamLength then
    (t.currentStreamLength - t.streamOffset).toNat
  else (cuint (t.currentStreamLength - t.streamOffset)).toNat

/-- The `datalen` bytes from `STREAM + streamOffset` on. Behind the end of the block
they are whatever stands there. -/
def unread (t : Terminal) : List UInt8 := t.stream.slice t.streamOffset t.datalen

def cleanStream (t : Terminal) : Terminal := { t with currentStreamLength := 0 }

def setEncoding (encoding : Encoding) (t : Terminal) : Terminal := { t with encoding := encoding }

theorem unread_eq {t : Terminal} (h : t.streamOffset ≤ t.currentStreamLength) :
    t.unread = t.pending := by
  rw [unread, datalen, if_pos h, pending]

end Terminal

namespace VT100

variable {F : Foundation} {v v' : VT100}

/-- `getNextToken` on the bytes it finds. -/
def fetch (F : Foundation) (v : VT100) : List UInt8 → Res (VT100TCC × VT100)
  | [] => .ok ({ type := .cc 0 }, { v with terminal := v.terminal.emptyStream })
  | b :: rest =>
      let datap := b :: rest
      if isAsciiText b then do
        let (tok, rmlen) := decodeAsciiString F datap
        let v ← v.advance rmlen
        .ok (tok, v)
      else if b ≤ 0x1f then do
        let (tok, rmlen, s) ← decodeControl v.terminal datap v.screen
        let v ← setMode tok { v with screen := s }
        let v ← v.setCharAttr tok
        let v ← v.advance rmlen
        .ok (tok, v)
      else if isString b v.terminal.encoding then do
        let (tok, rmlen, bytes) := decodeString F datap v.terminal.encoding
        let v := v.overwritePending bytes
        if tok.type ≠ .wait ∧ rmlen = 0 then do
          let v ← v.advance 1
          .ok ({ type := .unknownChar, code := b }, v)
        else do
          let v ← v.advance rmlen
          .ok (tok, v)
      else do
        let v ← v.advance 1
        .ok ({ type := .unknownChar, code := b }, v)

/-- `getNextToken`, also where the offset has passed the length. -/
def nextToken (F : Foundation) (v : VT100) : Res (VT100TCC × VT100) := v.fetch F v.terminal.unread

theorem nextToken_eq (h : v.terminal.streamOffset ≤ v.terminal.currentStreamLength) :
    v.nextToken F = v.getNextToken F := by
  rw [nextToken, Terminal.unread_eq h, getNextToken]
  cases v.terminal.pending <;> rfl

end VT100

/-! ## Runs of the queue -/

/-- The calls a terminal gets. -/
inductive StreamCall where
  | put (data : List UInt8)
  | get
  | setEncoding (encoding : Encoding)

/-- A terminal with what has happened to its stream: the bytes put, and those each
fetch has taken, as they were in the stream when it was called. -/
structure Queue where
  terminal : Terminal
  put : List UInt8
  taken : List (List UInt8)

/-- The transitions of the queue. The screen is another object: every fetch may find
it in another state. -/
inductive QueueStep (F : Foundation) : Queue → StreamCall → Queue → Prop where
  | put {q : Queue} {t' : Terminal} {data : List UInt8}
      (h : q.terminal.putStreamData data = .ok t') :
      QueueStep F q (.put data) { terminal := t', put := q.put ++ data, taken := q.taken }
  | get {q : Queue} {s : Screen} {tok : VT100TCC} {v' : VT100}
      (h : VT100.nextToken F { terminal := q.terminal, screen := s } = .ok (tok, v')) :
      QueueStep F q .get { terminal := v'.terminal, put := q.put
                           taken := q.taken ++ [q.terminal.takenBytes v'.terminal] }
  | setEncoding {q : Queue} {encoding : Encoding} :
      QueueStep F q (.setEncoding encoding) { q with terminal := q.terminal.setEncoding encoding }

/-- A new terminal. `malloc` does not clear the stream. -/
def Queue.Initial (q : Queue) : Prop :=
  ∃ stream encoding, stream.size = standardStreamSize ∧
    q = { terminal := { Terminal.init with stream := stream, encoding := encoding }
          put := [], taken := [] }

/-- The lengths put stay below `2 ^ 30`. -/
def Queue.ShortPuts (q : Queue) : StreamCall → Prop
  | .put data => q.terminal.currentStreamLength + data.length < 2 ^ 30
  | _ => True

/-- The sums of `putStreamData:` are values of an `int`. -/
def Queue.FitsInt (q : Queue) : StreamCall → Prop
  | .put data => q.terminal.currentStreamLength + data.length < 2 ^ 31 ∧
      (q.terminal.reserve data.length).totalStreamLength < 2 ^ 31
  | _ => True

namespace Queue

variable {F : Foundation} {q q' : Queue} {e : StreamCall}

/-- The invariant of the queue. -/
structure Sound (q : Queue) : Prop where
  wf : q.terminal.Wf
  total_lt : q.terminal.totalStreamLength < 2 ^ 31
  accounted : q.taken.flatten ++ q.terminal.pending = q.put

theorem Initial.sound (h : q.Initial) : q.Sound := by
  obtain ⟨stream, encoding, hsize, rfl⟩ := h
  exact ⟨{ Terminal.init_wf with size_eq := hsize }, (by decide : standardStreamSize < 2 ^ 31), rfl⟩

theorem putStreamData_total {t t' : Terminal} {data : List UInt8}
    (hok : t.putStreamData data = .ok t') :
    t'.totalStreamLength = (t.reserve data.length).totalStreamLength := by
  obtain ⟨stream, -, hok⟩ := bind_eq_ok.mp hok
  cases hok
  rfl

theorem Sound.step (h : q.Sound) (hfits : q.FitsInt e) (hstep : QueueStep F q e q') : q'.Sound := by
  have hacc := h.accounted
  cases hstep with
  | @put t' data hok =>
      obtain ⟨t'', hok', hwf, -, hpending⟩ := Terminal.putStreamData_spec h.wf data
      rw [hok] at hok'
      cases hok'
      refine ⟨hwf, ?_, ?_⟩
      · rw [putStreamData_total hok]
        exact hfits.2
      · rw [hpending, ← List.append_assoc, hacc]
  | @get s tok v' hok =>
      rw [VT100.nextToken_eq h.wf.offset_le] at hok
      have htakes := VT100.getNextToken_takes (v := ⟨q.terminal, s⟩) h.wf hok
      refine ⟨VT100.getNextToken_terminalWf (v := ⟨q.terminal, s⟩) h.wf hok, ?_, ?_⟩
      · exact Int.lt_of_le_of_lt htakes.total_le h.total_lt
      · rw [List.flatten_append, List.flatten_singleton, List.append_assoc, htakes.bytes, hacc]
  | setEncoding => exact ⟨{ h.wf with }, h.total_lt, hacc⟩

/-- Below `2 ^ 30` nothing overflows: the buffer at most doubles what it has to hold. -/
theorem Sound.fitsInt (h : q.Sound) (hshort : q.ShortPuts e) : q.FitsInt e := by
  cases e with
  | put data =>
      have hlt : q.terminal.currentStreamLength + data.length < 2 ^ 30 := hshort
      have htotal := h.total_lt
      have hoff := h.wf.offset_nonneg
      have hlen := h.wf.offset_le
      refine ⟨by omega, ?_⟩
      unfold Terminal.reserve
      split
      · simp only [standardStreamSize]
        rw [Int.tdiv_eq_ediv_of_nonneg (by omega)]
        omega
      · exact htotal
  | get => trivial
  | setEncoding encoding => trivial

/-- A new terminal that gets `a ESC` and answers one token. -/
theorem exists_taken (ok : Queue → StreamCall → Prop)
    (hput : ∀ q : Queue, q.terminal.currentStreamLength = 0 →
      q.terminal.totalStreamLength = standardStreamSize → ok q (.put [0x61, 0x1b]))
    (hget : ∀ q : Queue, ok q .get) :
    ∃ q, Reach Queue.Initial (QueueStep Foundation.latin1) ok q ∧ q.taken = [[0x61]] ∧
      q.put = [0x61, 0x1b] ∧ q.terminal.streamOffset = 1 := by
  obtain ⟨v, -⟩ := VT100.init_fresh ⟨0, 0, 0⟩
  let t₁ : Terminal := { Terminal.init with
    stream := Terminal.init.stream.paste 0 (Block.ofList [0x61, 0x1b] 0) 0 2
    currentStreamLength := 2 }
  have h₁ : Terminal.init.putStreamData [0x61, 0x1b] = .ok t₁ := rfl
  have hwf : t₁.Wf := { Terminal.init_wf with
    offset_le := (by decide : (0 : Int) ≤ 2)
    length_le := (by decide : (2 : Int) ≤ standardStreamSize) }
  have hpending : t₁.pending = [0x61] ++ [0x1b] := rfl
  have h₂ := VT100.getNextToken_text (v := { terminal := t₁, screen := v.screen })
    Foundation.latin1_asciiExact hwf (by simp) (List.forall_mem_singleton.mpr rfl) rfl hpending
  rw [← VT100.nextToken_eq (v := { terminal := t₁, screen := v.screen }) hwf.offset_le] at h₂
  refine ⟨_, .step (.step (.init ⟨_, _, rfl, rfl⟩) (.put h₁) (hput _ rfl rfl)) (.get h₂) (hget _),
    rfl, rfl, rfl⟩

/-- What the queue keeps. -/
structure Faithful (F : Foundation) (q : Queue) : Prop where
  offset_range : 0 ≤ q.terminal.streamOffset ∧
    q.terminal.streamOffset ≤ q.terminal.currentStreamLength
  length_le : q.terminal.currentStreamLength ≤ q.terminal.totalStreamLength
  total_lt : q.terminal.totalStreamLength < 2 ^ 31
  /-- a copy into the stream ends inside it -/
  copies : ∀ data : List UInt8, q.terminal.currentStreamLength + data.length < 2 ^ 30 →
    ∃ t', q.terminal.putStreamData data = .ok t' ∧ t'.stream.size = t'.totalStreamLength ∧
      q.terminal.currentStreamLength + data.length ≤ t'.totalStreamLength
  /-- a fetch writes to no byte but those it takes -/
  writes : ∀ s tok v', VT100.nextToken F { terminal := q.terminal, screen := s } = .ok (tok, v') →
    ∀ i, i < q.terminal.streamOffset ∨ v'.terminal.streamOffset ≤ i →
      v'.terminal.stream.cell i = q.terminal.stream.cell i
  accounted : q.taken.flatten ++ q.terminal.pending = q.put

/-- The input stream is a queue: in every state that calls reach, the bytes taken
followed by the bytes pending are the bytes put, and nothing is written outside the
buffer or over bytes that are still to be taken. -/
theorem queue_faithful (hr : Reach Queue.Initial (QueueStep F) Queue.ShortPuts q) :
    q.Faithful F := by
  have hsound : q.Sound := Reach.invariant (fun _ h => h.sound)
    (fun _ _ _ h hshort hstep => h.step (h.fitsInt hshort) hstep) hr
  refine ⟨⟨hsound.wf.offset_nonneg, hsound.wf.offset_le⟩, hsound.wf.length_le, hsound.total_lt,
    fun data _ => ?_, fun s tok v' hok => ?_, hsound.accounted⟩
  · obtain ⟨t', hok, hwf, -, -⟩ := Terminal.putStreamData_spec hsound.wf data
    refine ⟨t', hok, hwf.size_eq, ?_⟩
    rw [putStreamData_total hok]
    exact (Terminal.reserve_wf hsound.wf data.length (by omega)).2
  · rw [VT100.nextToken_eq hsound.wf.offset_le] at hok
    exact (VT100.getNextToken_takes (v := ⟨q.terminal, s⟩) hsound.wf hok).writes

/-- After `a` has been taken in front of an unfinished sequence. -/
theorem taken_faithful : ∃ q, Reach Queue.Initial (QueueStep Foundation.latin1) Queue.ShortPuts q ∧
    q.put = [0x61, 0x1b] ∧ q.taken = [[0x61]] ∧ q.Faithful Foundation.latin1 := by
  obtain ⟨q, hr, htaken, hput, -⟩ := exists_taken Queue.ShortPuts
    (fun q hlen _ => by simp only [Queue.ShortPuts, hlen]; decide) (fun q => trivial)
  exact ⟨q, hr, hput, htaken, queue_faithful hr⟩

end Queue

/-! ## Cleaning -/

namespace VT100

variable {F : Foundation} {v v' : VT100}

/-- The tokens that a sequence of calls answers. -/
def tokens (F : Foundation) : List StreamCall → VT100 → Res (List VT100TCC)
  | [], _ => .ok []
  | .put data :: calls, v => do
      let v ← v.putStreamData data
      tokens F calls v
  | .get :: calls, v => do
      let (tok, v) ← v.nextToken F
      let toks ← tokens F calls v
      .ok (tok :: toks)
  | .setEncoding encoding :: calls, v =>
      tokens F calls { v with terminal := v.terminal.setEncoding encoding }

/-- Objects that are alike answer the same tokens, or stop for the same reason. -/
theorem Alike.tokens (h : Alike v v') (hw : v.terminal.Wf) (hw' : v'.terminal.Wf)
    (calls : List StreamCall) : ExceptRel Eq (tokens F calls v) (tokens F calls v') := by
  induction calls generalizing v v' with
  | nil => exact .ok rfl
  | cons call calls ih =>
      cases call with
      | put data =>
          obtain ⟨t, hok, hwf, hmodes, hp⟩ := Terminal.putStreamData_spec hw data
          obtain ⟨t', hok', hwf', hmodes', hp'⟩ := Terminal.putStreamData_spec hw' data
          simp only [VT100.tokens, VT100.putStreamData, hok, hok', ok_bind]
          refine ih ⟨⟨hmodes.symm.trans (h.modes.trans hmodes'), h.screen⟩, ?_⟩ hwf hwf'
          rw [hp, hp', h.pending_eq]
      | get =>
          simp only [VT100.tokens, nextToken_eq hw.offset_le, nextToken_eq hw'.offset_le]
          refine (h.getNextToken hw hw').bind_ok fun p p' hok hok' hfetched => ?_
          obtain ⟨tok, v₁⟩ := p
          obtain ⟨tok', v₁'⟩ := p'
          obtain ⟨rfl, halike⟩ : tok = tok' ∧ Alike v₁ v₁' := hfetched
          have hrest := ih halike (getNextToken_terminalWf hw hok)
            (getNextToken_terminalWf hw' hok')
          exact hrest.bind fun toks toks' heq => congrArg (tok :: ·) heq
      | setEncoding encoding =>
          refine ih (v := { v with terminal := _ }) ⟨⟨?_, h.screen⟩, h.pending_eq⟩ { hw with }
            { hw' with }
          obtain ⟨stream, len, total, off, hmodes⟩ := h.modes
          rw [hmodes]
          exact ⟨_, _, _, _, rfl⟩

theorem fetch_not_null {tok : VT100TCC} {b : UInt8} {rest : List UInt8}
    (hok : v.fetch F (b :: rest) = .ok (tok, v')) : tok.type ≠ .cc 0 := by
  simp only [fetch] at hok
  split at hok
  · obtain ⟨v₁, -, hok⟩ := bind_eq_ok.mp hok
    cases hok
    unfold decodeAsciiString
    simp only
    split
    · simp only
      split <;> simp
    · simp
  · split at hok
    · obtain ⟨⟨tok', n, s⟩, hdecode, hok⟩ := bind_eq_ok.mp hok
      obtain ⟨v₁, -, hok⟩ := bind_eq_ok.mp hok
      obtain ⟨v₂, -, hok⟩ := bind_eq_ok.mp hok
      obtain ⟨v₃, -, hok⟩ := bind_eq_ok.mp hok
      cases hok
      exact decodeControl_not_null hdecode
    · split at hok
      · split at hok
        · obtain ⟨v₁, -, hok⟩ := bind_eq_ok.mp hok
          cases hok
          simp
        · obtain ⟨v₁, -, hok⟩ := bind_eq_ok.mp hok
          cases hok
          unfold decodeString
          simp only
          split
          · simp
          · split <;> simp
      · obtain ⟨v₁, -, hok⟩ := bind_eq_ok.mp hok
        cases hok
        simp

end VT100

namespace Queue

variable {F : Foundation} {q : Queue}

/-- An empty stream at offset 0. -/
structure EmptyAtZero (t : Terminal) : Prop where
  wf : t.Wf
  length_eq : t.currentStreamLength = 0
  offset_eq : t.streamOffset = 0

/-- `cleanStream` forgets the stream: the next fetch finds nothing, and whatever calls
follow are answered as by a terminal that has the same modes and an empty stream. -/
structure Forgets (F : Foundation) (t : Terminal) : Prop where
  null : ∀ s, ∃ v', VT100.nextToken F { terminal := t.cleanStream, screen := s } =
    .ok ({ type := .cc 0 }, v')
  same : ∀ t₀ s calls, t.SameModes t₀ → EmptyAtZero t₀ →
    VT100.tokens F calls { terminal := t.cleanStream, screen := s } =
      VT100.tokens F calls { terminal := t₀, screen := s }

/-- With an offset the next fetch finds bytes, whatever they are. -/
theorem not_forgets {t : Terminal} (hpos : 0 < t.streamOffset) (hlt : t.streamOffset < 2 ^ 31)
    (s : Screen) : ¬∃ v', VT100.nextToken F { terminal := t.cleanStream, screen := s } =
      .ok ({ type := .cc 0 }, v') := by
  rintro ⟨v', hok⟩
  have hlen : 0 < t.cleanStream.datalen := by
    have hpassed : ¬t.cleanStream.streamOffset ≤ t.cleanStream.currentStreamLength :=
      Int.not_le.mpr hpos
    rw [Terminal.datalen, if_neg hpassed]
    simp only [Terminal.cleanStream, cuint]
    omega
  obtain ⟨n, hn⟩ := Nat.exists_eq_add_of_lt hlen
  rw [VT100.nextToken, Terminal.unread, hn, Nat.zero_add, Block.slice] at hok
  exact VT100.fetch_not_null hok rfl

theorem forgets_of_zero {t : Terminal} (h : t.Wf) (hzero : t.streamOffset = 0) : Forgets F t := by
  have htotal := h.standard_le
  have hwf : t.cleanStream.Wf := { h with
    offset_le := by simp only [Terminal.cleanStream]; omega
    length_le := by simp only [Terminal.cleanStream, standardStreamSize] at *; omega }
  have hempty : ∀ t' : Terminal, t'.Wf → t'.currentStreamLength = 0 → t'.pending = [] := by
    intro t' hwf' hlen
    have hpending := Terminal.pending_length hwf'
    have hoff := hwf'.offset_nonneg
    exact List.length_eq_zero_iff.mp (by omega)
  have hclean := hempty _ hwf rfl
  refine ⟨fun s => ?_, fun t₀ s calls hmodes h₀ => ?_⟩
  · rw [VT100.nextToken_eq hwf.offset_le, VT100.getNextToken_empty hclean]
    exact ⟨_, rfl⟩
  · have halike : VT100.Alike { terminal := t.cleanStream, screen := s }
        { terminal := t₀, screen := s } := by
      refine ⟨⟨?_, .refl _⟩, (hempty _ h₀.wf h₀.length_eq).trans hclean.symm⟩
      obtain ⟨stream, len, total, off, rfl⟩ := hmodes
      exact ⟨_, _, _, _, rfl⟩
    exact (halike.tokens hwf h₀.wf calls).eq

/-- The states that calls reach whose sums are values of an `int`. -/
theorem sound_of_reach (hr : Reach Queue.Initial (QueueStep F) Queue.FitsInt q) : q.Sound :=
  Reach.invariant (fun _ h => h.sound) (fun _ _ _ h hfits hstep => h.step hfits hstep) hr

/-- Cleaning forgets the stream exactly when nothing has been taken off its front since it was
found empty. To forget means that the next fetch finds nothing, and that whatever calls
follow are answered as by a terminal in the same modes that has nothing to read. -/
theorem clean_forgets_iff (hr : Reach Queue.Initial (QueueStep F) Queue.FitsInt q) :
    Forgets F q.terminal ↔ q.terminal.streamOffset = 0 := by
  have hsound := sound_of_reach hr
  have hoff := hsound.wf.offset_nonneg
  have hle := hsound.wf.offset_le
  have hlen := hsound.wf.length_le
  have htotal := hsound.total_lt
  refine ⟨fun h => ?_, forgets_of_zero hsound.wf⟩
  by_contra hne
  obtain ⟨v, -⟩ := VT100.init_fresh ⟨0, 0, 0⟩
  exact not_forgets (F := F) (by omega) (by omega) v.screen (h.null _)

/-- While the unfinished `ESC [` is pending at the start of the stream. -/
theorem pending_clean_forgets : ∃ q,
    Reach Queue.Initial (QueueStep Foundation.latin1) Queue.FitsInt q ∧
    q.terminal.pending = [0x1b, 0x5b] ∧ q.terminal.streamOffset = 0 ∧
    Forgets Foundation.latin1 q.terminal := by
  let t₁ : Terminal := { Terminal.init with
    stream := Terminal.init.stream.paste 0 (Block.ofList [0x1b, 0x5b] 0) 0 2
    currentStreamLength := 2 }
  have h₁ : Terminal.init.putStreamData [0x1b, 0x5b] = .ok t₁ := rfl
  have hfits : Queue.FitsInt { terminal := Terminal.init, put := [], taken := [] }
      (.put [0x1b, 0x5b]) := ⟨by decide, by decide⟩
  have hr : Reach Queue.Initial (QueueStep Foundation.latin1) Queue.FitsInt
      { terminal := t₁, put := [0x1b, 0x5b], taken := [] } :=
    .step (.init ⟨_, _, rfl, rfl⟩) (.put h₁) hfits
  exact ⟨_, hr, rfl, rfl, (clean_forgets_iff hr).mpr rfl⟩

/-- After `a` has been taken in front of an unfinished sequence the offset is 1, and cleaning
leaves it there. -/
theorem clean_remembers : ∃ q, Reach Queue.Initial (QueueStep Foundation.latin1) Queue.FitsInt q ∧
    q.put = [0x61, 0x1b] ∧ q.taken = [[0x61]] ∧ ¬Forgets Foundation.latin1 q.terminal := by
  obtain ⟨q, hr, htaken, hput, hoff⟩ := exists_taken Queue.FitsInt
    (fun q hlen htotal => ⟨by rw [hlen]; decide, by
      rw [Terminal.reserve, hlen, htotal, if_neg (by decide), htotal]; decide⟩) (fun q => trivial)
  obtain ⟨v, -⟩ := VT100.init_fresh ⟨0, 0, 0⟩
  refine ⟨q, hr, hput, htaken, fun h => ?_⟩
  exact not_forgets (by omega) (by omega) v.screen (h.null _)

end Queue

end MobileTerminal
