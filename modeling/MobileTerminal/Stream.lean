import MobileTerminal.Terminal

/-!
# The byte queue of the terminal

`STREAM` is a growing block of which the bytes from `streamOffset` up to
`current_stream_length` are pending. `Terminal.Wf` is what the queue operations
keep: the pending bytes lie inside the block. Under it `putStreamData` always
completes and appends to the pending bytes (`putStreamData_spec`), `skip` takes
bytes off the front, and a stream that is found empty starts again at the
beginning.

Nothing else in the terminal depends on where the pending bytes lie. `SameModes`
relates two terminals that differ in the stream alone, `SameStream` two that
differ in anything else; between them they are the frame of every operation, and
most operations are in one of the two.

The lengths are those of the source. That no sum of them overflows an `int` is
not part of `Wf`; the results about the queue in a run ask for it.
-/

namespace MobileTerminal

namespace Terminal

variable {t t' : Terminal}

structure Wf (t : Terminal) : Prop where
  offset_nonneg : 0 ≤ t.streamOffset
  offset_le : t.streamOffset ≤ t.currentStreamLength
  length_le : t.currentStreamLength ≤ t.totalStreamLength
  size_eq : t.stream.size = t.totalStreamLength
  standard_le : standardStreamSize ≤ t.totalStreamLength
  charset_range : 0 ≤ t.charset ∧ t.charset ≤ 1
  saved_range : 0 ≤ t.saveCharset ∧ t.saveCharset ≤ 1

theorem init_wf : init.Wf where
  offset_nonneg := Int.le_refl 0
  offset_le := Int.le_refl 0
  length_le := by decide
  size_eq := rfl
  standard_le := Int.le_refl _
  charset_range := by decide
  saved_range := by decide

theorem pending_length (h : t.Wf) :
    (t.pending.length : Int) = t.currentStreamLength - t.streamOffset := by
  have := h.offset_le
  simp only [pending, Block.slice_length]
  omega

/-- `t'` is `t` but for the stream. -/
def SameModes (t t' : Terminal) : Prop :=
  ∃ stream len total off, t' = { t with
    stream := stream, currentStreamLength := len, totalStreamLength := total
    streamOffset := off }

theorem SameModes.refl (t : Terminal) : SameModes t t := ⟨_, _, _, _, rfl⟩

theorem SameModes.trans {t'' : Terminal} (h : SameModes t t') (h' : SameModes t' t'') :
    SameModes t t'' := by
  obtain ⟨stream, len, total, off, rfl⟩ := h
  obtain ⟨stream', len', total', off', rfl⟩ := h'
  exact ⟨stream', len', total', off', rfl⟩

theorem SameModes.symm (h : SameModes t t') : SameModes t' t := by
  obtain ⟨stream, len, total, off, rfl⟩ := h
  exact ⟨_, _, _, _, rfl⟩

/-- The stream of `t'` is that of `t`. -/
structure SameStream (t t' : Terminal) : Prop where
  stream : t'.stream = t.stream
  length : t'.currentStreamLength = t.currentStreamLength
  total : t'.totalStreamLength = t.totalStreamLength
  offset : t'.streamOffset = t.streamOffset

theorem SameStream.refl (t : Terminal) : SameStream t t := ⟨rfl, rfl, rfl, rfl⟩

theorem SameStream.trans {t'' : Terminal} (h : SameStream t t') (h' : SameStream t' t'') :
    SameStream t t'' :=
  ⟨h'.stream.trans h.stream, h'.length.trans h.length, h'.total.trans h.total,
    h'.offset.trans h.offset⟩

theorem SameStream.pending_eq (h : SameStream t t') : t'.pending = t.pending := by
  rw [pending, pending, h.stream, h.length, h.offset]

/-- Changing nothing but the stream keeps `Wf` as long as the new stream is sound. -/
theorem Wf.withStream (h : t.Wf) {stream : Block UInt8} {len total off : Int} (h0 : 0 ≤ off)
    (hol : off ≤ len) (hlt : len ≤ total) (hs : stream.size = total)
    (hst : standardStreamSize ≤ total) :
    Wf { t with stream := stream, currentStreamLength := len, totalStreamLength := total
                streamOffset := off } where
  offset_nonneg := h0
  offset_le := hol
  length_le := hlt
  size_eq := hs
  standard_le := hst
  charset_range := h.charset_range
  saved_range := h.saved_range

/-! ## Adding bytes -/

theorem reserve_eq (h : t.Wf) (length : Int) :
    ∃ total, t.reserve length = { t with
      totalStreamLength := total, stream := { t.stream with size := total } } := by
  unfold reserve
  split
  · exact ⟨_, rfl⟩
  · have hsame : { t.stream with size := t.totalStreamLength } = t.stream := by
      rw [← h.size_eq]
    exact ⟨t.totalStreamLength, by rw [hsame]⟩

/-- Growing by whole standard sizes is enough, because the block never gets
smaller than one of them. -/
theorem reserve_wf (h : t.Wf) (length : Int) (h0 : 0 ≤ length) :
    (t.reserve length).Wf ∧
      t.currentStreamLength + length ≤ (t.reserve length).totalStreamLength := by
  have hlen := h.length_le
  have hst := h.standard_le
  have hol := h.offset_le
  have hoff := h.offset_nonneg
  unfold reserve
  split
  · rename_i hgt
    simp only
    rw [Int.tdiv_eq_ediv_of_nonneg (by omega)]
    simp only [standardStreamSize] at *
    refine ⟨h.withStream hoff hol (by omega) rfl (by simp only [standardStreamSize]; omega), ?_⟩
    omega
  · exact ⟨h, by omega⟩

/-- `putStreamData:` completes and appends to the pending bytes, and it changes nothing but
the stream. -/
theorem putStreamData_spec (h : t.Wf) (data : List UInt8) :
    ∃ t', t.putStreamData data = .ok t' ∧ t'.Wf ∧ SameModes t t' ∧
      t'.pending = t.pending ++ data := by
  obtain ⟨hr, hroom⟩ := reserve_wf h data.length (by omega)
  obtain ⟨total, heq⟩ := reserve_eq h data.length
  have hoff := h.offset_nonneg
  have hol := h.offset_le
  rw [heq] at hr hroom
  have htotal : t.currentStreamLength + data.length ≤ total := hroom
  have hcopy : (Block.copy { t.stream with size := total } t.currentStreamLength
      (Block.ofList data 0) 0 data.length : Res _) =
      .ok (Block.paste { t.stream with size := total } t.currentStreamLength
        (Block.ofList data 0) 0 data.length) := by
    apply if_pos
    by_cases hd : (data.length : Int) = 0
    · exact Or.inl hd
    · exact Or.inr ⟨by omega, Int.le_refl 0, by simp, by omega, htotal⟩
  -- the offset is only reset when it is zero already
  have hzero : (if t.currentStreamLength + (data.length : Int) = 0 then 0 else t.streamOffset) =
      t.streamOffset := by
    split <;> omega
  refine ⟨{ t with
      stream := Block.paste { t.stream with size := total } t.currentStreamLength
        (Block.ofList data 0) 0 data.length
      currentStreamLength := t.currentStreamLength + data.length
      totalStreamLength := total }, ?_, ?_, ⟨_, _, _, _, rfl⟩, ?_⟩
  · simp only [putStreamData, heq, hcopy, ok_bind, hzero]
  · exact h.withStream hoff (by omega) htotal rfl hr.standard_le
  · simp only [pending]
    rw [show (t.currentStreamLength + (data.length : Int) - t.streamOffset).toNat =
      (t.currentStreamLength - t.streamOffset).toNat + data.length by omega, Block.slice_add]
    congr 1
    · apply Block.slice_congr
      intro i hi
      exact Block.paste_cell_of_notMem _ _ (Or.inl (by omega))
    · rw [show t.streamOffset + ((t.currentStreamLength - t.streamOffset).toNat : Int) =
        t.currentStreamLength by omega]
      calc _ = (Block.ofList data 0).slice 0 data.length := by
            apply Block.slice_congr
            intro i hi
            rw [Block.paste_cell_of_mem _ _ (by omega) (by omega)]
            congr 1
            omega
        _ = data := Block.slice_ofList data 0

/-! ## Taking bytes -/

/-- A stream with nothing pending starts again at the beginning. -/
theorem emptyStream_wf (h : t.Wf) : t.emptyStream.Wf := by
  have hlen := h.length_le
  have hst := h.standard_le
  unfold emptyStream
  simp only
  split
  · exact h.withStream (Int.le_refl 0) (Int.le_refl 0) (by decide) rfl (Int.le_refl _)
  · refine h.withStream (Int.le_refl 0) (Int.le_refl 0) ?_ h.size_eq hst
    exact Int.le_trans (by decide) hst

theorem emptyStream_sameModes (t : Terminal) : SameModes t t.emptyStream := by
  unfold emptyStream
  simp only
  split <;> exact ⟨_, _, _, _, rfl⟩

theorem emptyStream_pending (t : Terminal) : t.emptyStream.pending = [] := by
  unfold emptyStream
  simp only
  split <;> rfl

theorem skip_wf (h : t.Wf) {n : Nat} (hn : n ≤ t.pending.length) : (t.skip n).Wf := by
  have hlen := pending_length h
  have hoff := h.offset_nonneg
  exact { h with
    offset_nonneg := by simp only [skip]; omega
    offset_le := by simp only [skip]; omega }

theorem skip_pending (h : t.Wf) {n : Nat} (hn : n ≤ t.pending.length) :
    (t.skip n).pending = t.pending.drop n := by
  have hlen := pending_length h
  simp only [pending, skip, Block.slice_length] at *
  obtain ⟨m, hm⟩ := Nat.exists_eq_add_of_le hn
  rw [hm, Block.slice_add, show (t.currentStreamLength - (t.streamOffset + (n : Int))).toNat = m
    by omega]
  simp

end Terminal

end MobileTerminal
