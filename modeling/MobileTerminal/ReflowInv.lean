import MobileTerminal.RingInv

/-!
# The new ring while it is filled

`resizeWidth:height:` fills a new ring line by line and may go round it several
times. `Reflow.Ok` is what every step of the copy loops keeps: the row counter
`y2` is the line `c2` points to, and from the first wrap on the new scrollback
starts at the line that will be overwritten next.

Each loop has one lemma, and they are stacked as the loops are: placing a cell,
a loop over columns, a loop along the wrap marks, one logical line, all of them.
A lemma assumes that its part completes. That the loops do complete, and what
they read, is the subject of later modules; here the question is only what the
new ring looks like after any of them.

From the invariant after the last loop the ring invariant of the resized screen
follows (`resizeWidth_wf`): `newPosition_range` bounds the cursor and the
scrollback, and `newScreenTop_eq` places `screen_top` that many lines behind
`scrollback_top`.
-/

namespace MobileTerminal

namespace Reflow

variable {T w : Int} {r r' : Reflow}

structure Ok (T w : Int) (r : Reflow) : Prop where
  size_eq : r.bl.size = T * (w + 1)
  row_range : 0 ≤ r.y2 ∧ r.y2 < T
  line_eq : r.c2 = r.y2 * (w + 1)
  top_eq : r.newScrollbackTop = if r.wrapped then r.c2 else 0

theorem Ok.withBl (h : r.Ok T w) {bl : Block ScreenChar} (hb : bl.size = r.bl.size) :
    Ok T w { r with bl := bl } :=
  { h with size_eq := hb.trans h.size_eq }

theorem Ok.nextRow_eq (h : r.Ok T w) (hw : 0 < w + 1) :
    r.nextRow T w = { r with
      y2 := wrapLine T (r.y2 + 1), c2 := wrapLine T (r.y2 + 1) * (w + 1)
      wrapped := r.wrapped || decide (T ≤ r.y2 + 1)
      newScrollbackTop :=
        if r.wrapped || decide (T ≤ r.y2 + 1) then wrapLine T (r.y2 + 1) * (w + 1) else 0 } := by
  have hr := h.row_range
  have hc := Screen.incrementLinePointer_line (w := w) hw hr.2
  rw [← h.line_eq] at hc
  have hy : (if decide (T ≤ r.y2 + 1) = true then 0 else r.y2 + 1) = wrapLine T (r.y2 + 1) := by
    unfold wrapLine
    split <;> split <;> simp_all <;> omega
  simp only [nextRow, h.top_eq, hc, hy]
  cases hwr : r.wrapped with
  | true => simp [hc]
  | false =>
      by_cases hlast : T ≤ r.y2 + 1
      · simp [hlast, wrapLine_of_ge hlast, show r.y2 + 1 - T = 0 by omega]
      · simp [hlast]

theorem Ok.nextRow (h : r.Ok T w) (hw : 0 < w + 1) : (r.nextRow T w).Ok T w := by
  have hr := h.row_range
  rw [h.nextRow_eq hw]
  exact { h with
    row_range := ⟨wrapLine_nonneg (by omega), wrapLine_lt (by omega)⟩
    line_eq := rfl
    top_eq := rfl }

/-- After a row has been completed there is a row above `c2`, unless the ring has
been filled. -/
theorem nextRow_started (h : r.Ok T w) (hw : 0 < w + 1) :
    1 ≤ (r.nextRow T w).y2 ∨ (r.nextRow T w).wrapped = true := by
  have hr := h.row_range
  rw [h.nextRow_eq hw]
  simp only [Bool.or_eq_true, decide_eq_true_eq]
  unfold wrapLine
  split <;> omega

theorem setMark_ok {ch : UniChar} (h : r.Ok T w) (hok : r.setMark w ch = .ok r') :
    r'.Ok T w := by
  obtain ⟨c, -, hok⟩ := bind_eq_ok.mp hok
  obtain ⟨bl, hbl, hok⟩ := bind_eq_ok.mp hok
  cases hok
  exact h.withBl (Block.size_of_store hbl)

theorem wrapRow_ok (h : r.Ok T w) (hw : 0 < w + 1) (hok : r.wrapRow T w = .ok r') :
    r'.Ok T w := by
  obtain ⟨r₁, h₁, hok⟩ := bind_eq_ok.mp hok
  exact setMark_ok ((setMark_ok h h₁).nextRow hw) hok

theorem putAt_ok {x : Int} {c : ScreenChar} (h : r.Ok T w) (hok : r.putAt x c = .ok r') :
    r'.Ok T w := by
  obtain ⟨bl, hbl, hok⟩ := bind_eq_ok.mp hok
  cases hok
  exact h.withBl (Block.size_of_store hbl)

theorem placeCell_ok {x x' : Int} {c : ScreenChar} (h : r.Ok T w) (hw : 0 < w + 1)
    (hok : r.placeCell T w x c = .ok (r', x')) : r'.Ok T w := by
  unfold placeCell at hok
  split at hok
  · obtain ⟨r₁, h₁, hok⟩ := bind_eq_ok.mp hok
    obtain ⟨r₂, h₂, hok⟩ := bind_eq_ok.mp hok
    cases hok
    exact putAt_ok (wrapRow_ok h hw h₁) h₂
  · obtain ⟨r₁, h₁, hok⟩ := bind_eq_ok.mp hok
    cases hok
    exact putAt_ok h h₁

theorem copyFrom_ok {src : Block ScreenChar} {c1 n : Int} (h : r.Ok T w)
    (hok : r.copyFrom src c1 n = .ok r') : r'.Ok T w := by
  obtain ⟨bl, hbl, hok⟩ := bind_eq_ok.mp hok
  cases hok
  exact h.withBl (Block.size_of_copy hbl)

theorem padRow_ok {x : Int} {line : Block ScreenChar} (h : r.Ok T w)
    (hok : r.padRow w x line = .ok r') : r'.Ok T w := by
  unfold padRow at hok
  split at hok
  · obtain ⟨bl, hbl, hok⟩ := bind_eq_ok.mp hok
    cases hok
    exact h.withBl (Block.size_of_copy hbl)
  · cases hok
    exact h

end Reflow

namespace Screen

variable {t : Terminal} {s s' : Screen} {T w : Int} {r r' : Reflow}

theorem copyWider_ok {c1 x1 x2 x2' : Int} {k : Nat} (h : r.Ok T w) (hw : 0 < w + 1)
    (hok : copyWider s T w c1 k x1 r x2 = .ok (r', x2')) : r'.Ok T w := by
  induction k generalizing x1 r x2 with
  | zero =>
      cases hok
      exact h
  | succ k ih =>
      obtain ⟨n, -, hok⟩ := bind_eq_ok.mp hok
      split at hok
      · cases hok
        exact h
      · obtain ⟨c, -, hok⟩ := bind_eq_ok.mp hok
        obtain ⟨⟨r₁, x₁⟩, h₁, hok⟩ := bind_eq_ok.mp hok
        exact ih (Reflow.placeCell_ok h hw h₁) hok

theorem widerRows_ok {fuel : Nat} {y1 y1' c1 x2 x2' : Int} (h : r.Ok T w) (hw : 0 < w + 1)
    (hok : widerRows s T w fuel y1 c1 r x2 = .ok (r', y1', x2')) : r'.Ok T w := by
  induction fuel generalizing y1 c1 r x2 with
  | zero => cases hok
  | succ fuel ih =>
      obtain ⟨mark, -, hok⟩ := bind_eq_ok.mp hok
      split at hok
      · obtain ⟨c1', -, hok⟩ := bind_eq_ok.mp hok
        obtain ⟨⟨r₁, x₁⟩, h₁, hok⟩ := bind_eq_ok.mp hok
        exact ih (copyWider_ok h hw h₁) hok
      · cases hok
        exact h

theorem copyNarrower_ok {c1 x1 x2 x2' : Int} {k : Nat} (h : r.Ok T w) (hw : 0 < w + 1)
    (hok : copyNarrower s T w c1 k x1 r x2 = .ok (r', x2')) : r'.Ok T w := by
  induction k generalizing x1 r x2 with
  | zero =>
      cases hok
      exact h
  | succ k ih =>
      obtain ⟨n, -, hok⟩ := bind_eq_ok.mp hok
      obtain ⟨ends, -, hok⟩ := bind_eq_ok.mp hok
      split at hok
      · cases hok
        exact h
      · obtain ⟨c, -, hok⟩ := bind_eq_ok.mp hok
        obtain ⟨⟨r₁, x₁⟩, h₁, hok⟩ := bind_eq_ok.mp hok
        exact ih (Reflow.placeCell_ok h hw h₁) hok

theorem narrowerRows_ok {fuel : Nat} {y1 y1' c1 x1 x2 x2' : Int} (h : r.Ok T w)
    (hw : 0 < w + 1) (hok : narrowerRows s T w fuel y1 c1 x1 r x2 = .ok (r', y1', x2')) :
    r'.Ok T w := by
  induction fuel generalizing y1 c1 x1 r x2 with
  | zero => cases hok
  | succ fuel ih =>
      obtain ⟨⟨r₁, x₁⟩, h₁, hok⟩ := bind_eq_ok.mp hok
      have hr₁ : r₁.Ok T w := copyNarrower_ok h hw h₁
      obtain ⟨mark, -, hok⟩ := bind_eq_ok.mp hok
      split at hok
      · obtain ⟨c1', -, hok⟩ := bind_eq_ok.mp hok
        exact ih hr₁ hok
      · cases hok
        exact hr₁

theorem copyLineWider_ok {line : Block ScreenChar} {fuel : Nat} {y1 y1' c1 : Int}
    (h : r.Ok T w) (hw : 0 < w + 1)
    (hok : copyLineWider s T w line fuel y1 c1 r = .ok (r', y1')) : r'.Ok T w := by
  obtain ⟨r₁, h₁, hok⟩ := bind_eq_ok.mp hok
  obtain ⟨r₂, h₂, hok⟩ := bind_eq_ok.mp hok
  obtain ⟨⟨r₃, y₃, x₃⟩, h₃, hok⟩ := bind_eq_ok.mp hok
  obtain ⟨r₄, h₄, hok⟩ := bind_eq_ok.mp hok
  cases hok
  have h₂ := Reflow.setMark_ok (Reflow.copyFrom_ok h h₁) h₂
  exact Reflow.padRow_ok (widerRows_ok h₂ hw h₃) h₄

theorem copyLineNarrower_ok {line : Block ScreenChar} {fuel : Nat} {y1 y1' c1 : Int}
    (h : r.Ok T w) (hw : 0 < w + 1)
    (hok : copyLineNarrower s T w line fuel y1 c1 r = .ok (r', y1')) : r'.Ok T w := by
  obtain ⟨r₁, h₁, hok⟩ := bind_eq_ok.mp hok
  obtain ⟨r₂, h₂, hok⟩ := bind_eq_ok.mp hok
  obtain ⟨⟨r₃, y₃, x₃⟩, h₃, hok⟩ := bind_eq_ok.mp hok
  obtain ⟨r₄, h₄, hok⟩ := bind_eq_ok.mp hok
  cases hok
  have h₂ := Reflow.setMark_ok (Reflow.copyFrom_ok h h₁) h₂
  exact Reflow.padRow_ok (narrowerRows_ok h₂ hw h₃) h₄

theorem copyLogicalLine_ok {line : Block ScreenChar} {fuel : Nat} {y1 y1' : Int}
    (h : r.Ok T w) (hw : 0 < w + 1)
    (hok : copyLogicalLine s T w line fuel y1 r = .ok (r', y1')) :
    r'.Ok T w ∧ (1 ≤ r'.y2 ∨ r'.wrapped = true) := by
  obtain ⟨c1, -, hok⟩ := bind_eq_ok.mp hok
  obtain ⟨⟨r₁, y₁⟩, h₁, hok⟩ := bind_eq_ok.mp hok
  cases hok
  have h₁ : r₁.Ok T w := by
    split at h₁
    · obtain ⟨r₂, h₂, h₁⟩ := bind_eq_ok.mp h₁
      cases h₁
      exact Reflow.copyFrom_ok h h₂
    · split at h₁
      · exact copyLineWider_ok h hw h₁
      · exact copyLineNarrower_ok h hw h₁
  exact ⟨h₁.nextRow hw, Reflow.nextRow_started h₁ hw⟩

theorem copyRows_ok {line : Block ScreenChar} {fuel k : Nat} {y1 : Int} (h : r.Ok T w)
    (hw : 0 < w + 1) (hok : copyRows s T w line fuel k y1 r = .ok r') :
    r'.Ok T w ∧ (y1 < s.currentScrollbackLines + s.height ∨ 1 ≤ r.y2 ∨ r.wrapped = true →
      1 ≤ r'.y2 ∨ r'.wrapped = true) := by
  induction k generalizing y1 r with
  | zero => cases hok
  | succ k ih =>
      unfold copyRows at hok
      split at hok
      · obtain ⟨⟨r₁, y₁⟩, h₁, hok⟩ := bind_eq_ok.mp hok
        obtain ⟨h₁, hstart⟩ := copyLogicalLine_ok h hw h₁
        obtain ⟨h₂, hrest⟩ := ih h₁ hok
        exact ⟨h₂, fun _ => hrest (Or.inr hstart)⟩
      · rename_i hlt
        cases hok
        exact ⟨h, fun hor => hor.resolve_left hlt⟩

theorem fillRest_size {line bl : Block ScreenChar}
    (hok : fillRest T w line r = .ok bl) : bl.size = r.bl.size := by
  obtain ⟨⟨c2, bl'⟩, h₁, hok⟩ := bind_eq_ok.mp hok
  cases hok
  refine forUp_inv (P := fun _ (q : Int × Block ScreenChar) => q.2.size = r.bl.size) ?_ rfl h₁
  rintro i ⟨c, b⟩ ⟨c', b'⟩ - - hP hs
  obtain ⟨b₁, hb₁, hs⟩ := bind_eq_ok.mp hs
  cases hs
  exact (Block.size_of_copy hb₁).trans hP

/-! ## The resized screen -/

theorem reflow_start_ok (hT : 0 < T) (c : ScreenChar) :
    Reflow.Ok T w { bl := Block.alloc (T * (w + 1)) c, c2 := 0, newScrollbackTop := 0, y2 := 0
                    wrapped := false } where
  size_eq := rfl
  row_range := ⟨Int.le_refl 0, hT⟩
  line_eq := by simp
  top_eq := rfl

theorem newPosition_range {max height : Int} (hr : r.Ok (max + height) w) (hmax : 0 < max) :
    0 ≤ (newPosition max height r).1 ∧ (newPosition max height r).1 ≤ max := by
  have hy := hr.row_range
  simp only [newPosition, if_pos hmax]
  split
  · exact ⟨by simp only; omega, Int.le_refl _⟩
  · split <;> simp only <;> omega

theorem newScreenTop_eq (line count : Int) (hw : 0 < w + 1) :
    newScreenTop T w (line * (w + 1)) count = wrapLine T (line + count) * (w + 1) := by
  have hsum : line * (w + 1) + count * (w + 1) = (line + count) * (w + 1) := by ring
  have hgt : line * (w + 1) + count * (w + 1) > (T - 1) * (w + 1) ↔ T ≤ line + count := by
    rw [hsum, gt_iff_lt, line_lt_iff hw]
    omega
  simp only [newScreenTop]
  by_cases h : T ≤ line + count
  · rw [if_pos (hgt.mpr h), wrapLine_of_ge h]
    ring
  · rw [if_neg (fun hc => h (hgt.mp hc)), wrapLine_of_lt (by omega), hsum]

theorem install_wf {height : Int} {bl : Block ScreenChar} (h : s.DefaultOk)
    (hmax : 0 < s.maxScrollbackLines) (hfixed : s.dynamicScrollbackSize = false)
    (hx : 0 ≤ s.cursorX) (hsx : 0 ≤ s.saveCursorX) (htabs : s.tabStop.size = tabWindow)
    (hcs : s.charset.size = 4) (hscs : s.saveCharset.size = 4) (hw : 1 ≤ w) (hh : 1 ≤ height)
    (hr : r.Ok (s.maxScrollbackLines + height) w) (hbl : bl.size = r.bl.size) :
    (s.install (s.maxScrollbackLines + height) w height r bl).Wf := by
  have hw1 : 0 < w + 1 := by omega
  have hy := hr.row_range
  have hc := newPosition_range hr hmax
  -- the new scrollback starts at a line of the ring
  obtain ⟨line, hline, hl0, hlT⟩ : ∃ line, r.newScrollbackTop = line * (w + 1) ∧ 0 ≤ line ∧
      line < s.maxScrollbackLines + height := by
    rw [hr.top_eq, hr.line_eq]
    split
    · exact ⟨r.y2, rfl, hy⟩
    · exact ⟨0, by simp, Int.le_refl 0, by omega⟩
  have htop := newScreenTop_eq (T := s.maxScrollbackLines + height) line
    (newPosition s.maxScrollbackLines height r).1 hw1
  refine {
    width_pos := hw, height_pos := hh, max_pos := hmax, fixed := hfixed
    buffer_size := hbl.trans hr.size_eq, dirty_size := Int.mul_comm _ _, last_line := rfl
    top_aligned := ?_, scrollback_aligned := ?_, scrollback_range := ?_, count_range := hc
    top_eq := ?_, margins := ⟨Int.le_refl 0, ?_, ?_⟩, column := ?_, saved_column := ?_
    tabs := htabs, charsets := hcs, saved_charsets := hscs, temp := fun _ h => by cases h
    default := h }
  all_goals simp only [install, topLine, scrollbackLine, realWidth, totalHeight, htop, hline,
    line_ediv hw1]
  · exact ⟨hl0, hlT⟩
  · omega
  · omega
  · split <;> omega
  · split <;> omega

theorem resizeWidth_wf {width height : Int} (h : s.Wf) (hw : 1 ≤ width) (hh : 1 ≤ height)
    (hok : s.resizeWidth t width height = .ok s') : s'.Wf := by
  unfold resizeWidth at hok
  split at hok
  · cases hok
    exact h
  · obtain ⟨trimmed, -, hok⟩ := bind_eq_ok.mp hok
    obtain ⟨r, hr, hok⟩ := bind_eq_ok.mp hok
    obtain ⟨bl, hbl, hok⟩ := bind_eq_ok.mp hok
    obtain ⟨s₁, h₁, hok⟩ := bind_eq_ok.mp hok
    refine (refresh_draws hok).wf ((setDirty_draws h₁).wf ?_)
    have hT : 0 < s.maxScrollbackLines + height := by
      have := h.max_pos
      omega
    have hr := (copyRows_ok (reflow_start_ok hT _) (by omega) hr).1
    have hbl : bl.size = r.bl.size := by
      split at hbl
      · cases hbl
        rfl
      · exact fillRest_size hbl
    have hd := getDefaultLine_draws t.foregroundColorCode t.backgroundColorCode width
      { s with height := trimmed }
    unfold getDefaultLineWithWidth
    obtain ⟨⟨b, d, line, fg, bg, w, -, -, heq⟩, hl⟩ := hd
    have hdefault := hl h.default
    rw [heq] at hdefault ⊢
    exact install_wf hdefault h.max_pos h.fixed h.column.1 h.saved_column.1 h.tabs h.charsets
      h.saved_charsets hw hh hr hbl

end Screen

end MobileTerminal
