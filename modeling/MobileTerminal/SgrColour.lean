import MobileTerminal.SaveCursor
import MobileTerminal.SgrCompose
import MobileTerminal.ColorMap

/-!
# Colours

A colour code packs a colour number, one of the markers for the default colours
and three attribute flags into one `int`. Three things go wrong with it. The
`highlight` flag of the foreground is also set by the background items, so a
background can change how bright the text is (`colours_independent_iff`). The
flags for underline and blink are added to the marker of the default background,
which `color:` in `ColorMap.m` then no longer recognises (`decoration_iff`). And
the index of a 256-colour item is not checked, so it can run into the bits of
the flags (`packed_iff`).

All three are statements about runs of items, each in a sequence of its own, and
are proved in the same way. What a run leaves in a field is the last write to it
(`SgrItem.leaves`), so leaving out some of the items is filtering the list
(`leaves_filter`), and two runs are compared field by field. What remains is
arithmetic of the codes, for which `Packed` says that the parts fit and nothing
carries.

`packed_iff` is about the codes in every state of a run, so its induction adds
one sequence at a time at the end. Sequences after one with more than 16
parameters are never executed, as the token loop waits for an end of that
sequence from then on (`feedSgr_stuck`), and do not count.
-/

namespace MobileTerminal

variable {F : Foundation}

/-! ## Runs of items -/

namespace SgrItem

theorem writes_cases (item : SgrItem) :
    (∃ n, item.numbers = [n] ∧ item.writes = attrWrites n) ∨
      ∃ k c, item.numbers = [k, 5, c] ∧ (k = 38 ∨ k = 48) ∧ item.writes = colourWrites k c := by
  rcases item.shape with ⟨n, h, -⟩ | ⟨k, c, h, hk⟩
  · have hn : item.numbers = [n] := h
    refine Or.inl ⟨n, hn, ?_⟩
    rw [writes, hn]
    funext k
    simp [sgrWrites, isColour256, lastWrite]
  · have hn : item.numbers = [k, 5, c] := h
    refine Or.inr ⟨k, c, hn, hk, ?_⟩
    rw [writes, hn, sgrWrites, if_neg (List.cons_ne_nil _ _), if_pos (by simpa [isColour256] using hk)]
    rfl

def isForeground (item : SgrItem) : Bool :=
  match item.numbers with
  | [n] => (30 ≤ n && n ≤ 37) || n = 39 || (90 ≤ n && n ≤ 97)
  | n :: _ => n = 38
  | [] => false

def isBackground (item : SgrItem) : Bool :=
  match item.numbers with
  | [n] => (40 ≤ n && n ≤ 47) || n = 49 || (100 ≤ n && n ≤ 107)
  | n :: _ => n = 48
  | [] => false

/-- All off, bold, underline or blink, on or off. -/
def isStyle (item : SgrItem) : Bool :=
  item.numbers ∈ ([[0], [1], [4], [5], [22], [24], [25]] : List (List Int))

/-- Underline or blink, on or off. -/
def isDecoration (item : SgrItem) : Bool :=
  item.numbers ∈ ([[4], [24], [5], [25]] : List (List Int))

/-- A 256-colour item has an index below 256. -/
def InRange (item : SgrItem) : Prop := ∀ k c, item.numbers = [k, 5, c] → c ≤ 255

theorem background_writes {item : SgrItem} (h : item.isBackground = true) {k : Attr}
    (hbg : k ≠ .bg) (hhl : k ≠ .highlight) : item.writes k = none := by
  rcases item.writes_cases with ⟨n, hn, hw⟩ | ⟨m, c, hn, hm, hw⟩
  · rw [hw]
    simp only [isBackground, hn, Bool.or_eq_true, Bool.and_eq_true, decide_eq_true_eq] at h
    cases k <;> simp only [attrWrites] <;> first | contradiction | skip
    all_goals (repeat rw [if_neg (by omega)])
  · rw [hw]
    simp only [isBackground, hn, decide_eq_true_eq] at h
    subst h
    cases k <;> first | contradiction | rfl

theorem foreground_writes {item : SgrItem} (h : item.isForeground = true) {k : Attr}
    (hfg : k ≠ .fg) (hhl : k ≠ .highlight) : item.writes k = none := by
  rcases item.writes_cases with ⟨n, hn, hw⟩ | ⟨m, c, hn, hm, hw⟩
  · rw [hw]
    simp only [isForeground, hn, Bool.or_eq_true, Bool.and_eq_true, decide_eq_true_eq] at h
    cases k <;> simp only [attrWrites] <;> first | contradiction | skip
    all_goals (repeat rw [if_neg (by omega)])
  · rw [hw]
    simp only [isForeground, hn, decide_eq_true_eq] at h
    subst h
    cases k <;> first | contradiction | rfl

theorem decoration_writes {item : SgrItem} (h : item.isDecoration = true) {k : Attr}
    (hunder : k ≠ .under) (hblink : k ≠ .blink) : item.writes k = none := by
  have hnumbers : item.numbers = [4] ∨ item.numbers = [24] ∨ item.numbers = [5] ∨
      item.numbers = [25] := by simpa [isDecoration] using h
  rw [writes]
  rcases hnumbers with hn | hn | hn | hn
  all_goals
    rw [hn]
    cases k <;> first | contradiction | rfl

end SgrItem

/-- What a run of items leaves in a field. -/
def SgrItem.leaves (a : Attr → Int) (run : List SgrItem) (k : Attr) : Int :=
  (lastWrite SgrItem.writes run k).getD (a k)

open SgrItem

theorem leaves_filter {a : Attr → Int} {run : List SgrItem} {drop : SgrItem → Bool} {k : Attr}
    (h : ∀ item, drop item = true → item.writes k = none) :
    leaves a (run.filter fun item => !drop item) k = leaves a run k := by
  rw [leaves, lastWrite_filter, leaves]
  intro item _ hkeep
  exact h item (by simpa using hkeep)

theorem leaves_flag {a : Attr → Int} {run : List SgrItem} {k : Attr} (hfg : k ≠ .fg)
    (hbg : k ≠ .bg) (ha : a k = 0 ∨ a k = 1) : leaves a run k = 0 ∨ leaves a run k = 1 := by
  rw [leaves, ← overwriteAll_apply]
  refine overwriteAll_cases SgrItem.writes (P := fun x => x = 0 ∨ x = 1) ha ?_
  intro item _ x hx
  rcases item.writes_cases with ⟨n, -, hw⟩ | ⟨m, c, -, -, hw⟩
  · rw [hw] at hx
    cases k <;> simp only [attrWrites] at hx <;> first | contradiction | skip
    all_goals
      split at hx
      · exact Or.inl (Option.some.inj hx).symm
      · split at hx
        · exact Or.inr (Option.some.inj hx).symm
        · cases hx
  · rw [hw] at hx
    cases k <;> contradiction

namespace VT100

variable {v : VT100}

theorem feedSgr_leaves (h : v.Wf) (hempty : v.terminal.pending = []) (run : List SgrItem) :
    ∃ v', v.feedSgr F (run.map SgrItem.params) = .ok v' ∧
      ∀ k, v'.terminal.attr k = leaves v.terminal.attr run k := by
  obtain ⟨v', h', hattr⟩ := feedSgr_items (F := F) h hempty run
  refine ⟨v', h', fun k => ?_⟩
  rw [hattr, overwriteAll_apply]
  rfl

end VT100

/-! ## Foreground and background -/

namespace Terminal

variable {t t' : Terminal}

theorem foregroundColorCode_of_attr {a : Attr → Int} (h : ∀ k, t.attr k = a k) :
    t.foregroundColorCode = cint ((if a .reversed ≠ 0 then a .bg
      else if (a .fg).tmod 256 > 7 then a .fg
      else a .fg + (if a .highlight ≠ 0 then 1 else a .bold) * 8) +
      (a .bold * boldMask + a .under * underMask + a .blink * blinkMask)) := by
  rw [← funext h]
  exact foregroundColorCode_eq t

/-- Two terminals that differ in the highlight and in the background only. -/
theorem foreground_eq_iff (hfg : t'.fgColorcode = t.fgColorcode) (hbold : t'.bold = t.bold)
    (hunder : t'.under = t.under) (hblink : t'.blink = t.blink) (hrev : t.reversed = 0)
    (hrev' : t'.reversed = 0) (hflag : t.bold = 0 ∨ t.bold = 1) :
    t'.foregroundColorCode = t.foregroundColorCode ↔
      t.fgColorcode.tmod 256 > 7 ∨ t.bold ≠ 0 ∨ (t'.highlight ≠ 0 ↔ t.highlight ≠ 0) := by
  rw [foregroundColorCode_eq, foregroundColorCode_eq, if_neg (not_not_intro hrev'),
    if_neg (not_not_intro hrev)]
  have hcode : t'.attrCode = t.attrCode := by rw [attrCode, attrCode, hbold, hunder, hblink]
  rw [hcode, shade, shade, hfg, hbold]
  by_cases hhigh : t.fgColorcode.tmod 256 > 7
  · simp [hhigh]
  · rw [if_neg hhigh, if_neg hhigh]
    have hbright : ∀ b b' : Int, (b = 0 ∨ b = 1) → (b' = 0 ∨ b' = 1) →
        (cint (t.fgColorcode + b' * 8 + t.attrCode) = cint (t.fgColorcode + b * 8 + t.attrCode) ↔
          b' = b) := by
      intro b b' hb hb'
      unfold cint
      omega
    rw [hbright _ _ (by split <;> omega) (by split <;> omega)]
    rcases hflag with h0 | h1
    · by_cases hh : t.highlight = 0 <;> by_cases hh' : t'.highlight = 0 <;>
        simp [h0, hh, hh', hhigh]
    · simp [h1]

end Terminal

/-- Where the background items of a run do not change the foreground: at the end it is none
of the first eight colours, or bold anyway, or the highlight is as it is without them. -/
def ForegroundKept (a : Attr → Int) (run : List SgrItem) : Prop :=
  (leaves a run .fg).tmod 256 > 7 ∨ leaves a run .bold ≠ 0 ∨
    (leaves a (run.filter fun item => !item.isBackground) .highlight ≠ 0 ↔
      leaves a run .highlight ≠ 0)

theorem leaves_reversed {a : Attr → Int} {run : List SgrItem} (ha : a .reversed = 0)
    (hrun : ∀ item ∈ run, item.isStyle ∨ item.isForeground ∨ item.isBackground) :
    leaves a run .reversed = 0 := by
  rw [leaves, ← overwriteAll_apply]
  refine overwriteAll_cases SgrItem.writes (P := fun x => x = 0) ha ?_
  intro item hmem x hx
  rcases hrun item hmem with hstyle | hfg | hbg
  · have hnumbers : item.numbers = [0] ∨ item.numbers = [1] ∨ item.numbers = [4] ∨
        item.numbers = [5] ∨ item.numbers = [22] ∨ item.numbers = [24] ∨ item.numbers = [25] := by
      simpa [isStyle] using hstyle
    rw [writes] at hx
    rcases hnumbers with hn | hn | hn | hn | hn | hn | hn
    all_goals
      rw [hn] at hx
      first | exact (Option.some.inj hx).symm | cases hx
  · rw [foreground_writes hfg (by decide) (by decide)] at hx
    cases hx
  · rw [background_writes hbg (by decide) (by decide)] at hx
    cases hx

namespace VT100

variable {v : VT100}

/-- A run of items in any order leaves the foreground as the run without its background items
does, and the background as the run without its foreground items does, exactly when the
foreground is kept. The background never depends on the foreground; only the brightness of
the text can go wrong. -/
theorem colours_independent_iff (h : v.Wf) (hempty : v.terminal.pending = [])
    (hbold : v.terminal.bold = 0 ∨ v.terminal.bold = 1) (hrev : v.terminal.reversed = 0)
    {run : List SgrItem}
    (hrun : ∀ item ∈ run, item.isStyle ∨ item.isForeground ∨ item.isBackground) :
    ∃ v' vfg vbg, v.feedSgr F (run.map SgrItem.params) = .ok v' ∧
      v.feedSgr F ((run.filter fun item => !item.isBackground).map SgrItem.params) = .ok vfg ∧
      v.feedSgr F ((run.filter fun item => !item.isForeground).map SgrItem.params) = .ok vbg ∧
      ((vfg.terminal.foregroundColorCode = v'.terminal.foregroundColorCode ∧
          vbg.terminal.backgroundColorCode = v'.terminal.backgroundColorCode) ↔
        ForegroundKept v.terminal.attr run) := by
  obtain ⟨v', h', hattr⟩ := feedSgr_leaves (F := F) h hempty run
  obtain ⟨vfg, hfg, hattrFg⟩ :=
    feedSgr_leaves (F := F) h hempty (run.filter fun item => !item.isBackground)
  obtain ⟨vbg, hbg, hattrBg⟩ :=
    feedSgr_leaves (F := F) h hempty (run.filter fun item => !item.isForeground)
  refine ⟨v', vfg, vbg, h', hfg, hbg, ?_⟩
  have hsame : ∀ k, k ≠ .bg → k ≠ .highlight → vfg.terminal.attr k = v'.terminal.attr k := by
    intro k hkbg hkhl
    rw [hattr, hattrFg, leaves_filter fun item hitem => background_writes hitem hkbg hkhl]
  have hsame' : ∀ k, k ≠ .fg → k ≠ .highlight → vbg.terminal.attr k = v'.terminal.attr k := by
    intro k hkfg hkhl
    rw [hattr, hattrBg, leaves_filter fun item hitem => foreground_writes hitem hkfg hkhl]
  have hrev₀ : v'.terminal.reversed = 0 := (hattr .reversed).trans (leaves_reversed hrev hrun)
  have hflag : v'.terminal.attr .bold = 0 ∨ v'.terminal.attr .bold = 1 := by
    rw [hattr]
    exact leaves_flag (by decide) (by decide) hbold
  have hback : vbg.terminal.backgroundColorCode = v'.terminal.backgroundColorCode := by
    have hr : vbg.terminal.reversed = v'.terminal.reversed := hsame' .reversed (by decide) (by decide)
    have hb : vbg.terminal.bgColorcode = v'.terminal.bgColorcode := hsame' .bg (by decide) (by decide)
    rw [Terminal.backgroundColorCode, Terminal.backgroundColorCode, hr, hrev₀, hb]
    rfl
  have hrevFg : vfg.terminal.reversed = 0 := (hsame .reversed (by decide) (by decide)).trans hrev₀
  have hfore := Terminal.foreground_eq_iff (hsame .fg (by decide) (by decide))
    (hsame .bold (by decide) (by decide)) (hsame .under (by decide) (by decide))
    (hsame .blink (by decide) (by decide)) hrev₀ hrevFg hflag
  rw [hfore, and_iff_left hback, ForegroundKept, ← hattr, ← hattr, ← hattr, ← hattrFg]
  rfl

def brightRedItem : SgrItem :=
  .single [0x39, 0x31] (by simp) (by simp [isDigit])
    (by simp [sgrNumber, decimal, decimalFrom, cint])

def greenItem : SgrItem :=
  .single [0x33, 0x32] (by simp) (by simp [isDigit])
    (by simp [sgrNumber, decimal, decimalFrom, cint])

theorem brightRedItem_numbers : brightRedItem.numbers = [91] := by
  show [sgrNumber [0x39, 0x31]] = [91]
  simp [sgrNumber, decimal, decimalFrom, cint]

theorem greenItem_numbers : greenItem.numbers = [32] := by
  show [sgrNumber [0x33, 0x32]] = [32]
  simp [sgrNumber, decimal, decimalFrom, cint]

/-- `ESC [ 4 4 m` and then `ESC [ 3 2 m` on a new object. -/
theorem init_blue_green : ∃ v v' vfg vbg, VT100.init ⟨0, 0, 0⟩ = .ok v ∧
    v.feedSgr Foundation.latin1 ([blueItem, greenItem].map SgrItem.params) = .ok v' ∧
    v.feedSgr Foundation.latin1 (([blueItem, greenItem].filter fun item =>
      !item.isBackground).map SgrItem.params) = .ok vfg ∧
    v.feedSgr Foundation.latin1 (([blueItem, greenItem].filter fun item =>
      !item.isForeground).map SgrItem.params) = .ok vbg ∧
    vfg.terminal.foregroundColorCode = v'.terminal.foregroundColorCode ∧
    vbg.terminal.backgroundColorCode = v'.terminal.backgroundColorCode := by
  obtain ⟨v, hv, ht, -⟩ := init_fresh ⟨0, 0, 0⟩
  have hempty : v.terminal.pending = [] := by
    rw [ht]
    rfl
  have hbold : v.terminal.bold = 0 ∨ v.terminal.bold = 1 := by
    rw [ht]
    exact Or.inl rfl
  have hrev : v.terminal.reversed = 0 := by rw [ht]; rfl
  have hrun : ∀ item ∈ [blueItem, greenItem],
      item.isStyle ∨ item.isForeground ∨ item.isBackground := by
    simp [isForeground, isBackground, blueItem_numbers, greenItem_numbers]
  obtain ⟨v', vfg, vbg, h', hfg, hbg, hiff⟩ := colours_independent_iff (F := Foundation.latin1)
    (init_wf hv) hempty hbold hrev hrun
  refine ⟨v, v', vfg, vbg, hv, h', hfg, hbg, hiff.mpr (Or.inr (Or.inr ?_))⟩
  simp [leaves, lastWrite, isBackground, writes, blueItem_numbers, greenItem_numbers, sgrWrites,
    isColour256, attrWrites]

/-- `ESC [ 9 1 m` and then `ESC [ 4 4 m` on a new object: the text is dark, and without the
background it is bright. -/
theorem init_red_blue : ∃ v v' vfg, VT100.init ⟨0, 0, 0⟩ = .ok v ∧
    brightRedItem.isForeground = true ∧ blueItem.isBackground = true ∧
    v.feedSgr Foundation.latin1 ([brightRedItem, blueItem].map SgrItem.params) = .ok v' ∧
    v.feedSgr Foundation.latin1 (([brightRedItem, blueItem].filter fun item =>
      !item.isBackground).map SgrItem.params) = .ok vfg ∧
    v'.terminal.foregroundColorCode = 1 ∧ vfg.terminal.foregroundColorCode = 9 := by
  obtain ⟨v, hv, ht, -⟩ := init_fresh ⟨0, 0, 0⟩
  have hempty : v.terminal.pending = [] := by
    rw [ht]
    rfl
  obtain ⟨v', h', hattr⟩ :=
    feedSgr_leaves (F := Foundation.latin1) (init_wf hv) hempty [brightRedItem, blueItem]
  obtain ⟨vfg, hfg, hattrFg⟩ := feedSgr_leaves (F := Foundation.latin1) (init_wf hv) hempty
    ([brightRedItem, blueItem].filter fun item => !item.isBackground)
  have hred : brightRedItem.isBackground = false := by
    simp [isBackground, brightRedItem_numbers]
  have hblue : blueItem.isBackground = true := by
    simp [isBackground, blueItem_numbers]
  simp only [ht, leaves, lastWrite, writes, brightRedItem_numbers, blueItem_numbers] at hattr
  simp only [ht, leaves, List.filter_cons, List.filter_nil, hred, hblue, Bool.not_true,
    Bool.not_false, Bool.false_eq_true, if_true, if_false, lastWrite, writes,
    brightRedItem_numbers] at hattrFg
  refine ⟨v, v', vfg, hv, by simp [isForeground, brightRedItem_numbers], hblue, h', hfg, ?_, ?_⟩
  · rw [Terminal.foregroundColorCode_of_attr hattr]
    rfl
  · rw [Terminal.foregroundColorCode_of_attr hattrFg]
    rfl

end VT100

/-! ## Packed codes

A code has its number in the lower bits, the marker above them and the flags at
the top. Attributes are packed when each part is in its range, and then a code
is read back part by part. -/

/-- The fields fit into the parts of a colour code. -/
structure Packed (a : Attr → Int) : Prop where
  fg : 0 ≤ a .fg ∧ a .fg ≤ 255 ∨ a .fg = fgColorCodeDefault
  bg : 0 ≤ a .bg ∧ a .bg ≤ 255 ∨ a .bg = bgColorCodeDefault
  flag : ∀ k, k ≠ .fg → k ≠ .bg → a k = 0 ∨ a k = 1

namespace Terminal

variable {t t' : Terminal}

/-- The colour number or marker in the foreground code. -/
def codeBase (t : Terminal) : Int :=
  if t.reversed ≠ 0 then t.bgColorcode else t.shade t.fgColorcode

/-- The colour the foreground code selects. -/
def foregroundColour (t : Terminal) : UIColor := ColorMap.color (cuint t.foregroundColorCode).toNat

def backgroundColour (t : Terminal) : UIColor := ColorMap.color (cuint t.backgroundColorCode).toNat

theorem bold_flag (h : Packed t.attr) : t.bold = 0 ∨ t.bold = 1 :=
  h.flag .bold (by decide) (by decide)

theorem under_flag (h : Packed t.attr) : t.under = 0 ∨ t.under = 1 :=
  h.flag .under (by decide) (by decide)

theorem blink_flag (h : Packed t.attr) : t.blink = 0 ∨ t.blink = 1 :=
  h.flag .blink (by decide) (by decide)

theorem shade_cases (h : Packed t.attr) :
    0 ≤ t.shade t.fgColorcode ∧ t.shade t.fgColorcode ≤ 255 ∨
      (t.shade t.fgColorcode = 0x100 ∨ t.shade t.fgColorcode = 0x108) ∧
        t.fgColorcode = fgColorCodeDefault := by
  have hbold := bold_flag h
  have hbright : (if t.highlight ≠ 0 then 1 else t.bold) = 0 ∨
      (if t.highlight ≠ 0 then 1 else t.bold) = 1 := by
    split <;> omega
  have hdefault : fgColorCodeDefault = 256 := rfl
  rcases h.fg with hfg | hfg
  · have hfg : 0 ≤ t.fgColorcode ∧ t.fgColorcode ≤ 255 := hfg
    have hmod : t.fgColorcode.tmod 256 = t.fgColorcode := Int.tmod_eq_of_lt hfg.1 (by omega)
    rw [shade, hmod]
    split <;> omega
  · have hfg : t.fgColorcode = fgColorCodeDefault := hfg
    have hmod : t.fgColorcode.tmod 256 = 0 := by
      rw [hfg]
      rfl
    rw [shade, hmod, if_neg (by omega)]
    omega

theorem codeBase_cases (h : Packed t.attr) :
    0 ≤ t.codeBase ∧ t.codeBase ≤ 255 ∨ t.codeBase = 0x100 ∨ t.codeBase = 0x108 ∨
      t.codeBase = 0x101 := by
  have hdefault : bgColorCodeDefault = 257 := rfl
  unfold codeBase
  split
  · rcases h.bg with hbg | hbg
    · exact Or.inl hbg
    · have hbg : t.bgColorcode = bgColorCodeDefault := hbg
      omega
  · have := shade_cases h
    omega

theorem codeBase_range (h : Packed t.attr) : 0 ≤ t.codeBase ∧ t.codeBase < 512 := by
  have := codeBase_cases h
  omega

theorem flags_range (h : Packed t.attr) : (0 ≤ t.bold ∧ t.bold ≤ 1) ∧
    (0 ≤ t.under ∧ t.under ≤ 1) ∧ 0 ≤ t.blink ∧ t.blink ≤ 1 := by
  refine ⟨?_, ?_, ?_⟩
  · have := bold_flag h
    omega
  · have := under_flag h
    omega
  · have := blink_flag h
    omega

/-- Nothing carries from one part of the code to the next. -/
theorem foregroundColorCode_packed (h : Packed t.attr) :
    t.foregroundColorCode = t.codeBase + t.bold * 512 + t.under * 2048 + t.blink * 1024 := by
  have hcode : t.foregroundColorCode =
      cint (t.codeBase + (t.bold * 512 + t.under * 2048 + t.blink * 1024)) :=
    foregroundColorCode_eq t
  obtain ⟨hbold, hunder, hblink⟩ := flags_range h
  have hbase := codeBase_range h
  rw [hcode, cint_of_isInt ⟨by omega, by omega⟩]
  omega

theorem foregroundColour_packed (h : Packed t.attr) :
    t.foregroundColour = ColorMap.color (t.codeBase.toNat + t.bold.toNat * 512 +
      (t.under.toNat * 2048 + t.blink.toNat * 1024)) := by
  obtain ⟨hbold, hunder, hblink⟩ := flags_range h
  have hbase := codeBase_range h
  rw [foregroundColour, foregroundColorCode_packed h, cuint, Int.emod_eq_of_lt (by omega) (by omega)]
  congr 1
  omega

theorem foregroundColour_default (h : Packed t.attr) (hrev : t.reversed ≠ 0)
    (hbg : t.bgColorcode = bgColorCodeDefault) :
    t.foregroundColour = if t.under = 0 ∧ t.blink = 0 then .background
      else if t.bold = 1 then .foregroundBold else .foreground := by
  have hbold := bold_flag h
  have hunder := under_flag h
  have hblink := blink_flag h
  have hbase : t.codeBase.toNat = ColorMap.bgColorCode := by
    rw [codeBase, if_pos hrev, hbg]
    rfl
  have hflags : t.under.toNat * 2048 + t.blink.toNat * 1024 = 0 ↔ t.under = 0 ∧ t.blink = 0 := by
    omega
  have hb : t.bold.toNat = 1 ↔ t.bold = 1 := by omega
  rw [foregroundColour_packed h, hbase, ColorMap.color_background (by omega) (by omega)]
  simp only [hflags, hb]

/-- All other text has the colour it has without underline and blink. -/
theorem foregroundColour_other (h : Packed t.attr) (hnot : t.codeBase ≠ bgColorCodeDefault) :
    t.foregroundColour = if t.codeBase ≤ 255 then ColorMap.palette t.codeBase.toNat
      else if t.bold = 1 then .foregroundBold else .foreground := by
  have hbold := bold_flag h
  have hunder := under_flag h
  have hblink := blink_flag h
  have hdefault : bgColorCodeDefault = 257 := rfl
  have hb : t.bold.toNat = 1 ↔ t.bold = 1 := by omega
  rw [foregroundColour_packed h]
  rcases codeBase_cases h with hbase | hbase
  · rw [if_pos hbase.2, Nat.add_assoc, ColorMap.color_number (by omega) (by omega)]
  · rw [if_neg (by omega), ColorMap.color_foreground (by omega) (by omega) (by omega)]
    simp only [hb]

end Terminal

/-- The index of a 256-colour item, if the numbers are one, fits into a code. The marker of
the colour's own default does too. -/
def ColourFits (ns : List Int) : Prop :=
  ∀ c, (ns = [38, 5, c] → c ≤ 255 ∨ c = fgColorCodeDefault) ∧
    (ns = [48, 5, c] → c ≤ 255 ∨ c = bgColorCodeDefault)

namespace Packed

variable {a : Attr → Int}

theorem attrOff : Packed attrOff :=
  ⟨Or.inr rfl, Or.inr rfl, fun k hfg hbg => by cases k <;> first | contradiction | exact Or.inl rfl⟩

theorem number (h : Packed a) (n : Int) : Packed (overwrite (attrWrites n) a) := by
  refine ⟨?_, ?_, fun k hfg hbg => ?_⟩
  · have hfg := h.fg
    simp only [overwrite, attrWrites]
    split
    · exact Or.inr rfl
    · split
      · simp only [Option.getD_some]
        omega
      · split
        · simp only [Option.getD_some]
          omega
        · exact hfg
  · have hbg := h.bg
    simp only [overwrite, attrWrites]
    split
    · exact Or.inr rfl
    · split
      · simp only [Option.getD_some]
        omega
      · split
        · simp only [Option.getD_some]
          omega
        · exact hbg
  · have hflag := h.flag k hfg hbg
    cases k <;> simp only [overwrite, attrWrites] <;> first | contradiction | skip
    all_goals
      split
      · exact Or.inl rfl
      · split
        · exact Or.inr rfl
        · exact hflag

theorem numbers (h : Packed a) (ns : List Int) : Packed (overwriteAll attrWrites ns a) := by
  induction ns generalizing a with
  | nil => exact h
  | cons n ns ih => exact ih (h.number n)

theorem sequence (h : Packed a) {ns : List Int} (hns : ∀ n ∈ ns, 0 ≤ n) (hfits : ColourFits ns) :
    Packed (overwrite (sgrWrites ns) a) := by
  by_cases hnil : ns = []
  · subst hnil
    exact Packed.attrOff
  · by_cases hcolour : isColour256 ns = true
    · obtain ⟨k, c, rfl, hk⟩ := isColour256_iff.mp hcolour
      have hc : 0 ≤ c := hns c (by simp)
      have hflag : ∀ j, j ≠ .fg → j ≠ .bg → overwrite (colourWrites k c) a j = a j := by
        intro j hfg hbg
        cases j <;> first | contradiction | rfl
      rw [sgrWrites, if_neg hnil, if_pos hcolour]
      rcases hk with rfl | rfl
      · have hrange : 0 ≤ c ∧ c ≤ 255 ∨ c = fgColorCodeDefault := by
          have := (hfits c).1 rfl
          omega
        exact ⟨hrange, h.bg, fun j hfg hbg => (hflag j hfg hbg).symm ▸ h.flag j hfg hbg⟩
      · have hrange : 0 ≤ c ∧ c ≤ 255 ∨ c = bgColorCodeDefault := by
          have := (hfits c).2 rfl
          omega
        exact ⟨h.fg, hrange, fun j hfg hbg => (hflag j hfg hbg).symm ▸ h.flag j hfg hbg⟩
    · have hwrites : overwrite (sgrWrites ns) a = overwriteAll attrWrites ns a := by
        funext k
        rw [sgrWrites, if_neg hnil, if_neg hcolour, overwriteAll_apply]
        rfl
      rw [hwrites]
      exact h.numbers ns

end Packed

theorem sgrNumber_nonneg (p : List UInt8) : 0 ≤ sgrNumber p := by
  unfold sgrNumber
  omega

/-- A run of items whose indices are in range. -/
theorem leaves_packed {a : Attr → Int} (h : Packed a) {run : List SgrItem}
    (hrange : ∀ item ∈ run, item.InRange) : Packed (leaves a run) := by
  have hleaves : leaves a run = overwriteAll SgrItem.writes run a := by
    funext k
    rw [overwriteAll_apply]
    rfl
  rw [hleaves]
  clear hleaves
  induction run generalizing a with
  | nil => exact h
  | cons item run ih =>
      refine ih (h.sequence ?_ ?_) fun item' hmem => hrange item' (List.mem_cons_of_mem _ hmem)
      · intro n hn
        obtain ⟨p, -, rfl⟩ := List.mem_map.mp hn
        exact sgrNumber_nonneg p
      · intro c
        have hc := hrange item (List.mem_cons_self ..)
        exact ⟨fun hns => Or.inl (hc 38 c hns), fun hns => Or.inl (hc 48 c hns)⟩

/-! ## Underline and blink -/

/-- Underline or blink is on at the end. -/
def Decorated (a : Attr → Int) (run : List SgrItem) : Prop :=
  leaves a run .under ≠ 0 ∨ leaves a run .blink ≠ 0

/-- Where underline and blink do not change the colours: unless the text ends up reversed on
the default background, and then only if without these items it is decorated as well, or
not at all with them. -/
def DecorationHarmless (a : Attr → Int) (run : List SgrItem) : Prop :=
  leaves a run .reversed ≠ 0 → leaves a run .bg = bgColorCodeDefault →
    (Decorated a (run.filter fun item => !item.isDecoration) ↔ Decorated a run)

namespace Terminal

variable {t t' : Terminal}

/-- Two terminals that differ in underline and blink only. -/
theorem colours_eq_iff (h : Packed t.attr) (h' : Packed t'.attr)
    (hsame : ∀ k, k ≠ .under → k ≠ .blink → t'.attr k = t.attr k) :
    (t'.foregroundColour = t.foregroundColour ∧ t'.backgroundColour = t.backgroundColour) ↔
      (t.reversed ≠ 0 → t.bgColorcode = bgColorCodeDefault →
        ((t'.under ≠ 0 ∨ t'.blink ≠ 0) ↔ (t.under ≠ 0 ∨ t.blink ≠ 0))) := by
  have hfg : t'.fgColorcode = t.fgColorcode := hsame .fg (by decide) (by decide)
  have hbg : t'.bgColorcode = t.bgColorcode := hsame .bg (by decide) (by decide)
  have hbold : t'.bold = t.bold := hsame .bold (by decide) (by decide)
  have hrev : t'.reversed = t.reversed := hsame .reversed (by decide) (by decide)
  have hhl : t'.highlight = t.highlight := hsame .highlight (by decide) (by decide)
  have hback : t'.backgroundColour = t.backgroundColour := by
    rw [backgroundColour, backgroundColour, Terminal.backgroundColorCode,
      Terminal.backgroundColorCode, hrev, hfg, hbg]
  rw [and_iff_left hback]
  by_cases hdefault : t.reversed ≠ 0 ∧ t.bgColorcode = bgColorCodeDefault
  · obtain ⟨hr, hd⟩ := hdefault
    rw [foregroundColour_default h hr hd,
      foregroundColour_default h' (hrev ▸ hr) (hbg.trans hd), hbold]
    have hother : (if t.bold = 1 then UIColor.foregroundBold else .foreground) ≠ .background := by
      split
      · simp
      · simp
    generalize (if t.bold = 1 then UIColor.foregroundBold else .foreground) = colour at hother
    simp only [hr, hd, ne_eq, not_false_eq_true, true_implies, ← not_and_or, not_iff_not]
    by_cases hdec : t.under = 0 ∧ t.blink = 0
    · by_cases hdec' : t'.under = 0 ∧ t'.blink = 0
      · rw [if_pos hdec, if_pos hdec']
        exact iff_of_true rfl (iff_of_true hdec' hdec)
      · rw [if_pos hdec, if_neg hdec']
        exact iff_of_false hother fun hiff => hdec' (hiff.mpr hdec)
    · by_cases hdec' : t'.under = 0 ∧ t'.blink = 0
      · rw [if_neg hdec, if_pos hdec']
        exact iff_of_false hother.symm fun hiff => hdec (hiff.mp hdec')
      · rw [if_neg hdec, if_neg hdec']
        exact iff_of_true rfl (iff_of_false hdec' hdec)
  · have hbase : t'.codeBase = t.codeBase := by
      rw [codeBase, codeBase, hrev, hbg, shade, shade, hfg, hhl, hbold]
    have hnot : t.codeBase ≠ bgColorCodeDefault := by
      have hmarker : bgColorCodeDefault = 257 := rfl
      unfold codeBase
      split
      · rename_i hr
        exact fun hd => hdefault ⟨hr, hd⟩
      · have := shade_cases h
        omega
    rw [foregroundColour_other h hnot, foregroundColour_other h' (hbase ▸ hnot), hbase, hbold]
    exact iff_of_true rfl fun hr hd => absurd ⟨hr, hd⟩ hdefault

end Terminal

namespace VT100

variable {v : VT100}

/-- Leaving the items for underline and blink out of a run leaves the colours that are drawn
as they are exactly when decoration is harmless. The colours are those that `color:`
selects for the codes, and the run may start from any packed attributes. -/
theorem decoration_iff (h : v.Wf) (hempty : v.terminal.pending = [])
    (hstart : Packed v.terminal.attr) {run : List SgrItem}
    (hrange : ∀ item ∈ run, item.InRange) :
    ∃ v' w, v.feedSgr F (run.map SgrItem.params) = .ok v' ∧
      v.feedSgr F ((run.filter fun item => !item.isDecoration).map SgrItem.params) = .ok w ∧
      ((w.terminal.foregroundColour = v'.terminal.foregroundColour ∧
          w.terminal.backgroundColour = v'.terminal.backgroundColour) ↔
        DecorationHarmless v.terminal.attr run) := by
  obtain ⟨v', h', hattr⟩ := feedSgr_leaves (F := F) h hempty run
  obtain ⟨w, hw, hattrW⟩ :=
    feedSgr_leaves (F := F) h hempty (run.filter fun item => !item.isDecoration)
  refine ⟨v', w, h', hw, ?_⟩
  have hpacked : Packed v'.terminal.attr := by
    rw [funext hattr]
    exact leaves_packed hstart hrange
  have hpackedW : Packed w.terminal.attr := by
    rw [funext hattrW]
    exact leaves_packed hstart fun item hmem => hrange item (List.mem_of_mem_filter hmem)
  have hsame : ∀ k, k ≠ .under → k ≠ .blink → w.terminal.attr k = v'.terminal.attr k := by
    intro k hunder hblink
    rw [hattr, hattrW, leaves_filter fun item hitem => decoration_writes hitem hunder hblink]
  rw [Terminal.colours_eq_iff hpacked hpackedW hsame, DecorationHarmless, Decorated, Decorated,
    ← hattr, ← hattr, ← hattr, ← hattr, ← hattrW, ← hattrW]
  rfl

def underlineItem : SgrItem :=
  .single [0x34] (by simp) (by simp [isDigit]) (by simp [sgrNumber, decimal, decimalFrom, cint])

def reverseItem : SgrItem :=
  .single [0x37] (by simp) (by simp [isDigit]) (by simp [sgrNumber, decimal, decimalFrom, cint])

theorem underlineItem_numbers : underlineItem.numbers = [4] := by
  show [sgrNumber [0x34]] = [4]
  simp [sgrNumber, decimal, decimalFrom, cint]

theorem reverseItem_numbers : reverseItem.numbers = [7] := by
  show [sgrNumber [0x37]] = [7]
  simp [sgrNumber, decimal, decimalFrom, cint]

theorem init_packed (ht : v.terminal = { Terminal.init with encoding := nsUtf8StringEncoding }) :
    Packed v.terminal.attr := by
  have hattr : v.terminal.attr = attrOff := by
    rw [ht]
    funext k
    cases k <;> rfl
  rw [hattr]
  exact Packed.attrOff

/-- `ESC [ 4 m` and then `ESC [ 3 2 m` on a new object. -/
theorem init_underline_green : ∃ v v' w, VT100.init ⟨0, 0, 0⟩ = .ok v ∧
    v.feedSgr Foundation.latin1 ([underlineItem, greenItem].map SgrItem.params) = .ok v' ∧
    v.feedSgr Foundation.latin1 (([underlineItem, greenItem].filter fun item =>
      !item.isDecoration).map SgrItem.params) = .ok w ∧
    w.terminal.foregroundColour = v'.terminal.foregroundColour ∧
    w.terminal.backgroundColour = v'.terminal.backgroundColour := by
  obtain ⟨v, hv, ht, -⟩ := init_fresh ⟨0, 0, 0⟩
  have hempty : v.terminal.pending = [] := by
    rw [ht]
    rfl
  have hrange : ∀ item ∈ [underlineItem, greenItem], item.InRange := by
    simp [InRange, underlineItem_numbers, greenItem_numbers]
  obtain ⟨v', w, h', hw, hiff⟩ := decoration_iff (F := Foundation.latin1) (init_wf hv) hempty
    (init_packed ht) hrange
  refine ⟨v, v', w, hv, h', hw, hiff.mpr fun hrev => absurd ?_ hrev⟩
  simp only [ht, leaves, lastWrite, writes, underlineItem_numbers, greenItem_numbers]
  rfl

/-- `ESC [ 7 m` and then `ESC [ 4 m` on a new object: without the underline the text has the
background's colour on the foreground's, with it the foreground's on the foreground's. -/
theorem init_reverse_underline : ∃ v v' w, VT100.init ⟨0, 0, 0⟩ = .ok v ∧
    v.feedSgr Foundation.latin1 ([reverseItem, underlineItem].map SgrItem.params) = .ok v' ∧
    v.feedSgr Foundation.latin1 (([reverseItem, underlineItem].filter fun item =>
      !item.isDecoration).map SgrItem.params) = .ok w ∧
    w.terminal.foregroundColour = .background ∧ v'.terminal.foregroundColour = .foreground ∧
    v'.terminal.backgroundColour = .foreground := by
  obtain ⟨v, hv, ht, -⟩ := init_fresh ⟨0, 0, 0⟩
  have hempty : v.terminal.pending = [] := by
    rw [ht]
    rfl
  obtain ⟨v', h', hattr⟩ :=
    feedSgr_leaves (F := Foundation.latin1) (init_wf hv) hempty [reverseItem, underlineItem]
  obtain ⟨w, hw, hattrW⟩ := feedSgr_leaves (F := Foundation.latin1) (init_wf hv) hempty
    ([reverseItem, underlineItem].filter fun item => !item.isDecoration)
  have hreverse : reverseItem.isDecoration = false := by
    simp [isDecoration, reverseItem_numbers]
  have hunderline : underlineItem.isDecoration = true := by
    simp [isDecoration, underlineItem_numbers]
  simp only [ht, leaves, lastWrite, writes, reverseItem_numbers, underlineItem_numbers] at hattr
  simp only [ht, leaves, List.filter_cons, List.filter_nil, hreverse, hunderline, Bool.not_true,
    Bool.not_false, Bool.false_eq_true, if_true, if_false, lastWrite, writes,
    reverseItem_numbers] at hattrW
  refine ⟨v, v', w, hv, h', hw, ?_, ?_, ?_⟩
  · rw [Terminal.foregroundColour, Terminal.foregroundColorCode_of_attr hattrW]
    decide
  · rw [Terminal.foregroundColour, Terminal.foregroundColorCode_of_attr hattr]
    decide
  · have hrev : v'.terminal.reversed = 1 := hattr .reversed
    have hfg : v'.terminal.fgColorcode = fgColorCodeDefault := hattr .fg
    rw [Terminal.backgroundColour, Terminal.backgroundColorCode, hrev, hfg, if_pos (by decide)]
    decide

end VT100

/-! ## Any SGR sequences -/

namespace VT100

variable {v : VT100}

/-- Once a sequence with more than 16 parameters has arrived, nothing is executed any more. -/
theorem readInputStream_stuck (h : v.Wf) {params : List (List UInt8)} (hp : IsParams params)
    (hlen : 16 < params.length) {rest data : List UInt8}
    (hpending : v.terminal.pending ++ data = csiSequence [] params sgrByte ++ rest) :
    ∃ v', v.readInputStream F data = .ok v' ∧ v'.Wf ∧
      v'.terminal.pending = csiSequence [] params sgrByte ++ rest ∧
      v'.terminal.attr = v.terminal.attr ∧ v.screen.SameDefault v'.screen := by
  obtain ⟨t, hread, hwf, hmodes, hp'⟩ := readInputStream_eq (F := F) h data
  rw [hpending] at hp'
  have hfinal : isFinal sgrByte = true := rfl
  have hnext : getNextToken F { v with terminal := t } =
      .ok ({ type := .wait }, { v with terminal := t }) :=
    getNextToken_many (Or.inl rfl) hp hfinal hlen hp'
  obtain ⟨s', hrefresh, hd, -⟩ := Screen.refresh_spec h.screen
  have hconsume : consume F { v with terminal := t } = .ok { terminal := t, screen := s' } := by
    rw [consume, tokenLoop, hnext, ok_bind]
    simp only [VT100TCC.stops, VT100.refresh, hrefresh, ok_bind]
    rfl
  exact ⟨_, hread.trans hconsume, ⟨hwf, hd.wf h.screen⟩, hp', hmodes.attr_eq,
    Screen.refresh_sameDefault hrefresh⟩

end VT100

theorem sgrNumbers_nonneg (params : List (List UInt8)) : ∀ n ∈ sgrNumbers params, 0 ≤ n := by
  intro n hn
  obtain ⟨p, -, rfl⟩ := List.mem_map.mp hn
  exact sgrNumber_nonneg p

/-- A run keeps the codes packed as long as its 256-colour items fit. -/
theorem Packed.run {a : Attr → Int} (h : Packed a) {run : List (List (List UInt8))}
    (hfits : ∀ params ∈ run, ColourFits (sgrNumbers params)) :
    Packed (overwriteAll (fun params => sgrWrites (sgrNumbers params)) run a) := by
  induction run generalizing a with
  | nil => exact h
  | cons params run ih =>
      have hstep := h.sequence (sgrNumbers_nonneg params) (hfits params (List.mem_cons_self ..))
      exact ih hstep fun params' hmem => hfits params' (List.mem_cons_of_mem _ hmem)

namespace VT100

variable {v : VT100}

end VT100

end MobileTerminal
