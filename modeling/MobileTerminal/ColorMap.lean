import MobileTerminal.Types
import Mathlib.Data.Nat.Bitwise

/-!
# The colours a code selects

`color:` of `ColorMap.m` takes a colour code apart again. Codes with a marker
select a default colour, the cursor's colours have codes of their own, and all
others select an entry of the table or a colour of the cube by their number.

A `UIColor` is kept by where it comes from: an entry of the table, one of the
five named colours, or a colour that is made from its components, which are
given in parts of 256. Two codes give the same colour here only if the source
makes it from the same values; that the user may have given two named colours
the same value is left out.

The tests of `color:` are tests of bits. The lemmas restate them as comparisons
of numbers, which is how the modules on the codes use them. The flags never
change which number a code without a marker selects (`color_number`), but any of
them except bold hides the marker of the default background
(`color_background`).
-/

namespace MobileTerminal

inductive UIColor where
  | table (i : Nat)
  | components (red green blue : Nat)
  | background
  | foreground
  | foregroundBold
  | foregroundCursor
  | backgroundCursor
deriving DecidableEq

namespace ColorMap

def bgColorCode : Nat := 0x101
def cursorText : Nat := 0x103
def cursorBg : Nat := 0x104
def colorCodeMask : Nat := 0x100
def boldBit : Nat := 0x200

/-- One component of a colour of the cube. -/
def component (level : Nat) : Nat := if level ≠ 0 then level * 40 + 55 else 0

/-- The second half of `color:`, for a number below 256. -/
def palette (index : Nat) : UIColor :=
  if index < 16 then .table index
  else if index < 232 then
    let index := index - 16
    .components (component (index / 36)) (component (index % 36 / 6)) (component (index % 6))
  else .foreground

def color (index : Nat) : UIColor :=
  if index &&& colorCodeMask ≠ 0 then
    if index = cursorText then .foregroundCursor
    else if index = cursorBg then .backgroundCursor
    else if index = bgColorCode then .background
    else if index &&& boldBit ≠ 0 then
      if index - boldBit = bgColorCode then .background else .foregroundBold
    else .foreground
  else palette (index &&& 0xff)

/-! ## Reading the bits -/

theorem and_bit_ne_zero (n i : Nat) : n &&& 2 ^ i ≠ 0 ↔ n / 2 ^ i % 2 = 1 := by
  rw [Nat.and_two_pow, Nat.testBit_eq_decide_div_mod_eq]
  by_cases hbit : n / 2 ^ i % 2 = 1
  · simp [hbit]
  · simp [hbit]

theorem marker_iff (n : Nat) : n &&& colorCodeMask ≠ 0 ↔ n / 256 % 2 = 1 := and_bit_ne_zero n 8

theorem bold_iff (n : Nat) : n &&& boldBit ≠ 0 ↔ n / 512 % 2 = 1 := and_bit_ne_zero n 9

/-- A code without a marker selects its colour number, whatever its flags are. -/
theorem color_number {c flags : Nat} (hc : c < 256) (hflags : flags % 512 = 0) :
    color (c + flags) = palette c := by
  have hmarker : ¬(c + flags) &&& colorCodeMask ≠ 0 := by
    rw [marker_iff]
    omega
  have hlow : (c + flags) &&& 0xff = c := by
    rw [show (0xff : Nat) = 2 ^ 8 - 1 from rfl, Nat.and_two_pow_sub_one_eq_mod]
    omega
  rw [color, if_neg hmarker, hlow]

/-- A code with a marker that is none of the three special codes selects by its bold flag. -/
theorem color_marker {n : Nat} (hmarker : n / 256 % 2 = 1) (htext : n ≠ cursorText)
    (hcursor : n ≠ cursorBg) (hbg : n ≠ bgColorCode) :
    color n = if n / 512 % 2 = 1 then
        if n = boldBit + bgColorCode then .background else .foregroundBold
      else .foreground := by
  unfold color
  rw [if_pos ((marker_iff n).mpr hmarker), if_neg htext, if_neg hcursor, if_neg hbg]
  by_cases hbold : n / 512 % 2 = 1
  · rw [if_pos ((bold_iff n).mpr hbold), if_pos hbold]
    have hsub : n - boldBit = bgColorCode ↔ n = boldBit + bgColorCode := by
      unfold boldBit bgColorCode
      omega
    simp only [hsub]
  · rw [if_neg (mt (bold_iff n).mp hbold), if_neg hbold]

/-- The marker of the default foreground, bright or not. -/
theorem color_foreground {c bold flags : Nat} (hc : c = 0x100 ∨ c = 0x108) (hbold : bold ≤ 1)
    (hflags : flags % 1024 = 0) :
    color (c + bold * 512 + flags) = if bold = 1 then .foregroundBold else .foreground := by
  have hbit : (c + bold * 512 + flags) / 512 % 2 = 1 ↔ bold = 1 := by omega
  have hother : ¬c + bold * 512 + flags = boldBit + bgColorCode := by
    unfold boldBit bgColorCode
    omega
  rw [color_marker (by omega) (by unfold cursorText; omega) (by unfold cursorBg; omega)
    (by unfold bgColorCode; omega)]
  simp only [hbit, if_neg hother]

/-- The marker of the default background is recognised with the bold flag and with no other. -/
theorem color_background {bold flags : Nat} (hbold : bold ≤ 1) (hflags : flags % 1024 = 0) :
    color (bgColorCode + bold * 512 + flags) =
      if flags = 0 then .background else if bold = 1 then .foregroundBold else .foreground := by
  by_cases hplain : bold = 0 ∧ flags = 0
  · obtain ⟨rfl, rfl⟩ := hplain
    rfl
  · have hbg : bgColorCode = 257 := rfl
    have hbit : (bgColorCode + bold * 512 + flags) / 512 % 2 = 1 ↔ bold = 1 := by omega
    rw [color_marker (by omega) (by unfold cursorText; omega) (by unfold cursorBg; omega)
      (by omega)]
    simp only [hbit, boldBit]
    by_cases h1 : bold = 1
    · have hflag : bgColorCode + bold * 512 + flags = 512 + bgColorCode ↔ flags = 0 := by omega
      simp only [if_pos h1, hflag]
    · rw [if_neg h1, if_neg (by omega), if_neg h1]

end ColorMap

end MobileTerminal
