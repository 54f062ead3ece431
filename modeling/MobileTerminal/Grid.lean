import Mathlib.Tactic.Linarith
import Mathlib.Tactic.Ring
import MobileTerminal.Block

/-!
# Lines of a block, and lines in a ring

A block that holds lines of `rw` cells: the cell in column `x` of line `l` has
address `l * rw + x`. The first part is the arithmetic of such addresses and
what the block operations do to lines: a `memmove` of whole lines, of one line
and of part of a line, each read in the coordinates of its lines, so that no
later proof multiplies.

The second part counts lines in a ring of `T` lines. `wrapLine` is the
wrap-around by one comparison and one subtraction, as the source writes it; it
is the remainder as long as less than two rounds are counted
(`wrapLine_eq_emod`), and within one round it is injective (`wrapLine_inj`). A
program that forgets a subtraction, or makes it twice, leaves this range, and
the lemmas no longer apply.

The two parts meet where a line of a ring is addressed: the cells of counted
line `k` begin at `wrapLine T k * rw`.
-/

namespace MobileTerminal

/-! ## Addresses -/

section

variable {rw l m x y : Int}

theorem le_addr_iff (hx : 0 ≤ x) (hx' : x < rw) : m * rw ≤ l * rw + x ↔ m ≤ l := by
  constructor
  · intro h
    by_contra hlt
    have : (l + 1) * rw ≤ m * rw := Int.mul_le_mul_of_nonneg_right (by omega) (by omega)
    linarith [Int.add_mul l 1 rw]
  · intro h
    have : m * rw ≤ l * rw := Int.mul_le_mul_of_nonneg_right h (by omega)
    omega

theorem addr_lt_iff (hx : 0 ≤ x) (hx' : x < rw) : l * rw + x < m * rw ↔ l < m := by
  rw [← not_le, le_addr_iff hx hx', not_le]

theorem line_le_iff (hrw : 0 < rw) : m * rw ≤ l * rw ↔ m ≤ l := by
  simpa using le_addr_iff (l := l) (m := m) (Int.le_refl 0) hrw

theorem line_lt_iff (hrw : 0 < rw) : m * rw < l * rw ↔ m < l := by
  rw [← not_le, line_le_iff hrw, not_le]

theorem line_inj (hrw : 0 < rw) : m * rw = l * rw ↔ m = l :=
  ⟨fun h => le_antisymm ((line_le_iff hrw).mp h.le) ((line_le_iff hrw).mp h.ge), fun h => h ▸ rfl⟩

theorem addr_inj (hx : 0 ≤ x) (hx' : x < rw) (hy : 0 ≤ y) (hy' : y < rw) :
    l * rw + x = m * rw + y ↔ l = m ∧ x = y := by
  constructor
  · intro h
    have h1 : l ≤ m := (le_addr_iff hy hy').mp (by omega)
    have h2 : m ≤ l := (le_addr_iff hx hx').mp (by omega)
    obtain rfl : l = m := le_antisymm h1 h2
    exact ⟨rfl, by omega⟩
  · rintro ⟨rfl, rfl⟩
    rfl

theorem addr_nonneg (hl : 0 ≤ l) (hx : 0 ≤ x) (hx' : x < rw) : 0 ≤ l * rw + x := by
  have := (le_addr_iff (l := l) (m := 0) hx hx').mpr hl
  simpa using this

theorem addr_nonneg_line (hl : 0 ≤ l) (hrw : 0 < rw) : 0 ≤ l * rw :=
  Int.mul_nonneg hl hrw.le

end

namespace Block

variable {α : Type} {rw l m x y : Int}

theorem set_addr_cell (b : Block α) (v : α) (hx : 0 ≤ x) (hx' : x < rw) (hy : 0 ≤ y)
    (hy' : y < rw) :
    (b.set (m * rw + y) v).cell (l * rw + x) =
      if l = m ∧ x = y then v else b.cell (l * rw + x) := by
  simp only [set, addr_inj hx hx' hy hy']

theorem paste_lines_cell (dst src : Block α) {d s n : Int} (hx : 0 ≤ x) (hx' : x < rw) :
    (dst.paste (d * rw) src (s * rw) (n * rw)).cell (l * rw + x) =
      if d ≤ l ∧ l < d + n then src.cell ((s + (l - d)) * rw + x) else dst.cell (l * rw + x) := by
  have h1 := le_addr_iff (l := l) (m := d) hx hx'
  have h2 := addr_lt_iff (l := l) (m := d + n) hx hx'
  have h3 : s * rw + (l * rw + x - d * rw) = (s + (l - d)) * rw + x := by
    rw [Int.add_mul, Int.sub_mul]
    omega
  simp only [paste, ← Int.add_mul, h1, h2, h3]

theorem paste_line_cell (dst src : Block α) {d s : Int} (hx : 0 ≤ x) (hx' : x < rw) :
    (dst.paste (d * rw) src s rw).cell (l * rw + x) =
      if l = d then src.cell (s + x) else dst.cell (l * rw + x) := by
  have h1 := le_addr_iff (l := l) (m := d) hx hx'
  have h2 := addr_lt_iff (l := l) (m := d + 1) hx hx'
  rw [Int.add_mul, Int.one_mul] at h2
  simp only [paste, h1, h2]
  by_cases h : l = d
  · subst h
    rw [if_pos (by omega), if_pos rfl]
    congr 1
    omega
  · rw [if_neg (by omega), if_neg h]

/-- Pasting part of a line, from column `y` on. -/
theorem paste_part_cell (dst src : Block α) {d s n : Int} (hx : 0 ≤ x) (hx' : x < rw)
    (hy : 0 ≤ y) (hyn : y + n ≤ rw) :
    (dst.paste (d * rw + y) src s n).cell (l * rw + x) =
      if l = d ∧ y ≤ x ∧ x < y + n then src.cell (s + (x - y)) else dst.cell (l * rw + x) := by
  simp only [paste]
  by_cases h : l = d
  · subst h
    by_cases h' : y ≤ x ∧ x < y + n
    · rw [if_pos (by omega), if_pos (by omega)]
      congr 1
      omega
    · rw [if_neg (by omega), if_neg (by omega)]
  · rw [if_neg, if_neg (by omega)]
    intro ⟨h1, h2⟩
    have h3 : d ≤ l := (le_addr_iff hx hx').mp (by omega)
    have h4 : l < d + 1 := by
      apply (addr_lt_iff hx hx').mp
      rw [Int.add_mul]
      omega
    omega

/-! ## Lines as lists -/

/-- The `n` cells of line `l`. -/
def line (b : Block α) (n : Nat) (l : Int) : List α := b.slice (l * n) n

@[simp] theorem line_length (b : Block α) (n : Nat) (l : Int) : (b.line n l).length = n :=
  slice_length b _ n

theorem line_getElem (b : Block α) (n : Nat) (l : Int) {i : Nat} (h : i < (b.line n l).length) :
    (b.line n l)[i] = b.cell (l * n + i) :=
  slice_getElem b _ n i h

theorem line_congr {b b' : Block α} {n : Nat} {l : Int}
    (h : ∀ i : Nat, i < n → b.cell (l * n + i) = b'.cell (l * n + i)) :
    b.line n l = b'.line n l := slice_congr h

theorem line_set_self (b : Block α) (v : α) {n i : Nat} (hi : i < n) (l : Int) :
    (b.set (l * n + i) v).line n l = (b.line n l).set i v := by
  apply List.ext_getElem
  · simp
  · intro j h1 h2
    have hj : j < n := by simpa using h1
    rw [line_getElem, List.getElem_set, set_addr_cell b v (by omega) (by omega) (by omega)
      (by omega)]
    by_cases hij : i = j
    · rw [if_pos ⟨rfl, by omega⟩, if_pos hij]
    · rw [if_neg (by omega), if_neg hij, line_getElem]

theorem line_set_ne (b : Block α) (v : α) {n i : Nat} (hi : i < n) {l m : Int} (h : l ≠ m) :
    (b.set (m * n + i) v).line n l = b.line n l := by
  apply line_congr
  intro j hj
  rw [set_addr_cell b v (by omega) (by omega) (by omega) (by omega), if_neg (by omega)]

/-- Pasting `k` cells into a line, from column `i` on. -/
theorem line_paste_self (b src : Block α) {n i k : Nat} (hik : i + k ≤ n) (a l : Int) :
    (b.paste (l * n + i) src a k).line n l =
      (b.line n l).take i ++ src.slice a k ++ (b.line n l).drop (i + k) := by
  apply List.ext_getElem
  · simp only [line_length, List.length_append, List.length_take, slice_length,
      List.length_drop]
    omega
  · intro j h1 h2
    have hj : j < n := by simpa using h1
    rw [line_getElem, paste_part_cell b src (by omega) (by omega) (by omega) (by omega)]
    have htake : ((b.line n l).take i).length = i := by
      rw [List.length_take, line_length]
      omega
    by_cases hin : i ≤ j ∧ j < i + k
    · rw [if_pos ⟨rfl, by omega⟩, List.getElem_append_left (by simp; omega),
        List.getElem_append_right (by omega), slice_getElem]
      congr 1
      omega
    · rw [if_neg (by omega)]
      by_cases hlt : j < i
      · rw [List.getElem_append_left (by simp; omega), List.getElem_append_left (by omega),
          List.getElem_take, line_getElem]
      · rw [List.getElem_append_right (by simp; omega), List.getElem_drop, line_getElem]
        congr 1
        simp only [List.length_append, htake, slice_length]
        omega

theorem line_paste_ne (b src : Block α) {n i k : Nat} (hik : i + k ≤ n) (a : Int) {l m : Int}
    (h : l ≠ m) : (b.paste (m * n + i) src a k).line n l = b.line n l := by
  apply line_congr
  intro j hj
  rw [paste_part_cell b src (by omega) (by omega) (by omega) (by omega), if_neg (by omega)]

end Block

/-! ## Rings -/

/-- Line `k` of a ring of `T` lines, for `k < 2 * T`: the wrap-around by one comparison and
one subtraction. -/
def wrapLine (T k : Int) : Int := if k < T then k else k - T

section

variable {T i j k : Int}

theorem wrapLine_of_lt (h : k < T) : wrapLine T k = k := if_pos h

theorem wrapLine_of_ge (h : T ≤ k) : wrapLine T k = k - T := if_neg (by omega)

theorem wrapLine_nonneg (h : 0 ≤ k) : 0 ≤ wrapLine T k := by
  unfold wrapLine
  split <;> omega

theorem wrapLine_lt (h : k < 2 * T) : wrapLine T k < T := by
  unfold wrapLine
  split <;> omega

theorem wrapLine_eq_emod (h0 : 0 ≤ k) (h : k < 2 * T) : wrapLine T k = k % T := by
  unfold wrapLine
  split
  · rw [Int.emod_eq_of_lt h0 (by omega)]
  · rw [← Int.sub_emod_right, Int.emod_eq_of_lt (by omega) (by omega)]

/-- The next line of a ring in which `k` lines have been counted. -/
theorem wrapLine_emod_succ (hT : 0 < T) (k : Int) : wrapLine T (k % T + 1) = (k + 1) % T := by
  have h0 := Int.emod_nonneg k hT.ne'
  have h1 := Int.emod_lt_of_pos k hT
  rw [wrapLine_eq_emod (by omega) (by omega), Int.emod_add_emod]

/-- Lines counted less than a round apart are different. -/
theorem emod_ne_of_lt (h : i < j) (h' : j - i < T) : i % T ≠ j % T := by
  intro heq
  have hdvd : T ∣ j - i :=
    Int.dvd_of_emod_eq_zero (Int.emod_eq_emod_iff_emod_sub_eq_zero.mp heq.symm)
  exact absurd (Int.le_of_dvd (by omega) hdvd) (by omega)

theorem wrapLine_inj (hj : i - j < T) (hi : j - i < T) (h : wrapLine T i = wrapLine T j) :
    i = j := by
  unfold wrapLine at h
  split at h <;> split at h <;> omega

end

end MobileTerminal
