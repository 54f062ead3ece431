import MobileTerminal.Rows
import MobileTerminal.VT100

/-!
# The characters of a row

The view and the string supplier show the same rows: those of the scrollback and
those of the screen, numbered from the oldest one. Both copy cells of a row into
a buffer of `kMaxRowBufferSize` characters on the stack before they make a
string of them, and in both a cell without a character becomes a space.

Nothing checks that the cells fit into the buffer. In the model a character
behind it is a fault, so `fillBuffer` completes exactly for the spans that fit,
and then leaves the characters of the cells in order (`fillBuffer_eq`,
`fillBuffer_le`). The theorems about copying and drawing rows either have the
bound as a hypothesis or as a part of the condition they state.
-/

namespace MobileTerminal

structure ScreenPosition where
  x : Int
  y : Int
deriving DecidableEq, Repr

def kMaxRowBufferSize : Int := 2000

/-- NUL is shown as a space. -/
def ScreenChar.shown (c : ScreenChar) : UniChar := if c.ch = 0 then 0x20 else c.ch

/-- The loop over `n` cells from `col` on, and the characters it leaves in the buffer. -/
def fillBuffer (cells : Block ScreenChar) (col : Int) (n : Nat) : Res (List UniChar) := do
  let buffer ← forUp (fun i (buffer : Block UniChar) => do
    let c ← cells.load (col + i)
    buffer.store i c.shown) 0 n (Block.alloc kMaxRowBufferSize 0)
  .ok (buffer.slice 0 n)

theorem fillBuffer_eq {cells : Block ScreenChar} {col : Int} {n : Nat} (hcol : 0 ≤ col)
    (hend : col + n ≤ cells.size) (hn : (n : Int) ≤ kMaxRowBufferSize) :
    fillBuffer cells col n = .ok ((cells.slice col n).map ScreenChar.shown) := by
  have hloop := forUp_total (ε := Fault Site)
    (f := fun i (buffer : Block UniChar) => do
      let c ← cells.load (col + i)
      buffer.store i c.shown)
    (P := fun i buffer => buffer.size = kMaxRowBufferSize ∧
      ∀ k, 0 ≤ k → k < i → buffer.cell k = (cells.cell (col + k)).shown)
    0 n (s := Block.alloc kMaxRowBufferSize 0) ?_ ?_
  · obtain ⟨buffer, hok, -, hcells⟩ := hloop
    simp only [fillBuffer, hok, ok_bind]
    congr 1
    apply List.ext_getElem
    · simp
    · intro i hi hi'
      have hin : i < n := by simpa using hi
      rw [List.getElem_map, Block.slice_getElem, Block.slice_getElem, Int.zero_add]
      exact hcells i (by omega) (by omega)
  · rintro i buffer hi hi' ⟨hsize, hcells⟩
    have hload : (cells.load (col + i) : Res ScreenChar) = .ok (cells.cell (col + i)) :=
      Block.load_of_lt (by omega) (by omega)
    refine ⟨buffer.set i (cells.cell (col + i)).shown, ?_, hsize, fun k hk hki => ?_⟩
    · simp only [hload, ok_bind]
      exact Block.store_of_lt _ hi (by omega)
    · simp only [Block.set]
      by_cases heq : k = i
      · rw [if_pos heq, heq]
      · rw [if_neg heq]
        exact hcells k hk (by omega)
  · exact ⟨rfl, fun k hk hk' => by omega⟩

theorem fillBuffer_le {cells : Block ScreenChar} {col : Int} {n : Nat} {text : List UniChar}
    (hok : fillBuffer cells col n = .ok text) : (n : Int) ≤ kMaxRowBufferSize := by
  obtain ⟨buffer, hloop, -⟩ := bind_eq_ok.mp hok
  have hmax : (0 : Int) ≤ kMaxRowBufferSize := by decide
  have hinv := forUp_inv (P := fun i (buffer : Block UniChar) =>
    buffer.size = kMaxRowBufferSize ∧ i ≤ kMaxRowBufferSize) ?_ ⟨rfl, hmax⟩ hloop
  · simpa using hinv.2
  · rintro i buffer₁ buffer₂ - - ⟨hsize, -⟩ hround
    obtain ⟨c, -, hround⟩ := bind_eq_ok.mp hround
    obtain ⟨hrange, hset⟩ := Block.store_eq_ok.mp hround
    exact ⟨by rw [← hset]; exact hsize, by omega⟩

namespace Screen

variable {s : Screen}

theorem Wf.numberOfLines_bound {s : Screen} (h : s.Wf) {r : Int} (hr : r < s.numberOfLines) :
    r < s.totalHeight := by
  have hcount := h.count_range
  rw [h.numberOfLines_eq] at hr
  unfold totalHeight
  omega

theorem Wf.fillRow (h : s.Wf) {y x : Int} {n : Nat} (hy : 0 ≤ y) (hy' : y < s.numberOfLines)
    (hx : 0 ≤ x) (hn : x + n ≤ s.width) (hmax : (n : Int) ≤ kMaxRowBufferSize) :
    fillBuffer s.bufferLines (s.rowLine y * s.realWidth + x) n =
      .ok ((List.range n).map fun (k : Nat) => (s.cellAt y (x + k)).shown) := by
  have hrow := h.numberOfLines_bound hy'
  have hstart := h.line_nonneg hy hrow
  have hend := h.line_end_le hy hrow
  have hwidth : s.realWidth = s.width + 1 := rfl
  rw [fillBuffer_eq (by omega) (by omega) hmax]
  congr 1
  apply List.ext_getElem
  · simp
  · intro i hi hi'
    rw [List.getElem_map, Block.slice_getElem, List.getElem_map, List.getElem_range, h.cellAt_eq,
      Int.add_assoc]

end Screen

end MobileTerminal
