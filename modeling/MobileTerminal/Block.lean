import Mathlib.Data.List.Basic
import MobileTerminal.Fault

/-!
# Checked memory blocks

A `Block` is what `malloc` returns: a number of cells and what they hold.
Addresses are offsets from the start of the block, as integers, so that
arithmetic on them can leave the block in either direction; a load, a store or a
copy that does is a `Fault.outOfBounds`. A copy of a negative number of cells is
one too: the length becomes a huge unsigned number.

A block is a function on all integers together with a size, and not a list. The
operations of the source compute addresses in cells and move whole lines by
`memmove`, and such a copy is one definition here (`paste`) with one lemma
inside the copied part and one outside it. Where a proof wants a list, `slice`
reads one off.

Every operation is described by two lemmas: when it completes, and what the
block holds afterwards. A caller never unfolds `load`, `store` or `copy`.
-/

namespace MobileTerminal

/-- `size` cells of memory. The values of `cell` outside `0..size-1` belong to
no object and are never read through the checked operations. -/
structure Block (α : Type) where
  size : Int
  cell : Int → α

namespace Block

variable {α ι : Type}

/-- A new block whose cells all hold `v`. -/
def alloc (n : Int) (v : α) : Block α := ⟨n, fun _ => v⟩

def load (b : Block α) (a : Int) : Except (Fault ι) α :=
  if 0 ≤ a ∧ a < b.size then .ok (b.cell a) else .error .outOfBounds

def set (b : Block α) (a : Int) (v : α) : Block α :=
  { b with cell := fun i => if i = a then v else b.cell i }

def store (b : Block α) (a : Int) (v : α) : Except (Fault ι) (Block α) :=
  if 0 ≤ a ∧ a < b.size then .ok (b.set a v) else .error .outOfBounds

/-- `dst` with the `n` cells from `d` on replaced by those of `src` from `s` on. -/
def paste (dst : Block α) (d : Int) (src : Block α) (s n : Int) : Block α :=
  { dst with cell := fun i => if d ≤ i ∧ i < d + n then src.cell (s + (i - d)) else dst.cell i }

/-- `memcpy` and `memmove`: the source is read before anything is written. -/
def copy (dst : Block α) (d : Int) (src : Block α) (s n : Int) :
    Except (Fault ι) (Block α) :=
  if n = 0 ∨ 0 < n ∧ 0 ≤ s ∧ s + n ≤ src.size ∧ 0 ≤ d ∧ d + n ≤ dst.size then
    .ok (dst.paste d src s n)
  else .error .outOfBounds

/-! ## When an operation completes -/

theorem load_eq_ok {b : Block α} {a : Int} {v : α} :
    (b.load a : Except (Fault ι) α) = .ok v ↔ (0 ≤ a ∧ a < b.size) ∧ b.cell a = v := by
  unfold load
  split
  · rename_i h
    simp [h]
  · rename_i h
    simp only [reduceCtorEq, false_iff]
    exact fun h' => h h'.1

theorem load_of_lt {b : Block α} {a : Int} (h0 : 0 ≤ a) (h : a < b.size) :
    (b.load a : Except (Fault ι) α) = .ok (b.cell a) := if_pos ⟨h0, h⟩

theorem store_eq_ok {b b' : Block α} {a : Int} {v : α} :
    (b.store a v : Except (Fault ι) (Block α)) = .ok b' ↔
      (0 ≤ a ∧ a < b.size) ∧ b.set a v = b' := by
  unfold store
  split
  · rename_i h
    simp [h]
  · rename_i h
    simp only [reduceCtorEq, false_iff]
    exact fun h' => h h'.1

theorem store_of_lt {b : Block α} {a : Int} (v : α) (h0 : 0 ≤ a) (h : a < b.size) :
    (b.store a v : Except (Fault ι) (Block α)) = .ok (b.set a v) := if_pos ⟨h0, h⟩

theorem copy_eq_ok {dst src b' : Block α} {d s n : Int} :
    (dst.copy d src s n : Except (Fault ι) (Block α)) = .ok b' ↔
      (n = 0 ∨ 0 < n ∧ 0 ≤ s ∧ s + n ≤ src.size ∧ 0 ≤ d ∧ d + n ≤ dst.size)
        ∧ dst.paste d src s n = b' := by
  unfold copy
  split
  · rename_i h
    simp only [Except.ok.injEq]
    exact ⟨fun h' => ⟨h, h'⟩, fun h' => h'.2⟩
  · rename_i h
    simp only [reduceCtorEq, false_iff]
    exact fun h' => h h'.1

theorem copy_of_le (dst src : Block α) {d s n : Int} (hn : 0 < n) (hs : 0 ≤ s)
    (hs' : s + n ≤ src.size) (hd : 0 ≤ d) (hd' : d + n ≤ dst.size) :
    (dst.copy d src s n : Except (Fault ι) (Block α)) = .ok (dst.paste d src s n) :=
  if_pos (Or.inr ⟨hn, hs, hs', hd, hd'⟩)

/-! ## What a block holds afterwards -/

@[simp] theorem alloc_size (n : Int) (v : α) : (alloc n v).size = n := rfl

@[simp] theorem alloc_cell (n : Int) (v : α) (i : Int) : (alloc n v).cell i = v := rfl

@[simp] theorem set_size (b : Block α) (a : Int) (v : α) : (b.set a v).size = b.size := rfl

@[simp] theorem paste_size (dst : Block α) (d : Int) (src : Block α) (s n : Int) :
    (dst.paste d src s n).size = dst.size := rfl

@[simp] theorem set_cell_self (b : Block α) (a : Int) (v : α) : (b.set a v).cell a = v :=
  if_pos rfl

theorem paste_cell_of_mem (dst : Block α) {d : Int} (src : Block α) {s n i : Int}
    (h : d ≤ i) (h' : i < d + n) : (dst.paste d src s n).cell i = src.cell (s + (i - d)) :=
  if_pos ⟨h, h'⟩

theorem paste_cell_of_notMem (dst : Block α) {d : Int} (src : Block α) {s n i : Int}
    (h : i < d ∨ d + n ≤ i) : (dst.paste d src s n).cell i = dst.cell i :=
  if_neg (by omega)

theorem size_of_store {b b' : Block α} {a : Int} {v : α}
    (h : (b.store a v : Except (Fault ι) (Block α)) = .ok b') : b'.size = b.size := by
  obtain ⟨-, rfl⟩ := store_eq_ok.mp h
  rfl

theorem size_of_copy {dst src b' : Block α} {d s n : Int}
    (h : (dst.copy d src s n : Except (Fault ι) (Block α)) = .ok b') :
    b'.size = dst.size := by
  obtain ⟨-, rfl⟩ := copy_eq_ok.mp h
  rfl

/-! ## Blocks and lists -/

/-- The `n` cells from `a` on. -/
def slice (b : Block α) (a : Int) : Nat → List α
  | 0 => []
  | n + 1 => b.cell a :: b.slice (a + 1) n

/-- A block that holds a list. -/
def ofList (l : List α) (v : α) : Block α := ⟨l.length, fun i => l.getD i.toNat v⟩

@[simp] theorem slice_length (b : Block α) (a : Int) (n : Nat) : (b.slice a n).length = n := by
  induction n generalizing a with
  | zero => rfl
  | succ n ih => simp [slice, ih]

theorem slice_getElem (b : Block α) (a : Int) (n i : Nat) (h : i < (b.slice a n).length) :
    (b.slice a n)[i] = b.cell (a + i) := by
  induction n generalizing a i with
  | zero => simp [slice] at h
  | succ n ih =>
      cases i with
      | zero => simp [slice]
      | succ i =>
          simp only [slice, List.getElem_cons_succ]
          rw [ih]
          congr 1
          omega

theorem slice_add (b : Block α) (a : Int) (m n : Nat) :
    b.slice a (m + n) = b.slice a m ++ b.slice (a + m) n := by
  induction m generalizing a with
  | zero => simp [slice]
  | succ m ih =>
      rw [show m + 1 + n = (m + n) + 1 by omega, slice, slice, ih, List.cons_append,
        show a + 1 + (m : Int) = a + ((m + 1 : Nat) : Int) by omega]

theorem slice_congr {b b' : Block α} {a a' : Int} {n : Nat}
    (h : ∀ i : Nat, i < n → b.cell (a + i) = b'.cell (a' + i)) :
    b.slice a n = b'.slice a' n := by
  apply List.ext_getElem
  · simp
  · intro i h1 h2
    rw [slice_getElem, slice_getElem]
    exact h i (by simpa using h1)

@[simp] theorem ofList_size (l : List α) (v : α) : (ofList l v).size = l.length := rfl

theorem slice_ofList (l : List α) (v : α) : (ofList l v).slice 0 l.length = l := by
  apply List.ext_getElem
  · simp
  · intro i h1 h2
    rw [slice_getElem]
    simp [ofList, h2]

end Block

end MobileTerminal
