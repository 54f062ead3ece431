import Mathlib.Tactic.Common
import Mathlib.Logic.Function.Iterate

/-!
# Editing a grid of cells

A grid gives each row and column a cell; it has no bounds, and the operations
say by their arguments which part they work on. Rows and columns are inserted
and deleted inside a range: what is pushed out of the range is lost, what opens
up becomes blank, and nothing outside it changes.

Such an operation applied again and again is one operation
(`insertRows_insertRows`, `deleteRows_iterate`), and the two undo each other but
for what the first has pushed out (`deleteRows_insertRows`).

A grid is a function, so that every law is an extensionality and a case
distinction on where the row or column lies, and no law needs the grid to be
rectangular or the range to be inside it. The counts have to be non-negative,
and for undoing an operation the range has to have room for them.
-/

namespace MobileTerminal

namespace Cells

variable {α : Type}

def put (y x : Int) (c : α) (g : Int → Int → α) : Int → Int → α :=
  fun j z => if j = y ∧ z = x then c else g j z

/-- The cells of row `y` from column `x` up to, not including, `x'`. -/
def fill (y x x' : Int) (c : α) (g : Int → Int → α) : Int → Int → α :=
  fun j z => if j = y ∧ x ≤ z ∧ z < x' then c else g j z

/-- The rows from `a` to `b`. -/
def fillRows (a b : Int) (c : α) (g : Int → Int → α) : Int → Int → α :=
  fun j z => if a ≤ j ∧ j ≤ b then c else g j z

/-- The cells from `(y, x)` on. -/
def fillFrom (y x : Int) (c : α) (g : Int → Int → α) : Int → Int → α :=
  fun j z => if y < j ∨ j = y ∧ x ≤ z then c else g j z

/-- The cells up to `(y, x)` and this cell. -/
def fillTo (y x : Int) (c : α) (g : Int → Int → α) : Int → Int → α :=
  fun j z => if j < y ∨ j = y ∧ z ≤ x then c else g j z

/-- Open up `n` columns of row `y` at column `x`, left of column `w`. -/
def insertColumns (y x w n : Int) (blank : α) (g : Int → Int → α) : Int → Int → α :=
  fun j z => if j = y ∧ x ≤ z ∧ z < w then (if z < x + n then blank else g j (z - n)) else g j z

/-- Take `n` columns out of row `y` at column `x`, left of column `w`. -/
def deleteColumns (y x w n : Int) (blank : α) (g : Int → Int → α) : Int → Int → α :=
  fun j z => if j = y ∧ x ≤ z ∧ z < w then (if z + n < w then g j (z + n) else blank) else g j z

/-- Open up `n` rows at row `a`, down to row `b`. -/
def insertRows (a b n : Int) (blank : α) (g : Int → Int → α) : Int → Int → α :=
  fun j z => if a ≤ j ∧ j ≤ b then (if j < a + n then blank else g (j - n) z) else g j z

/-- Take `n` rows out at row `a`, down to row `b`. -/
def deleteRows (a b n : Int) (blank : α) (g : Int → Int → α) : Int → Int → α :=
  fun j z => if a ≤ j ∧ j ≤ b then (if j + n ≤ b then g (j + n) z else blank) else g j z

variable {a b m n x y w : Int} {blank : α} {g : Int → Int → α}

/-! ## Again and again -/

theorem insertRows_insertRows (hm : 0 ≤ m) (hn : 0 ≤ n) :
    insertRows a b m blank (insertRows a b n blank g) = insertRows a b (m + n) blank g := by
  funext j z
  simp only [insertRows]
  split_ifs <;> first | rfl | omega | exact congrArg (g · z) (by omega)

theorem deleteRows_deleteRows (hm : 0 ≤ m) (hn : 0 ≤ n) :
    deleteRows a b m blank (deleteRows a b n blank g) = deleteRows a b (m + n) blank g := by
  funext j z
  simp only [deleteRows]
  split_ifs <;> first | rfl | omega | exact congrArg (g · z) (by omega)

theorem insertColumns_insertColumns (hm : 0 ≤ m) (hn : 0 ≤ n) :
    insertColumns y x w m blank (insertColumns y x w n blank g) =
      insertColumns y x w (m + n) blank g := by
  funext j z
  simp only [insertColumns]
  split_ifs <;> first | rfl | omega | exact congrArg (g j) (by omega)

theorem deleteColumns_deleteColumns (hm : 0 ≤ m) (hn : 0 ≤ n) :
    deleteColumns y x w m blank (deleteColumns y x w n blank g) =
      deleteColumns y x w (m + n) blank g := by
  funext j z
  simp only [deleteColumns]
  split_ifs <;> first | rfl | omega | exact congrArg (g j) (by omega)

theorem insertRows_zero (g : Int → Int → α) : insertRows a b 0 blank g = g := by
  funext j z
  simp only [insertRows]
  split_ifs <;> first | rfl | omega | exact congrArg (g · z) (by omega)

theorem deleteRows_zero (g : Int → Int → α) : deleteRows a b 0 blank g = g := by
  funext j z
  simp only [deleteRows]
  split_ifs <;> first | rfl | omega | exact congrArg (g · z) (by omega)

theorem insertRows_iterate (n : Nat) (g : Int → Int → α) :
    (insertRows a b 1 blank)^[n] g = insertRows a b n blank g := by
  induction n with
  | zero => exact (insertRows_zero g).symm
  | succ n ih =>
      rw [Function.iterate_succ_apply', ih, insertRows_insertRows (by decide) (by omega),
        Int.add_comm]
      rfl

theorem deleteRows_iterate (n : Nat) (g : Int → Int → α) :
    (deleteRows a b 1 blank)^[n] g = deleteRows a b n blank g := by
  induction n with
  | zero => exact (deleteRows_zero g).symm
  | succ n ih =>
      rw [Function.iterate_succ_apply', ih, deleteRows_deleteRows (by decide) (by omega),
        Int.add_comm]
      rfl

/-! ## There and back -/

theorem deleteRows_insertRows (hn : 0 ≤ n) (hle : n ≤ b - a + 1) :
    deleteRows a b n blank (insertRows a b n blank g) = fillRows (b - n + 1) b blank g := by
  funext j z
  simp only [deleteRows, insertRows, fillRows]
  split_ifs <;> first | rfl | omega | exact congrArg (g · z) (by omega)

theorem insertRows_deleteRows (hn : 0 ≤ n) (hle : n ≤ b - a + 1) :
    insertRows a b n blank (deleteRows a b n blank g) = fillRows a (a + n - 1) blank g := by
  funext j z
  simp only [deleteRows, insertRows, fillRows]
  split_ifs <;> first | rfl | omega | exact congrArg (g · z) (by omega)

theorem deleteColumns_insertColumns (hn : 0 ≤ n) (hle : n ≤ w - x) :
    deleteColumns y x w n blank (insertColumns y x w n blank g) = fill y (w - n) w blank g := by
  funext j z
  simp only [deleteColumns, insertColumns, fill]
  split_ifs <;> first | rfl | omega | exact congrArg (g j) (by omega)

theorem insertColumns_deleteColumns (hn : 0 ≤ n) (hle : n ≤ w - x) :
    insertColumns y x w n blank (deleteColumns y x w n blank g) = fill y x (x + n) blank g := by
  funext j z
  simp only [deleteColumns, insertColumns, fill]
  split_ifs <;> first | rfl | omega | exact congrArg (g j) (by omega)

end Cells

end MobileTerminal
