import Mathlib.Tactic.Common

/-!
# The last write wins

A state gives every field a value. A write sets some of the fields and leaves
the others. After a list of writes a field holds what the last write that sets
it has written, and what it held before if there is none (`overwriteAll_apply`).

Fields are an arbitrary type and their values may depend on the field, so a
state is a function and a write a partial one. Two consequences carry the
results about runs of writes: writes that do not set a field can be dropped when
only this field is asked for (`lastWrite_filter`), and a property of what was
there before and of everything that is written is a property of what is there
afterwards (`overwriteAll_cases`).

The order of writes to different fields plays no part, which is what makes items
of a sequence independent of each other.
-/

namespace MobileTerminal

variable {κ ν ι : Type}

/-- The state after one write. -/
def overwrite (w : κ → Option ν) (s : κ → ν) : κ → ν := fun k => (w k).getD (s k)

section Writes

variable (writes : ι → κ → Option ν)

/-- The state after the writes of the items. -/
def overwriteAll (items : List ι) (s : κ → ν) : κ → ν :=
  items.foldl (fun s i => overwrite (writes i) s) s

/-- What the last item that sets the field sets it to. -/
def lastWrite : List ι → κ → Option ν
  | [], _ => none
  | i :: is, k => (lastWrite is k).or (writes i k)

theorem overwriteAll_apply (items : List ι) (s : κ → ν) (k : κ) :
    overwriteAll writes items s k = (lastWrite writes items k).getD (s k) := by
  induction items generalizing s with
  | nil => rfl
  | cons i is ih =>
      rw [show overwriteAll writes (i :: is) s = overwriteAll writes is (overwrite (writes i) s)
        from rfl, ih, lastWrite, overwrite]
      cases lastWrite writes is k <;> rfl

theorem lastWrite_append (items items' : List ι) (k : κ) :
    lastWrite writes (items ++ items') k =
      (lastWrite writes items' k).or (lastWrite writes items k) := by
  induction items with
  | nil => simp [lastWrite]
  | cons i is ih => rw [List.cons_append, lastWrite, ih, lastWrite, Option.or_assoc]

theorem lastWrite_flatMap {ι' : Type} (f : ι' → List ι) (items : List ι') (k : κ) :
    lastWrite writes (items.flatMap f) k = lastWrite (fun i => lastWrite writes (f i)) items k := by
  induction items with
  | nil => rfl
  | cons i is ih => rw [List.flatMap_cons, lastWrite_append, ih, lastWrite]

/-- Items that do not set the field can be left out. -/
theorem lastWrite_filter (keep : ι → Bool) {items : List ι} {k : κ}
    (h : ∀ i ∈ items, keep i = false → writes i k = none) :
    lastWrite writes (items.filter keep) k = lastWrite writes items k := by
  induction items with
  | nil => rfl
  | cons i is ih =>
      have htail := ih fun j hj => h j (List.mem_cons_of_mem _ hj)
      cases hi : keep i with
      | true => rw [List.filter_cons_of_pos hi, lastWrite, lastWrite, htail]
      | false =>
          rw [List.filter_cons_of_neg (by simp [hi]), lastWrite, htail,
            h i (List.mem_cons_self ..) hi, Option.or_none]

/-- What all items write and what was there before is what there is afterwards. -/
theorem overwriteAll_cases {P : ν → Prop} {items : List ι} {s : κ → ν} {k : κ} (hs : P (s k))
    (h : ∀ i ∈ items, ∀ x, writes i k = some x → P x) : P (overwriteAll writes items s k) := by
  induction items generalizing s with
  | nil => exact hs
  | cons i is ih =>
      refine ih ?_ fun j hj => h j (List.mem_cons_of_mem _ hj)
      show P ((writes i k).getD (s k))
      cases hw : writes i k with
      | none => exact hs
      | some x => exact h i (List.mem_cons_self ..) x hw

end Writes

end MobileTerminal
