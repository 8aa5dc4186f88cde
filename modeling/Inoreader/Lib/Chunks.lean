import Mathlib.Data.List.Basic

/-!
# Cutting a list into pieces

`chunksOf size xs` is `slice::chunks`: pieces of `size` elements in order, the last one possibly shorter,
none for the empty list.
-/

namespace Lib

variable {α : Type}

/-- At most `fuel` pieces. -/
def chunksUpTo (size : Nat) : Nat → List α → List (List α)
  | 0, _ => []
  | _ + 1, [] => []
  | fuel + 1, x :: xs => (x :: xs).take size :: chunksUpTo size fuel ((x :: xs).drop size)

def chunksOf (size : Nat) (xs : List α) : List (List α) := chunksUpTo size xs.length xs

theorem flatten_chunksUpTo {size : Nat} (hsize : 0 < size) {fuel : Nat} {xs : List α} (hfuel : xs.length ≤ fuel) :
    (chunksUpTo size fuel xs).flatten = xs := by
  induction fuel generalizing xs with
  | zero => rw [List.length_eq_zero_iff.1 (Nat.le_zero.1 hfuel)]; rfl
  | succ fuel ih =>
    cases xs with
    | nil => rfl
    | cons x xs =>
      have hdrop : ((x :: xs).drop size).length ≤ fuel := by
        rw [List.length_drop, List.length_cons]
        rw [List.length_cons] at hfuel
        omega
      rw [chunksUpTo, List.flatten_cons, ih hdrop, List.take_append_drop]

/-- The pieces put together are the list. -/
theorem flatten_chunksOf {size : Nat} (hsize : 0 < size) (xs : List α) : (chunksOf size xs).flatten = xs :=
  flatten_chunksUpTo hsize (Nat.le_refl _)

theorem chunksOf_map {β : Type} (f : α → β) (size : Nat) (xs : List α) :
    chunksOf size (xs.map f) = (chunksOf size xs).map (List.map f) := by
  unfold chunksOf
  rw [List.length_map]
  generalize xs.length = fuel
  induction fuel generalizing xs with
  | zero => rfl
  | succ fuel ih =>
    cases xs with
    | nil => rfl
    | cons x xs =>
      show ((x :: xs).map f).take size :: chunksUpTo size fuel (((x :: xs).map f).drop size) = _
      rw [← List.map_take, ← List.map_drop, ih]
      rfl

example : chunksOf 2 [1, 2, 3, 4] = [[1, 2], [3, 4]] ∧ chunksOf 2 [1, 2, 3] = [[1, 2], [3]] := by decide

end Lib
