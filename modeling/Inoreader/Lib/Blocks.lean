import Mathlib.Algebra.GroupWithZero.Nat
import Mathlib.Data.List.Basic
import Mathlib.Data.List.GetD
import Mathlib.Algebra.BigOperators.Group.List.Basic

/-!
# Lists cut into blocks

The position of a block in the concatenation of all of them, and the block that holds a position.
-/

namespace Lib
variable {α : Type} {blocks : List (List α)} {i k k' : Nat}

/-- Where the block with the number `k` begins. -/
def blockStart (blocks : List (List α)) (k : Nat) : Nat := ((blocks.take k).map List.length).sum

@[simp] theorem blockStart_zero : blockStart blocks 0 = 0 := rfl

@[simp] theorem blockStart_cons_succ {b : List α} : blockStart (b :: blocks) (k + 1) = b.length + blockStart blocks k := by
  simp [blockStart]

/-- The block with the number `k` holds the position `i`. -/
def Holds (blocks : List (List α)) (k i : Nat) : Prop :=
  ∃ b, blocks[k]? = some b ∧ blockStart blocks k ≤ i ∧ i < blockStart blocks k + b.length

theorem holds_cons_zero {b : List α} : Holds (b :: blocks) 0 i ↔ i < b.length := by
  simp [Holds]

theorem holds_cons_succ {b : List α} : Holds (b :: blocks) (k + 1) i ↔ b.length ≤ i ∧ Holds blocks k (i - b.length) := by
  constructor
  · rintro ⟨b', hget, hle, hlt⟩
    rw [blockStart_cons_succ] at hle hlt
    exact ⟨by omega, b', hget, by omega, by omega⟩
  · rintro ⟨hb, b', hget, hle, hlt⟩
    refine ⟨b', hget, ?_, ?_⟩ <;> rw [blockStart_cons_succ] <;> omega

/-- Two blocks do not hold the same position. -/
theorem Holds.unique (h : Holds blocks k i) (h' : Holds blocks k' i) : k = k' := by
  induction blocks generalizing i k k' with
  | nil =>
    obtain ⟨b, hget, -⟩ := h
    cases hget
  | cons b blocks ih =>
    cases k <;> cases k' <;> simp only [holds_cons_zero, holds_cons_succ] at h h'
    · rfl
    · omega
    · omega
    · rw [ih h.2 h'.2]

/-- A position of the concatenation is held by a block, with what stands there. -/
theorem exists_holds {c : α} (h : blocks.flatten[i]? = some c) :
    ∃ k b, Holds blocks k i ∧ blocks[k]? = some b ∧ b[i - blockStart blocks k]? = some c := by
  induction blocks generalizing i with
  | nil => simp at h
  | cons b blocks ih =>
    rw [List.flatten_cons] at h
    rcases Nat.lt_or_ge i b.length with hlt | hge
    · rw [List.getElem?_append_left hlt] at h
      exact ⟨0, b, holds_cons_zero.2 hlt, rfl, by simpa using h⟩
    · rw [List.getElem?_append_right hge] at h
      obtain ⟨k, b', hholds, hget, hat⟩ := ih h
      refine ⟨k + 1, b', holds_cons_succ.2 ⟨hge, hholds⟩, hget, ?_⟩
      rw [blockStart_cons_succ, Nat.sub_add_eq]
      exact hat

end Lib
