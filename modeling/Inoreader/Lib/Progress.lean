import Mathlib.Data.List.Basic

/-!
# Loops that take a part off a list

A round looks at what is left and takes some of it off its front, maybe nothing. A round that takes nothing is repeated
for ever: the loop ends exactly where every round makes progress.
-/

namespace Lib

section
variable {α β : Type}

/-- The parts that the rounds took with what they made of them, if `fuel` rounds are enough. -/
def rounds (next : α → List α → Nat × β) : Nat → List α → Option (List (List α × β))
  | _, [] => some []
  | 0, _ :: _ => none
  | fuel + 1, x :: xs =>
    (rounds next fuel ((x :: xs).drop (next x xs).1)).map (((x :: xs).take (next x xs).1, (next x xs).2) :: ·)

variable {next : α → List α → Nat × β} {xs : List α} {parts : List (List α × β)} {fuel : Nat}

theorem rounds_cons {x : α} (h : rounds next (fuel + 1) (x :: xs) = some parts) : ∃ parts',
    rounds next fuel ((x :: xs).drop (next x xs).1) = some parts' ∧
      parts = ((x :: xs).take (next x xs).1, (next x xs).2) :: parts' := by
  rw [rounds, Option.map_eq_some_iff] at h
  obtain ⟨parts', hparts', rfl⟩ := h
  exact ⟨parts', hparts', rfl⟩

/-- The parts make up the list. -/
theorem rounds_flatMap (h : rounds next fuel xs = some parts) : parts.flatMap (·.1) = xs := by
  induction fuel generalizing xs parts with
  | zero =>
    cases xs with
    | nil =>
      cases h
      rfl
    | cons x xs => cases h
  | succ fuel ih =>
    cases xs with
    | nil =>
      cases h
      rfl
    | cons x xs =>
      obtain ⟨parts', hparts', rfl⟩ := rounds_cons h
      rw [List.flatMap_cons, ih hparts', List.take_append_drop]

/-- What holds of every round holds of every part. -/
theorem rounds_forall {P : List α → β → Prop} (hP : ∀ x xs, P ((x :: xs).take (next x xs).1) (next x xs).2)
    (h : rounds next fuel xs = some parts) : ∀ part ∈ parts, P part.1 part.2 := by
  induction fuel generalizing xs parts with
  | zero =>
    cases xs with
    | nil =>
      cases h
      exact List.forall_mem_nil _
    | cons x xs => cases h
  | succ fuel ih =>
    cases xs with
    | nil =>
      cases h
      exact List.forall_mem_nil _
    | cons x xs =>
      obtain ⟨parts', hparts', rfl⟩ := rounds_cons h
      exact List.forall_mem_cons.2 ⟨hP x xs, ih hparts'⟩

/-- A loop ends exactly on the lists that are safe, where a list is safe when its round takes something off it and
leaves a safe one. -/
theorem rounds_iff {safe : List α → Prop} (hnil : safe [])
    (hcons : ∀ x xs, safe (x :: xs) ↔ 0 < (next x xs).1 ∧ safe ((x :: xs).drop (next x xs).1)) :
    (∃ fuel parts, rounds next fuel xs = some parts) ↔ safe xs := by
  constructor
  · rintro ⟨fuel, parts, h⟩
    revert h
    induction fuel generalizing xs parts with
    | zero =>
      intro h
      cases xs with
      | nil => exact hnil
      | cons x xs => cases h
    | succ fuel ih =>
      intro h
      cases xs with
      | nil => exact hnil
      | cons x xs =>
        obtain ⟨parts', hparts', -⟩ := rounds_cons h
        have hrest := ih _ hparts'
        rcases Nat.eq_zero_or_pos (next x xs).1 with hzero | hpos
        · rwa [hzero, List.drop_zero] at hrest
        · exact (hcons x xs).2 ⟨hpos, hrest⟩
  · intro hsafe
    obtain ⟨n, hn⟩ : ∃ n, xs.length ≤ n := ⟨_, Nat.le_refl _⟩
    refine ⟨n, ?_⟩
    induction n generalizing xs with
    | zero =>
      rw [Nat.le_zero, List.length_eq_zero_iff] at hn
      exact ⟨[], by rw [hn, rounds]⟩
    | succ n ih =>
      cases xs with
      | nil => exact ⟨[], rfl⟩
      | cons x xs =>
        obtain ⟨hpos, hrest⟩ := (hcons x xs).1 hsafe
        have hlength : ((x :: xs).drop (next x xs).1).length ≤ n := by
          rw [List.length_drop]
          omega
        obtain ⟨parts, hparts⟩ := ih hrest hlength
        exact ⟨_, by rw [rounds, hparts, Option.map_some]⟩

end

end Lib
