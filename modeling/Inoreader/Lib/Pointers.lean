import Mathlib.Data.List.Perm.Subperm
import Mathlib.Logic.Relation

/-!
# Pointers without cycles

Every element has at most one pointer `next`. `chain n a` follows the pointers from `a`; where they have no cycle, a chain as
long as the list of elements with a pointer meets all that can be reached. Setting one pointer keeps the pointers without a
cycle if its element cannot be reached from the new target.
-/

namespace Lib.Pointers

variable {α : Type} {next next' : α → Option α}

def Step (next : α → Option α) (a b : α) : Prop := next a = some b

def Acyclic (next : α → Option α) : Prop := ∀ a, ¬ Relation.TransGen (Step next) a a

/-- `a` and the elements after it, at most `n` pointers away. -/
def chain (next : α → Option α) : Nat → α → List α
  | 0, a => [a]
  | n + 1, a =>
    match next a with
    | none => [a]
    | some b => a :: chain next n b

theorem self_mem_chain (n : Nat) (a : α) : a ∈ chain next n a := by
  cases n with
  | zero => simp [chain]
  | succ n =>
    unfold chain
    split <;> simp

theorem chain_mono {a b : α} {n m : Nat} (h : b ∈ chain next n a) (hle : n ≤ m) : b ∈ chain next m a := by
  induction n generalizing a m with
  | zero =>
    rw [List.mem_singleton.1 h]
    exact self_mem_chain m a
  | succ n ih =>
    obtain ⟨m, rfl⟩ : ∃ k, m = k + 1 := ⟨m - 1, by omega⟩
    unfold chain at h ⊢
    cases hnext : next a with
    | none => simpa [hnext] using h
    | some c =>
      simp only [hnext, List.mem_cons] at h ⊢
      rcases h with h | h
      · exact .inl h
      · exact .inr (ih h (by omega))

/-- A path without repetition, in the order of its steps. -/
theorem exists_path (hacyclic : Acyclic next) {a b : α} (h : Relation.ReflTransGen (Step next) a b) :
    ∃ path : List α, b ∈ chain next path.length a ∧ path.Nodup ∧
      ∀ x ∈ path, (next x).isSome = true ∧ Relation.ReflTransGen (Step next) a x := by
  induction h using Relation.ReflTransGen.head_induction_on with
  | refl => exact ⟨[], self_mem_chain 0 b, List.nodup_nil, nofun⟩
  | head hstep hreach ih =>
    rename_i a c
    obtain ⟨path, hmem, hnodup, hpath⟩ := ih
    have hstep : next a = some c := hstep
    refine ⟨a :: path, ?_, List.nodup_cons.2 ⟨fun ha => ?_, hnodup⟩, ?_⟩
    · simp only [List.length_cons, chain, hstep]
      exact List.mem_cons_of_mem _ hmem
    · exact hacyclic a (Relation.TransGen.head' hstep (hpath a ha).2)
    · refine List.forall_mem_cons.2 ⟨⟨by simp [hstep], .refl⟩, fun x hx => ⟨(hpath x hx).1, ?_⟩⟩
      exact (hpath x hx).2.head hstep

/-- The chain meets what can be reached. -/
theorem mem_chain_of_reach (hacyclic : Acyclic next) {domain : List α} (hdomain : ∀ x, (next x).isSome = true → x ∈ domain)
    {a b : α} (h : Relation.ReflTransGen (Step next) a b) : b ∈ chain next domain.length a := by
  obtain ⟨path, hmem, hnodup, hpath⟩ := exists_path hacyclic h
  refine chain_mono hmem ?_
  exact (List.subperm_of_subset hnodup fun x hx => hdomain x (hpath x hx).1).length_le

section
variable {x : α} (hsame : ∀ a, a ≠ x → next' a = next a)
include hsame

/-- The last steps to `x` do not use its own pointer. -/
theorem reach_of_set {a : α} (h : Relation.ReflTransGen (Step next') a x) : Relation.ReflTransGen (Step next) a x := by
  induction h using Relation.ReflTransGen.head_induction_on with
  | refl => exact .refl
  | head hstep hreach ih =>
    rename_i a b
    by_cases ha : a = x
    · rw [ha]
    · have hstep : next' a = some b := hstep
      rw [hsame a ha] at hstep
      exact ih.head hstep

/-- A path after the change is a path before it, or it goes over the pointer of `x`. -/
theorem trans_of_set {a b : α} (h : Relation.TransGen (Step next') a b) : Relation.TransGen (Step next) a b ∨
    ∃ p, next' x = some p ∧ Relation.ReflTransGen (Step next') a x ∧ Relation.ReflTransGen (Step next') p b := by
  induction h with
  | single hstep =>
    rename_i b
    by_cases ha : a = x
    · subst ha
      exact .inr ⟨b, hstep, .refl, .refl⟩
    · have hstep : next' a = some b := hstep
      rw [hsame a ha] at hstep
      exact .inl (.single hstep)
  | tail hpath hstep ih =>
    rename_i b c
    by_cases hb : b = x
    · subst hb
      exact .inr ⟨c, hstep, hpath.to_reflTransGen, .refl⟩
    · rcases ih with ih | ⟨p, hp, hto, hfrom⟩
      · have hstep : next' b = some c := hstep
        rw [hsame b hb] at hstep
        exact .inl (ih.tail hstep)
      · exact .inr ⟨p, hp, hto, hfrom.tail hstep⟩

/-- The pointer of `x` is set to an element that does not lead to `x`, or to none. -/
theorem acyclic_set (hacyclic : Acyclic next) (hx : ∀ p, next' x = some p → ¬ Relation.ReflTransGen (Step next) p x) :
    Acyclic next' := by
  intro a ha
  rcases trans_of_set hsame ha with ha | ⟨p, hp, hto, hfrom⟩
  · exact hacyclic a ha
  · exact hx p hp (reach_of_set hsame (hfrom.trans hto))

end
end Lib.Pointers
