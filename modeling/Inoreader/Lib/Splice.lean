import Mathlib.Data.List.Basic
import Mathlib.Data.List.Perm.Basic

/-!
# Replacing parts of a list

A splice replaces the elements from `start` to `stop`. `substitute` does all splices at once, reading the list once and
looking at every position for the splices that begin or cover it; `foldr` does them one after the other, on the list as
the later ones have left it. Where the splices are disjoint and in order the two agree.
-/

namespace Lib

structure Splice (α : Type) where
  start : Nat
  stop : Nat
  after : List α
deriving DecidableEq, Repr

namespace Splice
variable {α : Type}

def apply (e : Splice α) (l : List α) : List α := l.take e.start ++ e.after ++ l.drop e.stop

/-- Neither begins before the other one has ended. -/
def Apart (e e' : Splice α) : Prop := e.stop ≤ e'.start ∨ e'.stop ≤ e.start

/-- What comes in the place of the element at position `i`. -/
def placed (edits : List (Splice α)) (i : Nat) (a : α) : List α :=
  (edits.filter (·.start = i)).flatMap (·.after) ++
    if edits.any (fun e => e.start ≤ i ∧ i < e.stop) then [] else [a]

/-- The simultaneous substitution in a list that begins at position `i`. -/
def substitute (edits : List (Splice α)) : Nat → List α → List α
  | _, [] => []
  | i, a :: l => placed edits i a ++ substitute edits (i + 1) l

variable {edits edits' : List (Splice α)} {e : Splice α} {i : Nat} {l l' : List α}

theorem substitute_append : substitute edits i (l ++ l') = substitute edits i l ++ substitute edits (i + l.length) l' := by
  induction l generalizing i with
  | nil => rfl
  | cons a l ih =>
    rw [List.cons_append, substitute, substitute, ih, List.append_assoc, List.length_cons,
      show i + 1 + l.length = i + (l.length + 1) by omega]

/-- A splice that does not touch the list has no part in the substitution. -/
theorem substitute_cons (h : i + l.length ≤ e.start ∨ (e.start < i ∧ e.stop ≤ i)) :
    substitute (e :: edits) i l = substitute edits i l := by
  induction l generalizing i with
  | nil => rfl
  | cons a l ih =>
    rw [List.length_cons] at h
    have hstart : e.start ≠ i := by omega
    have hcover : ¬ (e.start ≤ i ∧ i < e.stop) := by omega
    rw [substitute, substitute, ih (by omega)]
    congr 1
    simp [placed, hstart, hcover]

theorem substitute_nil : substitute [] i l = l := by
  induction l generalizing i with
  | nil => rfl
  | cons a l ih => rw [substitute, ih, placed]; rfl

theorem substitute_untouched (edits : List (Splice α)) (l : List α) (h : ∀ e ∈ edits, i + l.length ≤ e.start ∨ (e.start < i ∧ e.stop ≤ i)) :
    substitute edits i l = l := by
  induction edits with
  | nil => exact substitute_nil
  | cons e edits ih =>
    rw [substitute_cons (h e List.mem_cons_self)]
    exact ih fun e' he' => h e' (List.mem_cons_of_mem _ he')

/-- The elements that a splice covers are dropped. -/
theorem substitute_covered (hstart : e.start < i) (hstop : i + l.length ≤ e.stop)
    (h : ∀ e' ∈ edits, i + l.length ≤ e'.start) : substitute (e :: edits) i l = [] := by
  induction l generalizing i with
  | nil => rfl
  | cons a l ih =>
    rw [List.length_cons] at hstop h
    have hnone : edits.filter (fun e' => decide (e'.start = i)) = [] := by
      rw [List.filter_eq_nil_iff]
      intro e' he'
      have := h e' he'
      simp only [decide_eq_true_eq]
      omega
    have hcover : e.start ≤ i ∧ i < e.stop := by omega
    have hne : e.start ≠ i := by omega
    rw [substitute, ih (by omega) (by omega) fun e' he' => by have := h e' he'; omega]
    simp [placed, hne, hnone, hcover]

/-- The elements that the first splice covers are replaced by what it says. -/
theorem substitute_replaced (hlt : e.start < e.stop) (hi : i = e.start) (hstop : i + l.length = e.stop)
    (h : ∀ e' ∈ edits, e.stop ≤ e'.start) : substitute (e :: edits) i l = e.after := by
  cases l with
  | nil => rw [List.length_nil] at hstop; omega
  | cons a l =>
    rw [List.length_cons] at hstop
    have hnone : edits.filter (fun e' => decide (e'.start = i)) = [] := by
      rw [List.filter_eq_nil_iff]
      intro e' he'
      have := h e' he'
      simp only [decide_eq_true_eq]
      omega
    have hcover : e.start ≤ i ∧ i < e.stop := by omega
    have hrest : substitute (e :: edits) (i + 1) l = [] :=
      substitute_covered (by omega) (by omega) fun e' he' => by have := h e' he'; omega
    rw [substitute, hrest]
    simp [placed, hi.symm, hnone, hcover]

/-- One after the other from the back is all at once. -/
theorem foldr_apply (h : edits.Pairwise fun e e' => e.stop ≤ e'.start)
    (hin : ∀ e ∈ edits, e.start < e.stop ∧ e.stop ≤ l.length) :
    edits.foldr apply l = substitute edits 0 l := by
  induction edits with
  | nil => exact substitute_nil.symm
  | cons e edits ih =>
    obtain ⟨hfirst, hrest⟩ := List.pairwise_cons.1 h
    obtain ⟨hlt, hle⟩ := hin e List.mem_cons_self
    have hsplit : l = l.take e.start ++ ((l.take e.stop).drop e.start ++ l.drop e.stop) := by
      have htake : (l.take e.stop).take e.start = l.take e.start := by
        rw [List.take_take, Nat.min_eq_left (by omega)]
      rw [← List.append_assoc, ← htake, List.take_append_drop, List.take_append_drop]
    have hlen : (l.take e.start).length = e.start := by rw [List.length_take]; omega
    have hlen' : ((l.take e.stop).drop e.start).length = e.stop - e.start := by
      rw [List.length_drop, List.length_take]
      omega
    have hlater : ∀ e' ∈ edits, e.stop ≤ e'.start := hfirst
    -- what the later splices leave alone
    have htail : substitute edits 0 l = l.take e.stop ++ substitute edits e.stop (l.drop e.stop) := by
      conv_lhs => rw [← List.take_append_drop e.stop l]
      have hlen'' : (l.take e.stop).length = e.stop := by rw [List.length_take]; omega
      rw [substitute_append, Nat.zero_add, hlen'',
        substitute_untouched _ _ fun e' he' => .inl (by have := hlater e' he'; omega)]
    rw [List.foldr_cons, ih hrest fun e' he' => hin e' (List.mem_cons_of_mem _ he'), apply, htail]
    have hstop : (l.take e.stop).length = e.stop := by rw [List.length_take]; omega
    conv_rhs => rw [hsplit]
    rw [substitute_append, substitute_append, Nat.zero_add, hlen, hlen',
      show e.start + (e.stop - e.start) = e.stop by omega,
      substitute_untouched (e :: edits) (l.take e.start),
      substitute_replaced hlt rfl (by omega) hlater, substitute_cons (.inr (by omega)),
      List.take_append_of_le_length (by omega), List.take_take, Nat.min_eq_left (by omega),
      List.drop_append_of_le_length (by omega), List.drop_of_length_le (by omega), List.nil_append, List.append_assoc]
    · intro e' he'
      rcases List.mem_cons.1 he' with rfl | he'
      · exact .inl (by omega)
      · have := hlater e' he'
        exact .inl (by omega)

theorem Apart.symm {e e' : Splice α} (h : e.Apart e') : e'.Apart e := Or.symm h

/-- The order in which disjoint splices are listed does not matter. -/
theorem substitute_perm (hperm : edits.Perm edits') (h : edits.Pairwise Apart)
    (hlt : ∀ e ∈ edits, e.start < e.stop) : substitute edits i l = substitute edits' i l := by
  have hplaced : ∀ i a, placed edits i a = placed edits' i a := by
    intro i a
    have hany : edits.any (fun e => decide (e.start ≤ i ∧ i < e.stop)) =
        edits'.any (fun e => decide (e.start ≤ i ∧ i < e.stop)) := by
      rw [Bool.eq_iff_iff, List.any_eq_true, List.any_eq_true]
      exact ⟨fun ⟨e, he, h⟩ => ⟨e, hperm.mem_iff.1 he, h⟩, fun ⟨e, he, h⟩ => ⟨e, hperm.mem_iff.2 he, h⟩⟩
    have hfilter : edits.filter (fun e => decide (e.start = i)) = edits'.filter (fun e => decide (e.start = i)) := by
      have hp := hperm.filter fun e => decide (e.start = i)
      -- two splices that begin at one position are not apart
      cases hf : edits.filter fun e => decide (e.start = i) with
      | nil =>
        rw [hf] at hp
        exact (List.Perm.eq_nil hp.symm).symm
      | cons e rest =>
        have hpair := h.filter fun e => decide (e.start = i)
        rw [hf] at hpair hp
        have hmem : ∀ e' ∈ e :: rest, e' ∈ edits ∧ e'.start = i := by
          intro e' he'
          rw [← hf] at he'
          simpa using he'
        cases rest with
        | nil => exact (List.perm_singleton.1 hp.symm).symm
        | cons e' rest =>
          have hap := (List.pairwise_cons.1 hpair).1 e' List.mem_cons_self
          obtain ⟨he, hs⟩ := hmem e List.mem_cons_self
          obtain ⟨he', hs'⟩ := hmem e' (List.mem_cons_of_mem _ List.mem_cons_self)
          have h₁ := hlt e he
          have h₂ := hlt e' he'
          unfold Apart at hap
          omega
    rw [placed, placed, hany, hfilter]
  induction l generalizing i with
  | nil => rfl
  | cons a l ih => rw [substitute, substitute, hplaced, ih]

end Splice
end Lib
