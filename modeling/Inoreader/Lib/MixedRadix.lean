import Mathlib.Data.List.Basic
import Mathlib.Order.Lattice

/-!
# Numbers written in several bases

Appending digits that stay below their bases keeps the lexicographic order.
-/

namespace Lib

/-- `acc` with further digits, each in its base. -/
def mixedRadix (acc : Int) : List (Int × Int) → Int
  | [] => acc
  | (base, digit) :: rest => mixedRadix (acc * base + digit) rest

/-- Every digit is below its base. -/
def Digits (ds : List (Int × Int)) : Prop := ∀ d ∈ ds, 0 ≤ d.2 ∧ d.2 < d.1

theorem Digits.tail {d : Int × Int} {ds : List (Int × Int)} (h : Digits (d :: ds)) : Digits ds :=
  fun e he => h e (List.mem_cons_of_mem d he)

/-- One more digit. -/
theorem mul_add_lt_iff {x y b d e : Int} (hd : 0 ≤ d ∧ d < b) (he : 0 ≤ e ∧ e < b) :
    x * b + d < y * b + e ↔ x < y ∨ x = y ∧ d < e := by
  have hb : 0 < b := hd.1.trans_lt hd.2
  rcases lt_trichotomy x y with hlt | rfl | hgt
  · have hstep : (x + 1) * b ≤ y * b := Int.mul_le_mul_of_nonneg_right hlt hb.le
    rw [Int.add_mul, Int.one_mul] at hstep
    exact iff_of_true (by omega) (.inl hlt)
  · constructor
    · exact fun h => .inr ⟨rfl, by omega⟩
    · rintro (h | ⟨-, h⟩)
      · exact absurd h (lt_irrefl x)
      · omega
  · have hstep : (y + 1) * b ≤ x * b := Int.mul_le_mul_of_nonneg_right hgt hb.le
    rw [Int.add_mul, Int.one_mul] at hstep
    refine iff_of_false (by omega) ?_
    rintro (h | ⟨rfl, -⟩)
    · exact absurd (h.trans hgt) (lt_irrefl x)
    · exact lt_irrefl _ hgt

theorem mul_add_eq_iff {x y b d e : Int} (hd : 0 ≤ d ∧ d < b) (he : 0 ≤ e ∧ e < b) :
    x * b + d = y * b + e ↔ x = y ∧ d = e := by
  constructor
  · intro h
    have hxy : ¬ (x < y ∨ x = y ∧ d < e) := fun hlt => ((mul_add_lt_iff hd he).2 hlt).ne h
    have hyx : ¬ (y < x ∨ y = x ∧ e < d) := fun hlt => ((mul_add_lt_iff he hd).2 hlt).ne h.symm
    have heq : x = y := by omega
    exact ⟨heq, by omega⟩
  · rintro ⟨rfl, rfl⟩
    rfl

/-- Two numbers with the same bases compare as their digits do. -/
theorem mixedRadix_lt_iff {ds es : List (Int × Int)} (hd : Digits ds) (he : Digits es)
    (hbases : ds.map (·.1) = es.map (·.1)) (x y : Int) :
    mixedRadix x ds < mixedRadix y es ↔ x :: ds.map (·.2) < y :: es.map (·.2) := by
  induction ds generalizing es x y with
  | nil =>
    obtain rfl : es = [] := List.map_eq_nil_iff.1 hbases.symm
    simp [mixedRadix, List.cons_lt_cons_iff]
  | cons d ds ih =>
    obtain ⟨e, es, rfl⟩ : ∃ e es', es = e :: es' := List.exists_cons_of_ne_nil (by rintro rfl; cases hbases)
    obtain ⟨hbase, hbases⟩ : d.1 = e.1 ∧ ds.map (·.1) = es.map (·.1) := List.cons_eq_cons.1 hbases
    have hdb := hd d List.mem_cons_self
    have heb := he e List.mem_cons_self
    rw [← hbase] at heb
    rw [mixedRadix, mixedRadix, ih hd.tail he.tail hbases, ← hbase, List.cons_lt_cons_iff, mul_add_lt_iff hdb heb,
      mul_add_eq_iff hdb heb, List.map_cons, List.map_cons, List.cons_lt_cons_iff, List.cons_lt_cons_iff]
    tauto

theorem mixedRadix_eq_iff {ds es : List (Int × Int)} (hd : Digits ds) (he : Digits es)
    (hbases : ds.map (·.1) = es.map (·.1)) (x y : Int) :
    mixedRadix x ds = mixedRadix y es ↔ x :: ds.map (·.2) = y :: es.map (·.2) := by
  induction ds generalizing es x y with
  | nil =>
    obtain rfl : es = [] := List.map_eq_nil_iff.1 hbases.symm
    simp [mixedRadix]
  | cons d ds ih =>
    obtain ⟨e, es, rfl⟩ : ∃ e es', es = e :: es' := List.exists_cons_of_ne_nil (by rintro rfl; cases hbases)
    obtain ⟨hbase, hbases⟩ : d.1 = e.1 ∧ ds.map (·.1) = es.map (·.1) := List.cons_eq_cons.1 hbases
    have hdb := hd d List.mem_cons_self
    have heb := he e List.mem_cons_self
    rw [← hbase] at heb
    rw [mixedRadix, mixedRadix, ih hd.tail he.tail hbases, ← hbase, List.cons_eq_cons, mul_add_eq_iff hdb heb,
      List.map_cons, List.map_cons, List.cons_eq_cons, List.cons_eq_cons, and_assoc]

end Lib
