import Mathlib.Algebra.GroupWithZero.Nat
import Mathlib.Data.List.Infix

/-!
# Offsets in units

An element of a list takes a number of units, as a character takes bytes of UTF-8 or code units of UTF-16. An offset
counts the units that come before it, and it is valid if it does not lie within an element.
-/

namespace Lib
variable {α : Type} (w : α → Nat)

/-- The units of a list. -/
def units (l : List α) : Nat := (l.map w).sum

/-- The parts before and after an offset that is valid. -/
def cut : List α → Nat → Option (List α × List α)
  | l, 0 => some ([], l)
  | [], _ + 1 => none
  | a :: l, n + 1 => if w a ≤ n + 1 then (cut l (n + 1 - w a)).map fun p => (a :: p.1, p.2) else none

/-- The part between two offsets. -/
def between (l : List α) (start stop : Nat) : Option (List α) :=
  (cut w l stop).bind fun p => (cut w p.1 start).map (·.2)

section
variable {w} {l pre post l₁ l₂ : List α} {n m : Nat}

@[simp] theorem units_nil : units w [] = 0 := rfl

@[simp] theorem units_cons (a : α) (l : List α) : units w (a :: l) = w a + units w l := by
  simp [units]

@[simp] theorem units_append (l₁ l₂ : List α) : units w (l₁ ++ l₂) = units w l₁ + units w l₂ := by
  simp [units]

theorem units_pos (hw : ∀ a, 0 < w a) (h : l ≠ []) : 0 < units w l := by
  cases l with
  | nil => exact absurd rfl h
  | cons a l =>
    have ha := hw a
    rw [units_cons]
    omega

theorem units_eq_zero (hw : ∀ a, 0 < w a) : units w l = 0 ↔ l = [] := by
  constructor
  · intro h
    by_contra hne
    have hpos := units_pos hw hne
    omega
  · rintro rfl
    rfl

theorem length_le_units (hw : ∀ a, 0 < w a) (l : List α) : l.length ≤ units w l := by
  induction l with
  | nil => exact Nat.le_refl 0
  | cons a l ih =>
    have ha := hw a
    rw [List.length_cons, units_cons]
    omega

theorem units_mono (h : l₁ <+: l₂) : units w l₁ ≤ units w l₂ := by
  obtain ⟨post, rfl⟩ := h
  rw [units_append]
  exact Nat.le_add_right ..

/-- Of two ways to split a list, the shorter first part is a prefix of the other one. -/
theorem prefix_of_append_eq {m₁ m₂ : List α} (h : l₁ ++ m₁ = l₂ ++ m₂) (hle : l₁.length ≤ l₂.length) : l₁ <+: l₂ := by
  have h₂ : l₂ <+: l₁ ++ m₁ := h ▸ List.prefix_append l₂ m₂
  exact List.prefix_of_prefix_length_le (List.prefix_append l₁ m₁) h₂ hle

/-- An offset determines the part before it. -/
theorem prefix_of_units_le (hw : ∀ a, 0 < w a) (h₁ : l₁ <+: l) (h₂ : l₂ <+: l) (h : units w l₁ ≤ units w l₂) :
    l₁ <+: l₂ := by
  rcases List.prefix_or_prefix_of_prefix h₁ h₂ with hle | ⟨rest, rfl⟩
  · exact hle
  · rw [units_append] at h
    have hrest : rest = [] := (units_eq_zero hw).1 (by omega)
    rw [hrest, List.append_nil]

theorem prefix_eq_of_units_eq (hw : ∀ a, 0 < w a) (h₁ : l₁ <+: l) (h₂ : l₂ <+: l) (h : units w l₁ = units w l₂) :
    l₁ = l₂ :=
  (prefix_of_units_le hw h₁ h₂ h.le).eq_of_length_le (prefix_of_units_le hw h₂ h₁ h.ge).length_le

theorem cut_append (hw : ∀ a, 0 < w a) (pre post : List α) : cut w (pre ++ post) (units w pre) = some (pre, post) := by
  induction pre with
  | nil => cases post <;> rfl
  | cons a pre ih =>
    have ha := hw a
    obtain ⟨k, hk⟩ : ∃ k, units w (a :: pre) = k + 1 := ⟨units w (a :: pre) - 1, by rw [units_cons]; omega⟩
    rw [hk, List.cons_append, cut, ← hk, units_cons, if_pos (Nat.le_add_right ..), Nat.add_sub_cancel_left, ih]
    rfl

/-- A valid offset counts the units of the part before it. -/
theorem cut_eq_some (hw : ∀ a, 0 < w a) : cut w l n = some (pre, post) ↔ l = pre ++ post ∧ n = units w pre := by
  constructor
  · intro h
    induction l generalizing n pre with
    | nil =>
      cases n with
      | zero =>
        cases h
        exact ⟨rfl, rfl⟩
      | succ n => cases h
    | cons a l ih =>
      cases n with
      | zero =>
        cases h
        exact ⟨rfl, rfl⟩
      | succ n =>
        rw [cut] at h
        split_ifs at h with hle
        obtain ⟨⟨pre', post'⟩, hcut, h⟩ := Option.map_eq_some_iff.1 h
        obtain ⟨rfl, rfl⟩ := Prod.mk.inj h
        obtain ⟨rfl, hn⟩ := ih hcut
        refine ⟨rfl, ?_⟩
        show n + 1 = units w (a :: pre')
        rw [units_cons]
        omega
  · rintro ⟨rfl, rfl⟩
    exact cut_append hw pre post

theorem cut_isSome (hw : ∀ a, 0 < w a) : (cut w l n).isSome ↔ ∃ pre, pre <+: l ∧ units w pre = n := by
  constructor
  · intro h
    obtain ⟨⟨pre, post⟩, hcut⟩ := Option.isSome_iff_exists.1 h
    obtain ⟨rfl, rfl⟩ := (cut_eq_some hw).1 hcut
    exact ⟨pre, List.prefix_append .., rfl⟩
  · rintro ⟨pre, ⟨post, rfl⟩, rfl⟩
    rw [cut_append hw]
    rfl

/-- The part between two offsets is surrounded by what they count. -/
theorem between_eq_some (hw : ∀ a, 0 < w a) {body : List α} : between w l n m = some body ↔
    ∃ pre post, l = pre ++ (body ++ post) ∧ n = units w pre ∧ m = units w pre + units w body := by
  constructor
  · intro h
    obtain ⟨⟨front, post⟩, hstop, h⟩ := Option.bind_eq_some_iff.1 h
    obtain ⟨⟨pre, body'⟩, hstart, hbody⟩ := Option.map_eq_some_iff.1 h
    obtain ⟨rfl, rfl⟩ := (cut_eq_some hw).1 hstop
    obtain ⟨rfl, rfl⟩ := (cut_eq_some hw).1 hstart
    obtain rfl : body' = body := hbody
    exact ⟨pre, post, List.append_assoc .., rfl, units_append ..⟩
  · rintro ⟨pre, post, rfl, rfl, rfl⟩
    rw [between, ← List.append_assoc, ← units_append, cut_append hw, Option.bind_some, cut_append hw]
    rfl

end

/-! ## Intervals

Of intervals in the order of their starts, the longest prefix that they cover without a gap.
-/

/-- The sweep over the intervals, with the end of what is covered so far. -/
def coveredPrefix : Nat → List (Nat × Nat) → Nat
  | covered, [] => covered
  | covered, i :: rest => if covered < i.1 then covered else coveredPrefix (max covered i.2) rest

theorem le_coveredPrefix_iff {intervals : List (Nat × Nat)} (hsorted : intervals.Pairwise (·.1 ≤ ·.1))
    (covered n : Nat) : n ≤ coveredPrefix covered intervals ↔
      ∀ u < n, u < covered ∨ ∃ i ∈ intervals, i.1 ≤ u ∧ u < i.2 := by
  induction intervals generalizing covered with
  | nil =>
    simp only [coveredPrefix, List.not_mem_nil, false_and, exists_false, or_false]
    constructor
    · intro h u hu
      omega
    · intro h
      by_contra hlt
      have hcovered := h covered (by omega)
      omega
  | cons i rest ih =>
    obtain ⟨hfirst, hrest⟩ := List.pairwise_cons.1 hsorted
    unfold coveredPrefix
    by_cases hgap : covered < i.1
    · rw [if_pos hgap]
      constructor
      · intro h u hu
        exact .inl (by omega)
      · intro h
        by_contra hlt
        -- nothing covers the first position of the gap
        rcases h covered (by omega) with hcovered | ⟨j, hj, hstart, -⟩
        · omega
        · rcases List.mem_cons.1 hj with rfl | hj
          · omega
          · have hle := hfirst j hj
            omega
    · rw [if_neg hgap, ih hrest]
      refine forall₂_congr fun u _ => ?_
      constructor
      · rintro (hmax | ⟨j, hj, hcover⟩)
        · rcases Nat.lt_or_ge u covered with hlt | hge
          · exact .inl hlt
          · exact .inr ⟨i, List.mem_cons_self, by omega, by omega⟩
        · exact .inr ⟨j, List.mem_cons_of_mem _ hj, hcover⟩
      · rintro (hlt | ⟨j, hj, hstart, hstop⟩)
        · exact .inl (by omega)
        · rcases List.mem_cons.1 hj with rfl | hj
          · exact .inl (by omega)
          · exact .inr ⟨j, hj, hstart, hstop⟩

end Lib
