import Mathlib.Data.List.Basic

/-!
# Keyset paging with a filter applied after the cut

A list is read in pages of `b` rows after a cursor; only the rows that satisfy `p` are used, and the
next cursor is the last *used* row. `Visited` is the set of rows such a reader gets to see. A page
without any used row ends the reading, so exactly the rows behind `b` consecutive unused ones are
missed (`visited_iff`).
-/

namespace Lib.Paging

variable {α : Type} (key : α → Nat) (p : α → Bool) (b : Nat) (l : List α)

/-- The rows after the cursor. -/
def after : Option Nat → List α
  | none => l
  | some c => l.filter fun x => c < key x

/-- The used rows of one page. -/
def page (c : Option Nat) : List α := ((after key l c).take b).filter p

/-- The rows that reading page after page from the cursor uses. -/
inductive Visited : Option Nat → α → Prop
  | here {c : Option Nat} {x : α} (h : x ∈ page key p b l c) : Visited c x
  | next {c : Option Nat} {x y : α} (hy : (page key p b l c).getLast? = some y)
      (h : Visited (some (key y)) x) : Visited c x

/-- `b` consecutive unused rows of `m` come before `x`. -/
def Blocked (m : List α) (x : α) : Prop :=
  ∃ front window rest, m = front ++ window ++ rest ∧ window.length = b ∧
    (∀ y ∈ window, p y = false) ∧ x ∈ rest

variable {key p b l}

theorem after_eq_drop {m₁ m₂ : List α} {y : α} (hl : l.Pairwise fun x y => key x < key y)
    (hm : l = m₁ ++ y :: m₂) : after key l (some (key y)) = m₂ := by
  subst hm
  rw [List.pairwise_append, List.pairwise_cons] at hl
  obtain ⟨-, ⟨h₂, -⟩, h₁⟩ := hl
  have e₁ : m₁.filter (fun x => decide (key y < key x)) = [] := by
    rw [List.filter_eq_nil_iff]
    intro x hx
    have := h₁ x hx y (by simp)
    simp only [decide_eq_true_eq]
    omega
  have e₂ : m₂.filter (fun x => decide (key y < key x)) = m₂ := by
    rw [List.filter_eq_self]
    intro x hx
    simpa using h₂ x hx
  simp [after, List.filter_append, e₁, e₂]

theorem mem_page {c : Option Nat} {x : α} :
    x ∈ page key p b l c ↔ x ∈ (after key l c).take b ∧ p x = true := by
  simp [page]

/-- Where the last used row of a page stands among the rows after the cursor. -/
theorem getLast?_page {c : Option Nat} {y : α} (hy : (page key p b l c).getLast? = some y) :
    p y = true ∧ ∃ m₁ m₂, after key l c = m₁ ++ y :: m₂ ∧ m₁.length < b := by
  have hmem := mem_page.1 (List.mem_of_getLast? hy)
  refine ⟨hmem.2, ?_⟩
  obtain ⟨m₁, m₂, hm⟩ := List.append_of_mem hmem.1
  have hlen : ((after key l c).take b).length ≤ b := List.length_take_le b _
  rw [hm] at hlen
  refine ⟨m₁, m₂ ++ (after key l c).drop b, ?_, ?_⟩
  · conv_lhs => rw [← List.take_append_drop b (after key l c), hm]
    simp
  · simp at hlen; omega

theorem sorted_after (hl : l.Pairwise fun x y => key x < key y) (c : Option Nat) :
    (after key l c).Pairwise fun x y => key x < key y := by
  cases c with
  | none => exact hl
  | some c => exact hl.sublist List.filter_sublist

/-- The rows after the last used row are the rows that follow it. -/
theorem after_last {c : Option Nat} {y : α} {m₁ m₂ : List α} (hl : l.Pairwise fun x y => key x < key y)
    (hm : after key l c = m₁ ++ y :: m₂) : after key l (some (key y)) = m₂ := by
  have h : after key _ (some (key y)) = m₂ := after_eq_drop (sorted_after hl c) hm
  cases c with
  | none => exact h
  | some c =>
    have hy : c < key y := by
      have hmem : y ∈ after key l (some c) := by rw [hm]; simp
      simpa using (List.mem_filter.1 hmem).2
    rw [← h]
    simp only [after, List.filter_filter]
    refine List.filter_congr fun x _ => ?_
    by_cases hx : key y < key x
    · simp [hx, Nat.lt_trans hy hx]
    · simp [hx]

theorem Blocked.cons_append {m : List α} {x : α} (m₁ : List α) (h : Blocked p b m x) :
    Blocked p b (m₁ ++ m) x := by
  obtain ⟨front, window, rest, rfl, hlen, hw, hx⟩ := h
  exact ⟨m₁ ++ front, window, rest, by simp, hlen, hw, hx⟩

theorem not_blocked_of_visited (hl : l.Pairwise fun x y => key x < key y) {c : Option Nat} {x : α}
    (h : Visited key p b l c x) :
    x ∈ after key l c ∧ p x = true ∧ ¬ Blocked p b (after key l c) x := by
  induction h with
  | @here c x h =>
    obtain ⟨hx, hp⟩ := mem_page.1 h
    refine ⟨List.mem_of_mem_take hx, hp, ?_⟩
    rintro ⟨front, window, rest, he, hlen, -, hr⟩
    have hnd : (after key l c).Nodup := (sorted_after hl c).imp fun h e => by subst e; omega
    have htake : (after key l c).take b <+: front ++ window := by
      rw [he, List.take_append_of_le_length (by simp; omega)]
      exact List.take_prefix _ _
    rw [he] at hnd
    exact (List.nodup_append.1 hnd).2.2 x (htake.subset hx) x hr rfl
  | @next c x y hy _ ih =>
    obtain ⟨hpy, m₁, m₂, hm, hlt⟩ := getLast?_page hy
    rw [after_last hl hm] at ih
    obtain ⟨hx, hp, hnb⟩ := ih
    refine ⟨by rw [hm]; simp [hx], hp, ?_⟩
    rintro ⟨front, window, rest, he, hlen, hw, hr⟩
    -- the used row `y` stands in front of the window, so the window lies behind the new cursor
    have hnd : (after key l c).Nodup := (sorted_after hl c).imp fun h e => by subst e; omega
    have hcut := he.symm.trans hm
    rw [List.append_assoc] at hcut
    rcases List.append_eq_append_iff.1 hcut with ⟨t, rfl, ht⟩ | ⟨t, rfl, ht⟩
    · -- `front` ends before `y`: `y` would be in the window or the window would be too short
      rcases List.append_eq_append_iff.1 ht with ⟨u, rfl, hu⟩ | ⟨u, hu₁, hu₂⟩
      · have := hlt
        simp only [List.length_append] at this
        omega
      · cases u with
        | nil =>
          simp only [List.append_nil] at hu₁
          subst hu₁
          simp only [List.length_append] at hlt
          omega
        | cons z u =>
          simp only [List.cons_append, List.cons.injEq] at hu₂
          have : p y = false := hw y (by rw [hu₁, hu₂.1]; simp)
          rw [this] at hpy
          cases hpy
    · cases t with
      | nil =>
        simp only [List.nil_append] at ht
        cases window with
        | nil => exact hnb ⟨[], [], m₂, by simp, by simpa using hlen, by simp, hx⟩
        | cons z window =>
          simp only [List.cons_append, List.cons.injEq] at ht
          have : p y = false := hw y (by rw [ht.1]; simp)
          rw [this] at hpy
          cases hpy
      | cons z t =>
        simp only [List.cons_append, List.cons.injEq] at ht
        exact hnb ⟨t, window, rest, by rw [ht.2]; simp, hlen, hw, hr⟩

theorem visited_of_not_blocked (hl : l.Pairwise fun x y => key x < key y) {n : Nat} {c : Option Nat} {x : α}
    (hn : (after key l c).length = n) (hx : x ∈ after key l c) (hp : p x = true)
    (hb : ¬ Blocked p b (after key l c) x) : Visited key p b l c x := by
  induction n using Nat.strongRecOn generalizing c with
  | _ n ih =>
    by_cases hpage : x ∈ (after key l c).take b
    · exact .here (mem_page.2 ⟨hpage, hp⟩)
    · have hdrop : x ∈ (after key l c).drop b := by
        have := hx
        rw [← List.take_append_drop b (after key l c), List.mem_append] at this
        exact this.resolve_left hpage
      -- a full page of unused rows would block `x`
      have hne : page key p b l c ≠ [] := by
        intro hnil
        refine hb ⟨[], (after key l c).take b, (after key l c).drop b, by simp, ?_, ?_, hdrop⟩
        · have := List.length_pos_of_mem hdrop
          simp only [List.length_drop] at this
          simp only [List.length_take]
          omega
        · intro y hy
          by_contra hpy
          have : y ∈ page key p b l c := mem_page.2 ⟨hy, by simpa using hpy⟩
          rw [hnil] at this
          cases this
      obtain ⟨y, hy⟩ : ∃ y, (page key p b l c).getLast? = some y :=
        ⟨_, List.getLast?_eq_some_getLast hne⟩
      obtain ⟨hpy, m₁, m₂, hm, hlt⟩ := getLast?_page hy
      have ha := after_last hl hm
      have hx₂ : x ∈ m₂ := by
        have h := hdrop
        rw [hm, List.drop_append, List.drop_eq_nil_of_le (by omega), List.nil_append] at h
        obtain ⟨k, hk⟩ : ∃ k, b - m₁.length = k + 1 := ⟨b - m₁.length - 1, by omega⟩
        rw [hk, List.drop_succ_cons] at h
        exact List.mem_of_mem_drop h
      refine .next hy (ih (after key l (some (key y))).length ?_ rfl (by rw [ha]; exact hx₂) ?_)
      · rw [ha, ← hn, hm]; simp only [List.length_append, List.length_cons]; omega
      · rw [ha]
        intro hbl
        refine hb ?_
        rw [hm, show m₁ ++ y :: m₂ = (m₁ ++ [y]) ++ m₂ by simp]
        exact hbl.cons_append _

theorem visited_step {c : Option Nat} {x : α} : Visited key p b l c x ↔
    x ∈ page key p b l c ∨ ∃ y, (page key p b l c).getLast? = some y ∧ Visited key p b l (some (key y)) x := by
  constructor
  · intro h
    cases h with
    | here h => exact .inl h
    | next hy h => exact .inr ⟨_, hy, h⟩
  · rintro (h | ⟨y, hy, h⟩)
    · exact .here h
    · exact .next hy h

/-- A reader from the start sees exactly the used rows with no `b` consecutive unused rows before them. -/
theorem visited_iff (hl : l.Pairwise fun x y => key x < key y) {x : α} :
    Visited key p b l none x ↔ x ∈ l ∧ p x = true ∧ ¬ Blocked p b l x :=
  ⟨not_blocked_of_visited hl, fun ⟨hx, hp, hb⟩ => visited_of_not_blocked (c := none) hl rfl hx hp hb⟩

end Lib.Paging
