import Mathlib.Data.List.Basic
import Mathlib.Order.Basic

/-!
# Keyset pages

The rows of a list are read in pages of `n`, each page after the cursor of the one before. The rows that a cursor leaves
are those whose keys come behind it in the order `r`, so the order of the list is the order of reading. A walk is exact if
the cursor of a row separates the rows like its key.
-/

namespace Lib.Keyset
variable {α κ : Type}

/-- A page from every cursor, with the cursor of the next one; following them to the end gives the pages of a walk. -/
inductive Walk (page : Option κ → List α × Option κ) : Option κ → List (List α) → Prop
  | last {c : Option κ} (h : (page c).2 = none) : Walk page c [(page c).1]
  | more {c : Option κ} {c' : κ} {pages : List (List α)} (h : (page c).2 = some c') (hrest : Walk page (some c') pages) :
    Walk page c ((page c).1 :: pages)

theorem Walk.unique {page : Option κ → List α × Option κ} {c : Option κ} {pages pages' : List (List α)}
    (h : Walk page c pages) (h' : Walk page c pages') : pages = pages' := by
  induction h generalizing pages' with
  | last hlast =>
    cases h' with
    | last _ => rfl
    | more hmore _ =>
      rw [hlast] at hmore
      cases hmore
  | more hmore _ ih =>
    cases h' with
    | last hlast =>
      rw [hmore] at hlast
      cases hlast
    | more hmore' hrest' =>
      rw [hmore] at hmore'
      cases hmore'
      rw [ih hrest']

/-- The rows of the first page are read. -/
theorem Walk.first {page : Option κ → List α × Option κ} {c : Option κ} {pages : List (List α)} (h : Walk page c pages)
    {x : α} (hx : x ∈ (page c).1) : x ∈ pages.flatten := by
  cases h with
  | last _ =>
    rw [List.flatten_singleton]
    exact hx
  | more _ _ =>
    rw [List.flatten_cons]
    exact List.mem_append_left _ hx

/-- Pages that show the same rows in another way, with cursors of another kind for the same places. -/
structure Simulates {κ' : Type} (page : Option κ → List α × Option κ) (page' : Option κ' → List α × Option κ')
    (f : List α → List α) (R : Option κ → Option κ' → Prop) : Prop where
  rows {c c'} : R c c' → (page' c').1 = f (page c).1
  next {c c'} : R c c' → ((page c).2 = none ∧ (page' c').2 = none) ∨
    ∃ k k', (page c).2 = some k ∧ (page' c').2 = some k' ∧ R (some k) (some k')

theorem Walk.simulate {κ' : Type} {page : Option κ → List α × Option κ} {page' : Option κ' → List α × Option κ'}
    {f : List α → List α} {R : Option κ → Option κ' → Prop} (hsim : Simulates page page' f R) {c : Option κ}
    {c' : Option κ'} (hc : R c c') {pages : List (List α)} (h : Walk page c pages) : Walk page' c' (pages.map f) := by
  induction h generalizing c' with
  | last hlast =>
    rw [List.map_singleton, ← hsim.rows hc]
    refine .last ?_
    rcases hsim.next hc with ⟨-, hnone⟩ | ⟨k, k', hk, -, -⟩
    · exact hnone
    · rw [hlast] at hk
      cases hk
  | more hmore _ ih =>
    rw [List.map_cons, ← hsim.rows hc]
    rcases hsim.next hc with ⟨hnone, -⟩ | ⟨k, k', hk, hk', hR⟩
    · rw [hmore] at hnone
      cases hnone
    · rw [hmore] at hk
      cases hk
      exact .more hk' (ih hR)

section
variable (r : κ → κ → Prop) [DecidableRel r] (key : α → κ)

/-- The rows behind a cursor. -/
def behind (l : List α) : Option κ → List α
  | none => l
  | some c => l.filter fun x => r (key x) c

/-- The rows of a page; one row more than the page is read to learn whether there is a next one. -/
def read (n : Nat) (l : List α) (c : Option κ) : List α × Bool :=
  let rows := (behind r key l c).take (n + 1)
  (rows.take n, decide (n < rows.length))

/-- A page and the cursor of its last row, if more rows follow. -/
def step (cursor : α → κ) (n : Nat) (l : List α) (c : Option κ) : List α × Option κ :=
  ((read r key n l c).1, if (read r key n l c).2 then (read r key n l c).1.getLast?.map cursor else none)

/-- The rows stand in the order of reading. -/
def Ordered (l : List α) : Prop := l.Pairwise fun x y => r (key y) (key x)

variable {r key} {cursor : α → κ} {n : Nat} {l : List α} {c : Option κ}

theorem read_eq : read r key n l c = ((behind r key l c).take n, decide (n < (behind r key l c).length)) := by
  unfold read
  dsimp only
  rw [List.take_take, Nat.min_eq_left (Nat.le_succ n), List.length_take]
  congr 2
  exact propext (by omega)

theorem mem_behind {x : α} : x ∈ behind r key l c ↔ x ∈ l ∧ ∀ k, c = some k → r (key x) k := by
  cases c with
  | none => simp [behind]
  | some k => simp [behind]

theorem behind_sublist (c : Option κ) : (behind r key l c).Sublist l := by
  cases c with
  | none => exact List.Sublist.refl _
  | some c => exact List.filter_sublist

theorem Ordered.behind (h : Ordered r key l) (c : Option κ) : Ordered r key (behind r key l c) :=
  h.sublist (behind_sublist c)

theorem step_last (h : ¬ n < (behind r key l c).length) : step r key cursor n l c = (behind r key l c, none) := by
  unfold step
  rw [read_eq, decide_eq_false h, List.take_of_length_le (Nat.le_of_not_lt h)]
  rfl

/-- A page with rows behind it ends with the row that the next one begins after. -/
theorem step_more (cursor : α → κ) (hn : 0 < n) (h : n < (behind r key l c).length) :
    ∃ m x m₂, behind r key l c = (m ++ [x]) ++ m₂ ∧ (m ++ [x]).length = n ∧
      step r key cursor n l c = (m ++ [x], some (cursor x)) := by
  have hlength : ((behind r key l c).take n).length = n := by
    rw [List.length_take]
    omega
  rcases List.eq_nil_or_concat ((behind r key l c).take n) with hnil | ⟨m, x, hx⟩
  · rw [hnil] at hlength
    simp at hlength
    omega
  · rw [List.concat_eq_append] at hx
    refine ⟨m, x, (behind r key l c).drop n, ?_, ?_, ?_⟩
    · rw [← hx, List.take_append_drop]
    · rw [← hx, hlength]
    · unfold step
      rw [read_eq, decide_eq_true h, hx, if_pos rfl, List.getLast?_concat]
      rfl

variable [Std.Asymm r]

/-- A page from a cursor before its row has that row again, or one that comes before it. -/
theorem read_repeats (h : Ordered r key l) (hn : 0 < n) {a : α} (ha : a ∈ l) {k : κ} (hk : r (key a) k) :
    ∃ m ∈ (read r key n l (some k)).1, m ∉ behind r key l (some (key a)) := by
  have hmem : a ∈ behind r key l (some k) := by
    rw [mem_behind]
    refine ⟨ha, fun k' hk' => ?_⟩
    cases hk'
    exact hk
  obtain ⟨m, rest, hrows⟩ : ∃ m rest, behind r key l (some k) = m :: rest :=
    List.exists_cons_of_ne_nil (List.ne_nil_of_mem hmem)
  refine ⟨m, ?_, fun hin => ?_⟩
  · rw [read_eq, hrows]
    obtain ⟨n', rfl⟩ := Nat.exists_eq_succ_of_ne_zero (Nat.pos_iff_ne_zero.1 hn)
    rw [List.take_succ_cons]
    exact List.mem_cons_self
  · have hma : r (key m) (key a) := (mem_behind.1 hin).2 _ rfl
    rw [hrows] at hmem
    rcases List.mem_cons.1 hmem with rfl | hrest
    · exact Std.Asymm.asymm _ _ hma hma
    · have hordered := h.behind (some k)
      rw [hrows] at hordered
      exact Std.Asymm.asymm _ _ hma ((List.pairwise_cons.1 hordered).1 a hrest)

variable [IsTrans κ r]

/-- The rows behind a row are those that follow it. -/
theorem behind_key (h : Ordered r key l) {m₁ m₂ : List α} {x : α} (hc : behind r key l c = m₁ ++ x :: m₂) :
    behind r key l (some (key x)) = m₂ := by
  have hordered := h.behind c
  rw [hc] at hordered
  obtain ⟨-, hx, hm⟩ := List.pairwise_append.1 hordered
  have hfirst : m₁.filter (fun y => r (key y) (key x)) = [] := by
    rw [List.filter_eq_nil_iff]
    intro y hy hyx
    exact Std.Asymm.asymm _ _ (hm y hy x List.mem_cons_self) (of_decide_eq_true hyx)
  have hself : (decide (r (key x) (key x))) = false :=
    decide_eq_false fun hxx => Std.Asymm.asymm _ _ hxx hxx
  have hlast : m₂.filter (fun y => r (key y) (key x)) = m₂ := by
    rw [List.filter_eq_self]
    exact fun y hy => decide_eq_true ((List.pairwise_cons.1 hx).1 y hy)
  have hbehind : (behind r key l c).filter (fun y => r (key y) (key x)) = behind r key l (some (key x)) := by
    cases c with
    | none => rfl
    | some k =>
      have hxk : r (key x) k := by
        have hmem : x ∈ behind r key l (some k) := by
          rw [hc]
          simp
        exact (mem_behind.1 hmem).2 k rfl
      unfold behind
      rw [List.filter_filter]
      refine List.filter_congr fun y _ => ?_
      by_cases hy : r (key y) (key x)
      · simp [hy, trans_of r hy hxk]
      · simp [hy]
  rw [← hbehind, hc, List.filter_append, hfirst, List.nil_append, List.filter_cons, hself, hlast]
  rfl

/-- A walk with cursors that separate the rows like their keys reads every row behind its start once, in order, and
there is a next page only for further rows. -/
theorem exists_walk (cursor : α → κ) (h : Ordered r key l) (hn : 0 < n)
    (hcursor : ∀ x ∈ l, ∀ y ∈ l, r (key y) (cursor x) ↔ r (key y) (key x)) (c : Option κ) :
    ∃ pages, Walk (step r key cursor n l) c pages ∧ pages.flatten = behind r key l c ∧ ∀ p ∈ pages.tail, p ≠ [] := by
  induction hlength : (behind r key l c).length using Nat.strongRecOn generalizing c with
  | _ length ih =>
    by_cases hmore : n < (behind r key l c).length
    · obtain ⟨m, x, m₂, hrows, hm, hstep⟩ := step_more cursor hn hmore
      have hx : x ∈ l := by
        have hmem : x ∈ behind r key l c := by
          rw [hrows]
          simp
        exact (mem_behind.1 hmem).1
      have hrest : behind r key l (some (cursor x)) = m₂ := by
        have hsame : behind r key l (some (cursor x)) = behind r key l (some (key x)) := by
          refine List.filter_congr fun y hy => ?_
          exact decide_eq_decide.2 (hcursor x hx y hy)
        rw [hsame]
        exact behind_key h (by rw [hrows, List.append_assoc, List.singleton_append])
      have hless : m₂.length < length := by
        rw [← hlength, hrows, List.length_append, hm]
        omega
      obtain ⟨pages, hwalk, hflatten, hne⟩ := ih m₂.length hless (some (cursor x)) (by rw [hrest])
      have hnext : (step r key cursor n l c).2 = some (cursor x) := by rw [hstep]
      refine ⟨_, .more hnext hwalk, ?_, ?_⟩
      · rw [List.flatten_cons, hflatten, hrest, hstep, hrows]
      · intro p hp
        have hp : p ∈ pages := hp
        cases hwalk with
        | last hlast =>
          rw [List.mem_singleton.1 hp]
          intro hnil
          rw [List.flatten_singleton, hnil] at hflatten
          rw [hrest] at hflatten
          rw [hrows, ← hflatten, List.append_nil, hm] at hmore
          exact Nat.lt_irrefl _ hmore
        | more hmore' _ =>
          rcases List.mem_cons.1 hp with rfl | hp
          · by_cases hagain : n < (behind r key l (some (cursor x))).length
            · obtain ⟨m', x', _, -, -, hstep'⟩ := step_more cursor hn hagain
              rw [hstep']
              simp
            · rw [step_last hagain] at hmore'
              cases hmore'
          · exact hne p hp
    · refine ⟨_, .last (by rw [step_last hmore]), ?_, fun p hp => absurd hp List.not_mem_nil⟩
      rw [List.flatten_singleton, step_last hmore]

end
end Lib.Keyset
