import Mathlib.Data.List.Sort

/-!
# Sorting by columns

`ORDER BY` with several columns: a later column decides between rows that the earlier ones do not separate. Rows that
the columns separate stand in one order only, in whatever order the tables give them.
-/

namespace Lib.OrderBy
variable {α : Type}

/-- Columns that compare rows, the first one first. -/
def before : List (α → α → Bool) → α → α → Bool
  | [], _, _ => true
  | c :: cs, a, b => c a b && (!c b a || before cs a b)

def sort (cs : List (α → α → Bool)) (l : List α) : List α := l.insertionSort fun a b => before cs a b = true

/-- A column compares any two rows. -/
structure Column (c : α → α → Bool) : Prop where
  total : ∀ a b, c a b = true ∨ c b a = true
  trans : ∀ a b d, c a b = true → c b d = true → c a d = true

/-- No two rows of the list are the same in every column. -/
def Separates (cs : List (α → α → Bool)) (l : List α) : Prop :=
  ∀ a ∈ l, ∀ b ∈ l, (∀ c ∈ cs, c a b = true ∧ c b a = true) → a = b

variable {cs : List (α → α → Bool)} {l l' : List α} {a b : α}

theorem before_cons {c : α → α → Bool} :
    before (c :: cs) a b = true ↔ c a b = true ∧ (c b a = true → before cs a b = true) := by
  rw [before, Bool.and_eq_true, Bool.or_eq_true]
  cases c b a <;> simp

theorem Column.of_key {κ : Type} [LinearOrder κ] (key : α → κ) : Column fun a b => decide (key a ≤ key b) where
  total a b := by simpa using le_total (key a) (key b)
  trans a b d h h' := by simpa using le_trans (of_decide_eq_true h) (of_decide_eq_true h')

/-- The columns together compare any two rows. -/
theorem Column.before (h : ∀ c ∈ cs, Column c) : Column (before cs) := by
  induction cs with
  | nil => exact ⟨fun _ _ => .inl rfl, fun _ _ _ _ _ => rfl⟩
  | cons c cs ih =>
    have hc := h c List.mem_cons_self
    have hcs := ih fun c' hc' => h c' (List.mem_cons_of_mem _ hc')
    constructor
    · intro a b
      simp only [before_cons]
      rcases Bool.eq_false_or_eq_true (c a b) with hab | hab
      · rcases Bool.eq_false_or_eq_true (c b a) with hba | hba
        · rcases hcs.total a b with hrest | hrest
          · exact .inl ⟨hab, fun _ => hrest⟩
          · exact .inr ⟨hba, fun _ => hrest⟩
        · exact .inl ⟨hab, fun hba' => by rw [hba] at hba'; cases hba'⟩
      · have hba : c b a = true := (hc.total a b).resolve_left (by rw [hab]; exact Bool.false_ne_true)
        exact .inr ⟨hba, fun hab' => by rw [hab] at hab'; cases hab'⟩
    · intro a b d hab hbd
      rw [before_cons] at hab hbd ⊢
      refine ⟨hc.trans a b d hab.1 hbd.1, fun hda => ?_⟩
      have hba : c b a = true := hc.trans b d a hbd.1 hda
      have hdb : c d b = true := hc.trans d a b hda hab.1
      exact hcs.trans a b d (hab.2 hba) (hbd.2 hdb)

/-- Rows before each other are the same in every column. -/
theorem same_of_before (hab : before cs a b = true) (hba : before cs b a = true) :
    ∀ c ∈ cs, c a b = true ∧ c b a = true := by
  induction cs with
  | nil => exact fun c hc => absurd hc List.not_mem_nil
  | cons c cs ih =>
    rw [before_cons] at hab hba
    intro c' hc'
    rcases List.mem_cons.1 hc' with rfl | hc'
    · exact ⟨hab.1, hba.1⟩
    · exact ih (hab.2 hba.1) (hba.2 hab.1) c' hc'

theorem sort_perm (cs : List (α → α → Bool)) (l : List α) : (sort cs l).Perm l := List.perm_insertionSort _ l

theorem sort_pairwise (h : ∀ c ∈ cs, Column c) (l : List α) : (sort cs l).Pairwise fun a b => before cs a b = true := by
  have hcs := Column.before h
  have : Std.Total fun a b => before cs a b = true := ⟨hcs.total⟩
  have : IsTrans α fun a b => before cs a b = true := ⟨hcs.trans⟩
  exact List.pairwise_insertionSort _ l

/-- The order of the rows before sorting is not seen afterwards. -/
theorem sort_eq_of_perm (h : ∀ c ∈ cs, Column c) (hsep : Separates cs l) (hperm : l.Perm l') :
    sort cs l = sort cs l' := by
  refine List.Perm.eq_of_pairwise ?_ (sort_pairwise h l) (sort_pairwise h l')
    ((sort_perm cs l).trans (hperm.trans (sort_perm cs l').symm))
  intro a b ha hb hab hba
  exact hsep a ((sort_perm cs l).mem_iff.1 ha) b (hperm.mem_iff.2 ((sort_perm cs l').mem_iff.1 hb))
    (same_of_before hab hba)

/-- Of two rows of a list, one comes first. -/
theorem pairwise_or {R : α → α → Prop} (h : l.Pairwise R) (ha : a ∈ l) (hb : b ∈ l) (hne : a ≠ b) : R a b ∨ R b a := by
  induction h with
  | nil => exact absurd ha List.not_mem_nil
  | @cons x l hx _ ih =>
    rcases List.mem_cons.1 ha with rfl | ha'
    · rcases List.mem_cons.1 hb with rfl | hb'
      · exact absurd rfl hne
      · exact .inl (hx b hb')
    · rcases List.mem_cons.1 hb with rfl | hb'
      · exact .inr (hx a ha')
      · exact ih ha' hb'

end Lib.OrderBy
