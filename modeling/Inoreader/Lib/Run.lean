import Mathlib.Logic.Basic

/-!
# Runs of a step function

A system is a partial step function; a run is a list of labels whose steps are all enabled. `Along P`
says that every step of a run meets `P` in the state it starts from, `States` lists the states a run
passes through.
-/

namespace Lib

variable {σ l : Type}

/-- The state after the labels, if every step is enabled. -/
def run (step : σ → l → Option σ) : σ → List l → Option σ
  | s, [] => some s
  | s, a :: as => (step s a).bind fun s' => run step s' as

/-- Every step of the run from `s` satisfies `P`, which sees the state before the step. -/
def Along (step : σ → l → Option σ) (P : σ → l → Prop) : σ → List l → Prop
  | _, [] => True
  | s, a :: as => P s a ∧ ∀ s', step s a = some s' → Along step P s' as

instance decidableAlong (step : σ → l → Option σ) (P : σ → l → Prop) [∀ s a, Decidable (P s a)] :
    ∀ s as, Decidable (Along step P s as)
  | _, [] => inferInstanceAs (Decidable True)
  | s, a :: as =>
    match h : step s a with
    | some s' =>
      have := decidableAlong step P s' as
      decidable_of_iff (P s a ∧ Along step P s' as) (by simp [Along, h])
    | none => decidable_of_iff (P s a) (by simp [Along, h])

variable {step : σ → l → Option σ}

theorem run_cons {s s'' : σ} {a : l} {as : List l} :
    run step s (a :: as) = some s'' ↔ ∃ s', step s a = some s' ∧ run step s' as = some s'' := by
  simp [run, Option.bind_eq_some_iff]

theorem run_append {s s'' : σ} {as bs : List l} :
    run step s (as ++ bs) = some s'' ↔ ∃ s', run step s as = some s' ∧ run step s' bs = some s'' := by
  induction as generalizing s with
  | nil => simp [run]
  | cons a as ih =>
    rw [List.cons_append, run_cons]
    simp only [ih]
    constructor
    · rintro ⟨s₁, h₁, s₂, h₂, h₃⟩
      exact ⟨s₂, run_cons.2 ⟨s₁, h₁, h₂⟩, h₃⟩
    · rintro ⟨s₂, h₂, h₃⟩
      obtain ⟨s₁, h₁, h₂⟩ := run_cons.1 h₂
      exact ⟨s₁, h₁, s₂, h₂, h₃⟩

/-- A run that is enabled ends in the state it computes. -/
theorem run_getD {s : σ} {as : List l} (h : (run step s as).isSome) (d : σ) :
    run step s as = some ((run step s as).getD d) := by
  obtain ⟨s', hs'⟩ := Option.isSome_iff_exists.1 h
  rw [hs']
  rfl

/-- The invariant rule: what holds at the start and survives every step that meets `P` holds at the end. -/
theorem run_inv {P : σ → l → Prop} (I : σ → Prop)
    (hstep : ∀ s a s', I s → P s a → step s a = some s' → I s') {s s' : σ} {as : List l} (hI : I s)
    (hP : Along step P s as) (hrun : run step s as = some s') : I s' := by
  induction as generalizing s with
  | nil => cases hrun; exact hI
  | cons a as ih =>
    obtain ⟨s₁, h₁, h₂⟩ := run_cons.1 hrun
    exact ih (hstep s a s₁ hI hP.1 h₁) (hP.2 s₁ h₁) h₂

theorem along_true (s : σ) (as : List l) : Along step (fun _ _ => True) s as := by
  induction as generalizing s with
  | nil => trivial
  | cons a as ih => exact ⟨trivial, fun s' _ => ih s'⟩

theorem along_of_forall {Q : l → Prop} (s : σ) {as : List l} (h : ∀ a ∈ as, Q a) :
    Along step (fun _ a => Q a) s as := by
  induction as generalizing s with
  | nil => trivial
  | cons a as ih => exact ⟨h a (by simp), fun s' _ => ih s' fun b hb => h b (by simp [hb])⟩

/-- `run_inv` without a condition on the steps. -/
theorem run_inv' (I : σ → Prop) (hstep : ∀ s a s', I s → step s a = some s' → I s') {s s' : σ} {as : List l}
    (hI : I s) (hrun : run step s as = some s') : I s' :=
  run_inv (P := fun _ _ => True) I (fun s a s' h _ => hstep s a s' h) hI (along_true s as) hrun

theorem Along.mono {P Q : σ → l → Prop} {s : σ} {as : List l} (h : Along step P s as)
    (hPQ : ∀ s a, P s a → Q s a) : Along step Q s as := by
  induction as generalizing s with
  | nil => trivial
  | cons a as ih => exact ⟨hPQ s a h.1, fun s' hs' => ih (h.2 s' hs')⟩

theorem along_append {P : σ → l → Prop} {s s' : σ} {as bs : List l} (hrun : run step s as = some s') :
    Along step P s (as ++ bs) ↔ Along step P s as ∧ Along step P s' bs := by
  induction as generalizing s with
  | nil => cases hrun; simp [Along]
  | cons a as ih =>
    obtain ⟨s₁, h₁, h₂⟩ := run_cons.1 hrun
    have hi := ih h₂
    constructor
    · rintro ⟨ha, h⟩
      have := hi.1 (h s₁ h₁)
      refine ⟨⟨ha, fun t ht => ?_⟩, this.2⟩
      rw [h₁] at ht; cases ht
      exact this.1
    · rintro ⟨⟨ha, h⟩, hb⟩
      refine ⟨ha, fun t ht => ?_⟩
      rw [h₁] at ht; cases ht
      exact hi.2 ⟨h s₁ h₁, hb⟩

/-- `Along` with an invariant at hand: the condition may use what holds in every state of the run. -/
theorem along_of_inv {P Q : σ → l → Prop} (I : σ → Prop)
    (hstep : ∀ s a s', I s → P s a → step s a = some s' → I s') (hQ : ∀ s a, I s → P s a → Q s a)
    {s : σ} {as : List l} (hI : I s) (hP : Along step P s as) : Along step Q s as := by
  induction as generalizing s with
  | nil => trivial
  | cons a as ih =>
    exact ⟨hQ s a hI hP.1, fun s' hs' => ih (hstep s a s' hI hP.1 hs') (hP.2 s' hs')⟩

/-- The invariant rule where the invariant may speak of the steps so far. -/
theorem run_inv_past (I : List l → σ → Prop)
    (hstep : ∀ past s a s', I past s → step s a = some s' → I (past ++ [a]) s') {past as : List l} {s s' : σ}
    (hI : I past s) (hrun : run step s as = some s') : I (past ++ as) s' := by
  induction as generalizing s past with
  | nil =>
    cases hrun
    rwa [List.append_nil]
  | cons a as ih =>
    obtain ⟨s₁, h₁, h₂⟩ := run_cons.1 hrun
    have h := ih (hstep past s a s₁ hI h₁) h₂
    rwa [List.append_assoc] at h

end Lib
