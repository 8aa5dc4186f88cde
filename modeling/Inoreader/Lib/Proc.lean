import Mathlib.Logic.Basic

/-!
# Procedures

A procedure calls transactions one after another. Unlike a transaction it keeps what it did before it
fails: it returns the state it reached together with its result.
-/

namespace Lib

/-- A procedure over the state `σ`. -/
def Proc (σ ε α : Type) : Type := σ → Except ε α × σ

namespace Proc
variable {σ ε α β γ : Type}

instance : Monad (Proc σ ε) where
  pure a := fun s => (.ok a, s)
  bind m f := fun s => match m s with
    | (.ok a, s') => f a s'
    | (.error e, s') => (.error e, s')

def throw (e : ε) : Proc σ ε α := fun s => (.error e, s)

def get : Proc σ ε σ := fun s => (.ok s, s)

/-- Fail with the error of `r`. -/
def ofExcept (r : Except ε α) : Proc σ ε α := fun s => (r, s)

/-- Fail with `e` unless `p` holds. -/
def require (p : Prop) [Decidable p] (e : ε) : Proc σ ε Unit := if p then pure () else throw e

theorem pure_eq {a : α} {s s' : σ} {r : Except ε α} :
    (pure a : Proc σ ε α) s = (r, s') ↔ r = .ok a ∧ s' = s := by
  show (Except.ok a, s) = (r, s') ↔ _
  constructor
  · intro h
    cases h
    exact ⟨rfl, rfl⟩
  · rintro ⟨rfl, rfl⟩
    rfl

theorem throw_eq {e : ε} {s s' : σ} {r : Except ε α} :
    (throw e : Proc σ ε α) s = (r, s') ↔ r = .error e ∧ s' = s := by
  show (Except.error e, s) = (r, s') ↔ _
  constructor
  · intro h
    cases h
    exact ⟨rfl, rfl⟩
  · rintro ⟨rfl, rfl⟩
    rfl

/-- A sequence stops at its first failure. -/
theorem bind_eq {m : Proc σ ε α} {f : α → Proc σ ε β} {s s'' : σ} {r : Except ε β} :
    (m >>= f) s = (r, s'') ↔
      (∃ e, m s = (.error e, s'') ∧ r = .error e) ∨ ∃ a s', m s = (.ok a, s') ∧ f a s' = (r, s'') := by
  show (match m s with
    | (.ok a, s') => f a s'
    | (.error e, s') => (.error e, s')) = _ ↔ _
  rcases hm : m s with ⟨e | a, s'⟩
  · constructor
    · intro h
      cases h
      exact .inl ⟨e, rfl, rfl⟩
    · rintro (⟨e', h, rfl⟩ | ⟨a, s₁, h, -⟩)
      · cases h
        rfl
      · cases h
  · constructor
    · exact fun h => .inr ⟨a, s', rfl, h⟩
    · rintro (⟨e', h, -⟩ | ⟨a', s₁, h, h'⟩)
      · cases h
      · cases h
        exact h'

/-- The next step after one that changes nothing: it failed, or it goes on from the same state. -/
theorem bind_of_reads {m : Proc σ ε α} {f : α → Proc σ ε β} {s s'' : σ} {r : Except ε β}
    (hm : (m s).2 = s) (h : (m >>= f) s = (r, s'')) :
    (s'' = s ∧ ∃ e, r = .error e) ∨ ∃ a, m s = (.ok a, s) ∧ f a s = (r, s'') := by
  rcases bind_eq.1 h with ⟨e, he, hr⟩ | ⟨a, s', ha, hf⟩
  · rw [he] at hm
    exact .inl ⟨hm, e, hr⟩
  · have hs : s' = s := by rw [ha] at hm; exact hm
    rw [hs] at ha hf
    exact .inr ⟨a, ha, hf⟩

theorem pure_bind (a : α) (f : α → Proc σ ε β) : (pure a >>= f) = f a := rfl

theorem bind_ok {m : Proc σ ε α} {f : α → Proc σ ε β} {s s' : σ} {a : α} (h : m s = (.ok a, s')) : (m >>= f) s = f a s' :=
  bind_eq.2 (.inr ⟨a, s', h, rfl⟩)

theorem bind_error {m : Proc σ ε α} {f : α → Proc σ ε β} {s s' : σ} {e : ε} (h : m s = (.error e, s')) :
    (m >>= f) s = (.error e, s') :=
  bind_eq.2 (.inl ⟨e, h, rfl⟩)

theorem bind_pure (m : Proc σ ε α) : (m >>= pure) = m := by
  funext s
  rcases h : m s with ⟨e | a, s'⟩
  · exact bind_error h
  · exact bind_ok h

theorem bind_assoc (m : Proc σ ε α) (f : α → Proc σ ε β) (g : β → Proc σ ε γ) :
    (m >>= f >>= g) = m >>= fun a => f a >>= g := by
  funext s
  rcases h : m s with ⟨e | a, s'⟩
  · rw [bind_error h, bind_error (bind_error h)]
  · rw [bind_ok h]
    rcases hf : f a s' with ⟨e | b, s''⟩
    · rw [bind_error hf, bind_error ((bind_ok h).trans hf)]
    · rw [bind_ok hf, bind_ok ((bind_ok h).trans hf)]

/-! ## Invariants -/

/-- The procedure keeps `I`; where it fails `J` is left. -/
def Keeps (I J : σ → Prop) (m : Proc σ ε α) : Prop :=
  ∀ s, I s → (∀ a s', m s = (.ok a, s') → I s') ∧ ∀ e s', m s = (.error e, s') → J s'

section
variable {I J : σ → Prop} {m : Proc σ ε α} {f : α → Proc σ ε β}

namespace Keeps

theorem pure (a : α) : (Pure.pure a : Proc σ ε α).Keeps I J := by
  intro s hs
  constructor
  · intro b s' h
    obtain ⟨-, rfl⟩ := pure_eq.1 h
    exact hs
  · intro e s' h
    cases (pure_eq.1 h).1

theorem bind (hm : m.Keeps I J) (hf : ∀ a, (f a).Keeps I J) : (m >>= f).Keeps I J := by
  intro s hs
  rcases h : m s with ⟨e | a, s'⟩
  · rw [bind_error h]
    constructor
    · intro b s'' h'
      cases h'
    · intro e' s'' h'
      cases h'
      exact (hm s hs).2 e s' h
  · rw [bind_ok h]
    exact hf a s' ((hm s hs).1 a s' h)

theorem get : (Proc.get : Proc σ ε σ).Keeps I J := by
  intro s hs
  constructor
  · intro a s' h
    cases h
    exact hs
  · intro e s' h
    cases h

theorem throw (hweak : ∀ s, I s → J s) (e : ε) : (Proc.throw e : Proc σ ε α).Keeps I J := by
  intro s hs
  constructor
  · intro a s' h
    cases (throw_eq.1 h).1
  · intro e' s' h
    obtain ⟨-, rfl⟩ := throw_eq.1 h
    exact hweak _ hs

theorem ofExcept_bind (hweak : ∀ s, I s → J s) {r : Except ε α} (hf : ∀ a, r = .ok a → (f a).Keeps I J) :
    (ofExcept r >>= f).Keeps I J := by
  cases r with
  | error e => exact throw hweak e
  | ok a => exact hf a rfl

theorem require (hweak : ∀ s, I s → J s) {p : Prop} [Decidable p] {e : ε} : (Proc.require p e).Keeps I J := by
  unfold Proc.require
  split
  · exact pure ()
  · exact throw hweak e

theorem get_bind {f : σ → Proc σ ε β} (hf : ∀ s, I s → (∀ b s', f s s = (.ok b, s') → I s') ∧ ∀ e s', f s s = (.error e, s') → J s') :
    (Proc.get >>= f).Keeps I J := hf

end Keeps
end

end Proc
end Lib
