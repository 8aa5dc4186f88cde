import Mathlib.Logic.Basic
import Mathlib.Logic.Relation

/-!
# Transactions

`Tx σ ε α` reads and writes a state of type `σ` and either returns a value with the new state or
fails; a failed transaction has no new state, so nothing it wrote is visible (`commit`). `wp m Q s`
says that `Q` holds of the outcome if `m` succeeds from `s`, `fails m E s` that `E` holds of its error
if it fails.
-/

namespace Lib

/-- A transaction over the state `σ`. -/
def Tx (σ ε α : Type) : Type := σ → Except ε (α × σ)

namespace Tx
variable {σ ε α β : Type}

instance : Monad (Tx σ ε) where
  pure a := fun s => .ok (a, s)
  bind m f := fun s => match m s with
    | .ok (a, s') => f a s'
    | .error e => .error e

def get : Tx σ ε σ := fun s => .ok (s, s)

def modify (f : σ → σ) : Tx σ ε Unit := fun s => .ok ((), f s)

def throw (e : ε) : Tx σ ε α := fun _ => .error e

/-- Fail with `e` unless the row is there. -/
def orThrow (o : Option α) (e : ε) : Tx σ ε α :=
  match o with
  | some a => pure a
  | none => throw e

/-- Fail with `e` unless `p` holds. -/
def require (p : Prop) [Decidable p] (e : ε) : Tx σ ε Unit := if p then pure () else throw e

/-- `if p { m }`. -/
def onlyIf (p : Prop) [Decidable p] (m : Tx σ ε Unit) : Tx σ ε Unit := if p then m else pure ()

/-- The loop `for x in xs { acc = f(acc, x) }`. -/
def loop (f : α → β → Tx σ ε α) : α → List β → Tx σ ε α
  | acc, [] => pure acc
  | acc, x :: xs => do loop f (← f acc x) xs

/-- The state other transactions see after `m` ended. -/
def commit (m : Tx σ ε α) (s : σ) : σ :=
  match m s with
  | .ok (_, s') => s'
  | .error _ => s

/-- `Q` holds of the value and the state of `m` if it succeeds from `s`. -/
def wp (m : Tx σ ε α) (Q : α → σ → Prop) (s : σ) : Prop := ∀ a s', m s = .ok (a, s') → Q a s'

/-- `E` holds of the error of `m` if it fails from `s`. -/
def fails (m : Tx σ ε α) (E : ε → Prop) (s : σ) : Prop := ∀ e, m s = .error e → E e

theorem pure_run (a : α) (s : σ) : (pure a : Tx σ ε α) s = .ok (a, s) := rfl

theorem bind_run (m : Tx σ ε α) (f : α → Tx σ ε β) (s : σ) :
    (m >>= f) s = match m s with
      | .ok (a, s') => f a s'
      | .error e => .error e := rfl

theorem get_run (s : σ) : (get : Tx σ ε σ) s = .ok (s, s) := rfl

theorem modify_run (f : σ → σ) (s : σ) : (modify f : Tx σ ε Unit) s = .ok ((), f s) := rfl

theorem throw_run (e : ε) (s : σ) : (throw e : Tx σ ε α) s = .error e := rfl

theorem bind_ok {m : Tx σ ε α} {f : α → Tx σ ε β} {s s'' : σ} {b : β} :
    (m >>= f) s = .ok (b, s'') ↔ ∃ a s', m s = .ok (a, s') ∧ f a s' = .ok (b, s'') := by
  rw [bind_run]
  cases h : m s with
  | ok r =>
    obtain ⟨a, s'⟩ := r
    constructor
    · exact fun hf => ⟨a, s', rfl, hf⟩
    · rintro ⟨_, _, hm, hf⟩
      cases hm
      exact hf
  | error e => simp

theorem bind_of_ok {m : Tx σ ε α} {f : α → Tx σ ε β} {s s' : σ} {a : α} (h : m s = .ok (a, s')) :
    (m >>= f) s = f a s' := by
  rw [bind_run, h]

theorem bind_of_error {m : Tx σ ε α} {f : α → Tx σ ε β} {s : σ} {e : ε} (h : m s = .error e) :
    (m >>= f) s = .error e := by
  rw [bind_run, h]

theorem orThrow_some (a : α) (e : ε) (s : σ) : (orThrow (some a) e : Tx σ ε α) s = .ok (a, s) := rfl

theorem require_pos {p : Prop} [Decidable p] {e : ε} {s : σ} (h : p) : (require p e : Tx σ ε Unit) s = .ok ((), s) := by
  rw [require, if_pos h, pure_run]

theorem require_neg {p : Prop} [Decidable p] {e : ε} {s : σ} (h : ¬ p) : (require p e : Tx σ ε Unit) s = .error e := by
  rw [require, if_neg h, throw_run]

theorem bind_get_ok {f : σ → Tx σ ε β} {s s' : σ} {b : β} : (get >>= f) s = .ok (b, s') ↔ f s s = .ok (b, s') := Iff.rfl

theorem bind_orThrow_ok {o : Option α} {e : ε} {f : α → Tx σ ε β} {s s' : σ} {b : β} :
    (orThrow o e >>= f) s = .ok (b, s') ↔ ∃ a, o = some a ∧ f a s = .ok (b, s') := by
  cases o with
  | none => simp [orThrow, bind_run, throw_run]
  | some a => simp [orThrow, bind_run, pure_run]

theorem require_ok {p : Prop} [Decidable p] {e : ε} {s s' : σ} {u : Unit} :
    (require p e : Tx σ ε Unit) s = .ok (u, s') ↔ p ∧ s' = s := by
  by_cases h : p
  · simp [require, h, pure_run, eq_comm]
  · simp [require, h, throw_run]

theorem bind_require_ok {p : Prop} [Decidable p] {e : ε} {f : Unit → Tx σ ε β} {s s' : σ} {b : β} :
    (require p e >>= f) s = .ok (b, s') ↔ p ∧ f () s = .ok (b, s') := by
  by_cases h : p
  · simp [require, h, bind_run, pure_run]
  · simp [require, h, bind_run, throw_run]

theorem commit_of_ok {m : Tx σ ε α} {s s' : σ} {a : α} (h : m s = .ok (a, s')) : m.commit s = s' := by
  simp [commit, h]

theorem commit_of_error {m : Tx σ ε α} {s : σ} {e : ε} (h : m s = .error e) : m.commit s = s := by
  simp [commit, h]

/-- A transaction that succeeds ends in the state it commits. -/
theorem ok_commit {m : Tx σ ε Unit} {s : σ} (h : (m s).isOk = true) : m s = .ok ((), m.commit s) := by
  cases hm : m s with
  | ok r => rw [commit_of_ok hm]
  | error e =>
    rw [hm] at h
    cases h

/-- A property of the state that `m` keeps when it succeeds is kept by its commit. -/
theorem commit_of_wp {m : Tx σ ε α} {s : σ} {P : σ → Prop} (hs : P s) (h : wp m (fun _ s' => P s') s) :
    P (m.commit s) := by
  cases hm : m s with
  | ok r => rw [commit_of_ok hm]; exact h r.1 r.2 hm
  | error e => rw [commit_of_error hm]; exact hs

theorem wp_mono {m : Tx σ ε α} {Q Q' : α → σ → Prop} {s : σ} (h : wp m Q s)
    (hQ : ∀ a s', Q a s' → Q' a s') : wp m Q' s :=
  fun a s' hm => hQ a s' (h a s' hm)

theorem wp_and {m : Tx σ ε α} {Q Q' : α → σ → Prop} {s : σ} (h : wp m Q s) (h' : wp m Q' s) :
    wp m (fun a s' => Q a s' ∧ Q' a s') s :=
  fun a s' hm => ⟨h a s' hm, h' a s' hm⟩

theorem wp_of_error {m : Tx σ ε α} {Q : α → σ → Prop} {s : σ} {e : ε} (h : m s = .error e) : wp m Q s := by
  intro a s' hm
  rw [h] at hm
  cases hm

@[simp] theorem wp_pure (a : α) (Q : α → σ → Prop) (s : σ) : wp (pure a : Tx σ ε α) Q s ↔ Q a s := by
  constructor
  · exact fun h => h a s rfl
  · intro h b s' hb
    cases hb
    exact h

@[simp] theorem wp_bind (m : Tx σ ε α) (f : α → Tx σ ε β) (Q : β → σ → Prop) (s : σ) :
    wp (m >>= f) Q s ↔ wp m (fun a s' => wp (f a) Q s') s := by
  constructor
  · intro h a s' hm b s'' hf
    exact h b s'' (bind_ok.2 ⟨a, s', hm, hf⟩)
  · intro h b s'' hb
    obtain ⟨a, s', hm, hf⟩ := bind_ok.1 hb
    exact h a s' hm b s'' hf

@[simp] theorem wp_get (Q : σ → σ → Prop) (s : σ) : wp (get : Tx σ ε σ) Q s ↔ Q s s :=
  wp_pure (ε := ε) s Q s

@[simp] theorem wp_modify (f : σ → σ) (Q : Unit → σ → Prop) (s : σ) :
    wp (modify f : Tx σ ε Unit) Q s ↔ Q () (f s) := by
  constructor
  · exact fun h => h () (f s) rfl
  · intro h b s' hb
    cases hb
    exact h

@[simp] theorem wp_throw (e : ε) (Q : α → σ → Prop) (s : σ) : wp (throw e : Tx σ ε α) Q s :=
  wp_of_error rfl

@[simp] theorem wp_orThrow (o : Option α) (e : ε) (Q : α → σ → Prop) (s : σ) :
    wp (orThrow o e : Tx σ ε α) Q s ↔ ∀ a, o = some a → Q a s := by
  cases o with
  | none => simp [orThrow]
  | some a => simp [orThrow]

@[simp] theorem wp_require (p : Prop) [Decidable p] (e : ε) (Q : Unit → σ → Prop) (s : σ) :
    wp (require p e : Tx σ ε Unit) Q s ↔ (p → Q () s) := by
  unfold require
  split <;> simp [*]

@[simp] theorem wp_ite (p : Prop) [Decidable p] (m m' : Tx σ ε α) (Q : α → σ → Prop) (s : σ) :
    wp (if p then m else m') Q s ↔ if p then wp m Q s else wp m' Q s := by
  split <;> rfl

@[simp] theorem wp_onlyIf (p : Prop) [Decidable p] (m : Tx σ ε Unit) (Q : Unit → σ → Prop) (s : σ) :
    wp (onlyIf p m) Q s ↔ if p then wp m Q s else Q () s := by
  unfold onlyIf
  split <;> simp

@[simp] theorem fails_pure (a : α) (E : ε → Prop) (s : σ) : fails (pure a : Tx σ ε α) E s := by
  intro e h
  cases h

@[simp] theorem fails_bind (m : Tx σ ε α) (f : α → Tx σ ε β) (E : ε → Prop) (s : σ) :
    fails (m >>= f) E s ↔ fails m E s ∧ wp m (fun a s' => fails (f a) E s') s := by
  unfold fails wp
  simp only [bind_run]
  cases m s with
  | ok r =>
    obtain ⟨a, s'⟩ := r
    simp only [Except.ok.injEq, Prod.mk.injEq, reduceCtorEq, false_implies, implies_true, true_and]
    constructor
    · rintro h _ _ ⟨rfl, rfl⟩
      exact h
    · exact fun h => h a s' ⟨rfl, rfl⟩
  | error e => simp

@[simp] theorem fails_get (E : ε → Prop) (s : σ) : fails (get : Tx σ ε σ) E s := by
  intro e h
  cases h

@[simp] theorem fails_modify (f : σ → σ) (E : ε → Prop) (s : σ) : fails (modify f : Tx σ ε Unit) E s := by
  intro e h
  cases h

@[simp] theorem fails_throw (e : ε) (E : ε → Prop) (s : σ) : fails (throw e : Tx σ ε α) E s ↔ E e := by
  simp [fails, throw]

@[simp] theorem fails_orThrow (o : Option α) (e : ε) (E : ε → Prop) (s : σ) :
    fails (orThrow o e : Tx σ ε α) E s ↔ (o = none → E e) := by
  cases o with
  | none => simp [orThrow]
  | some a => simp [orThrow]

@[simp] theorem fails_require (p : Prop) [Decidable p] (e : ε) (E : ε → Prop) (s : σ) :
    fails (require p e : Tx σ ε Unit) E s ↔ (¬ p → E e) := by
  unfold require
  split <;> simp [*]

@[simp] theorem fails_ite (p : Prop) [Decidable p] (m m' : Tx σ ε α) (E : ε → Prop) (s : σ) :
    fails (if p then m else m') E s ↔ if p then fails m E s else fails m' E s := by
  split <;> rfl

@[simp] theorem fails_onlyIf (p : Prop) [Decidable p] (m : Tx σ ε Unit) (E : ε → Prop) (s : σ) :
    fails (onlyIf p m) E s ↔ (p → fails m E s) := by
  unfold onlyIf
  split <;> simp [*]

/-- A loop keeps what every turn of it keeps. -/
theorem wp_loop {f : α → β → Tx σ ε α} (I : α → σ → Prop) {xs : List β}
    (hf : ∀ acc s, ∀ x ∈ xs, I acc s → wp (f acc x) I s) {acc : α} {s : σ} (h : I acc s) :
    wp (loop f acc xs) I s := by
  induction xs generalizing acc s with
  | nil => simpa [loop] using h
  | cons x xs ih =>
    simp only [loop, wp_bind]
    refine wp_mono (hf acc s x (by simp) h) fun acc' s' h' => ?_
    exact ih (fun a t y hy => hf a t y (by simp [hy])) h'

/-- A loop fails only as its turns do. -/
theorem fails_loop {f : α → β → Tx σ ε α} {E : ε → Prop} {xs : List β}
    (hf : ∀ acc s, ∀ x ∈ xs, fails (f acc x) E s) {acc : α} {s : σ} : fails (loop f acc xs) E s := by
  induction xs generalizing acc s with
  | nil => simp [loop]
  | cons x xs ih =>
    simp only [loop, fails_bind]
    refine ⟨hf acc s x (by simp), fun acc' s' _ => ?_⟩
    exact ih fun a t y hy => hf a t y (by simp [hy])

/-- What `m` does when it neither misses its postcondition nor fails. -/
theorem exists_ok {m : Tx σ ε α} {s : σ} {Q : α → σ → Prop} (h : wp m Q s) (hf : fails m (fun _ => False) s) :
    ∃ a s', m s = .ok (a, s') ∧ Q a s' := by
  cases hm : m s with
  | ok r => exact ⟨r.1, r.2, rfl, h r.1 r.2 hm⟩
  | error e => exact (hf e hm).elim

/-! ## Frames -/

section
variable {γ : Type}

/-- The part `f` of the state is the same after `m` as before. -/
def Keeps (f : σ → γ) (m : Tx σ ε α) : Prop := ∀ s a s', m s = .ok (a, s') → f s' = f s

variable {f : σ → γ}

theorem Keeps.wp {m : Tx σ ε α} (h : Keeps f m) (s : σ) : wp m (fun _ s' => f s' = f s) s := h s

theorem Keeps.commit {m : Tx σ ε α} (h : Keeps f m) (s : σ) : f (m.commit s) = f s :=
  commit_of_wp (P := fun s' => f s' = f s) rfl (h.wp s)

theorem keeps_pure (a : α) : Keeps f (pure a : Tx σ ε α) := by
  intro s b s' h
  cases h
  rfl

theorem keeps_get : Keeps f (get : Tx σ ε σ) := by
  intro s b s' h
  cases h
  rfl

theorem keeps_throw (e : ε) : Keeps f (throw e : Tx σ ε α) := by
  intro s b s' h
  cases h

theorem keeps_modify {g : σ → σ} (h : ∀ s, f (g s) = f s) : Keeps f (modify g : Tx σ ε Unit) := by
  intro s b s' hm
  cases hm
  exact h s

theorem keeps_orThrow (o : Option α) (e : ε) : Keeps f (orThrow o e : Tx σ ε α) := by
  cases o with
  | none => exact keeps_throw e
  | some a => exact keeps_pure a

theorem keeps_require (p : Prop) [Decidable p] (e : ε) : Keeps f (require p e : Tx σ ε Unit) := by
  unfold require
  split
  · exact keeps_pure ()
  · exact keeps_throw e

theorem keeps_bind {m : Tx σ ε α} {k : α → Tx σ ε β} (hm : Keeps f m) (hk : ∀ a, Keeps f (k a)) :
    Keeps f (m >>= k) := by
  intro s b s' h
  obtain ⟨a, t, h₁, h₂⟩ := bind_ok.1 h
  exact (hk a t b s' h₂).trans (hm s a t h₁)

/-- A transaction that only reads, in front of another one. -/
theorem bind_ok_of_reads {m : Tx σ ε α} {k : α → Tx σ ε β} (hm : Keeps (fun s => s) m) {s s' : σ} {b : β} :
    (m >>= k) s = .ok (b, s') ↔ ∃ a, m s = .ok (a, s) ∧ k a s = .ok (b, s') := by
  rw [bind_ok]
  constructor
  · rintro ⟨a, t, h₁, h₂⟩
    have ht : t = s := hm s a t h₁
    rw [ht] at h₁ h₂
    exact ⟨a, h₁, h₂⟩
  · rintro ⟨a, h₁, h₂⟩
    exact ⟨a, s, h₁, h₂⟩

theorem keeps_ite {p : Prop} [Decidable p] {m m' : Tx σ ε α} (h : Keeps f m) (h' : Keeps f m') :
    Keeps f (if p then m else m') := by
  split
  · exact h
  · exact h'

theorem keeps_onlyIf {p : Prop} [Decidable p] {m : Tx σ ε Unit} (h : Keeps f m) : Keeps f (onlyIf p m) :=
  keeps_ite h (keeps_pure _)

theorem keeps_loop {k : α → β → Tx σ ε α} (hk : ∀ a b, Keeps f (k a b)) (acc : α) (xs : List β) :
    Keeps f (loop k acc xs) := by
  induction xs generalizing acc with
  | nil => exact keeps_pure acc
  | cons x xs ih => exact keeps_bind (hk acc x) ih

end
/-! ## Steps -/

section
variable {R : σ → σ → Prop}

/-- `m` takes the state along steps of `R`. -/
def Moves (R : σ → σ → Prop) (m : Tx σ ε α) : Prop := ∀ s a s', m s = .ok (a, s') → Relation.ReflTransGen R s s'

theorem Moves.commit {m : Tx σ ε α} (h : Moves R m) (s : σ) : Relation.ReflTransGen R s (m.commit s) :=
  commit_of_wp (P := fun s' => Relation.ReflTransGen R s s') .refl (h s)

/-- A transaction that only reads takes no step. -/
theorem moves_of_keeps {m : Tx σ ε α} (h : Keeps (fun s => s) m) : Moves R m := by
  intro s a s' hm
  have heq : s' = s := h s a s' hm
  rw [heq]

theorem moves_modify {g : σ → σ} (h : ∀ s, R s (g s)) : Moves R (modify g : Tx σ ε Unit) := by
  intro s a s' hm
  cases hm
  exact .single (h s)

theorem moves_bind {m : Tx σ ε α} {k : α → Tx σ ε β} (hm : Moves R m) (hk : ∀ a, Moves R (k a)) : Moves R (m >>= k) := by
  intro s b s' h
  obtain ⟨a, t, h₁, h₂⟩ := bind_ok.1 h
  exact (hm s a t h₁).trans (hk a t b s' h₂)

theorem moves_onlyIf {p : Prop} [Decidable p] {m : Tx σ ε Unit} (hm : Moves R m) : Moves R (onlyIf p m) := by
  unfold onlyIf
  split
  · exact hm
  · exact moves_of_keeps (keeps_pure ())

theorem moves_loop {f : α → β → Tx σ ε α} {xs : List β} (hf : ∀ acc, ∀ x ∈ xs, Moves R (f acc x)) (acc : α) :
    Moves R (loop f acc xs) := by
  induction xs generalizing acc with
  | nil => exact moves_of_keeps (keeps_pure acc)
  | cons x xs ih =>
    exact moves_bind (hf acc x (by simp)) fun a => ih (fun b y hy => hf b y (by simp [hy])) a

end

end Tx
end Lib
