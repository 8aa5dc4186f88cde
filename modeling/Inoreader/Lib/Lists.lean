import Mathlib.Data.List.Forall2
import Inoreader.Lib.Except

/-!
# Loops over lists

`modifyFirst p f` is `iter_mut().find(p)` followed by an assignment: it changes the first element that
satisfies `p` and fails if there is none. A loop that replaces every element and ends at the first failure
is `List.mapM`.
-/

namespace Lib

variable {α β : Type} {p : α → Bool} {f : α → α}

def modifyFirst (p : α → Bool) (f : α → α) : List α → Option (List α)
  | [] => none
  | a :: as => if p a then some (f a :: as) else (modifyFirst p f as).map (a :: ·)

theorem modifyFirst_eq_some {l l' : List α} (h : modifyFirst p f l = some l') :
    ∃ a pre post, l = pre ++ a :: post ∧ (∀ x ∈ pre, p x = false) ∧ p a = true ∧ l' = pre ++ f a :: post := by
  induction l generalizing l' with
  | nil => cases h
  | cons a as ih =>
    unfold modifyFirst at h
    split at h
    · rename_i ha
      cases h
      exact ⟨a, [], as, rfl, by simp, ha, rfl⟩
    · rename_i ha
      obtain ⟨as', has, rfl⟩ := Option.map_eq_some_iff.1 h
      obtain ⟨b, pre, post, rfl, hpre, hb, rfl⟩ := ih has
      refine ⟨b, a :: pre, post, rfl, ?_, hb, rfl⟩
      intro x hx
      rcases List.mem_cons.1 hx with rfl | hx
      · simpa using ha
      · exact hpre x hx

theorem modifyFirst_of_mem {l : List α} {a : α} (h : a ∈ l) (ha : p a = true) :
    ∃ l', modifyFirst p f l = some l' := by
  induction l with
  | nil => cases h
  | cons b bs ih =>
    unfold modifyFirst
    split
    · exact ⟨_, rfl⟩
    · rename_i hb
      rcases List.mem_cons.1 h with rfl | h
      · exact absurd ha hb
      · obtain ⟨l', hl'⟩ := ih h
        exact ⟨b :: l', by rw [hl']; rfl⟩

/-- The changed element is the one that the search finds. -/
theorem find?_of_modifyFirst {l pre post : List α} {a : α} (hl : l = pre ++ a :: post) (hpre : ∀ x ∈ pre, p x = false)
    (ha : p a = true) : l.find? p = some a := by
  have hnone : pre.find? p = none := List.find?_eq_none.2 fun x hx => by simp [hpre x hx]
  rw [hl, List.find?_append, hnone]
  simp [ha]

/-- What `f` keeps of the changed element is kept of the list. -/
theorem map_modifyFirst {g : α → β} {l l' : List α} (hg : ∀ a, l.find? p = some a → g (f a) = g a)
    (h : modifyFirst p f l = some l') : l'.map g = l.map g := by
  obtain ⟨a, pre, post, rfl, hpre, ha, rfl⟩ := modifyFirst_eq_some h
  simp [hg a (find?_of_modifyFirst rfl hpre ha)]

/-- An old element stays, or it is the changed one. -/
theorem mem_or_of_modifyFirst {l l' : List α} {x : α} (h : modifyFirst p f l = some l') (hx : x ∈ l) :
    x ∈ l' ∨ (l.find? p = some x ∧ f x ∈ l') := by
  obtain ⟨a, pre, post, rfl, hpre, ha, rfl⟩ := modifyFirst_eq_some h
  rcases List.mem_append.1 hx with hx | hx
  · exact .inl (by simp [hx])
  · rcases List.mem_cons.1 hx with rfl | hx
    · exact .inr ⟨find?_of_modifyFirst rfl hpre ha, by simp⟩
    · exact .inl (by simp [hx])

/-- The two lists differ at the changed element only. -/
theorem forall₂_modifyFirst {l l' : List α} (h : modifyFirst p f l = some l') :
    List.Forall₂ (fun a b => b = a ∨ (p a = true ∧ b = f a)) l l' := by
  obtain ⟨a, pre, post, rfl, -, ha, rfl⟩ := modifyFirst_eq_some h
  have hsame : ∀ xs : List α, List.Forall₂ (fun a b => b = a ∨ (p a = true ∧ b = f a)) xs xs := fun xs =>
    List.forall₂_same.2 fun _ _ => .inl rfl
  exact List.rel_append (hsame pre) (.cons (.inr ⟨ha, rfl⟩) (hsame post))

/-- An element of the result is an old one, or the changed one. -/
theorem mem_modifyFirst {l l' : List α} {x : α} (h : modifyFirst p f l = some l') (hx : x ∈ l') :
    x ∈ l ∨ ∃ a ∈ l, p a = true ∧ x = f a := by
  obtain ⟨a, pre, post, rfl, -, ha, rfl⟩ := modifyFirst_eq_some h
  rcases List.mem_append.1 hx with hx | hx
  · exact .inl (by simp [hx])
  · rcases List.mem_cons.1 hx with rfl | hx
    · exact .inr ⟨a, by simp, ha, rfl⟩
    · exact .inl (by simp [hx])

/-- The elements that fail the test stay. -/
theorem mem_of_modifyFirst {l l' : List α} {x : α} (h : modifyFirst p f l = some l') (hx : x ∈ l)
    (hp : p x = false) : x ∈ l' := by
  obtain ⟨a, pre, post, rfl, -, ha, rfl⟩ := modifyFirst_eq_some h
  rcases List.mem_append.1 hx with hx | hx
  · simp [hx]
  · rcases List.mem_cons.1 hx with rfl | hx
    · rw [ha] at hp
      cases hp
    · simp [hx]

/-- A search that ignores the changed element. -/
theorem find?_modifyFirst_of_ne {q : α → Bool} {l l' : List α} (h : modifyFirst p f l = some l')
    (hq : ∀ a, p a = true → q a = false ∧ q (f a) = false) : l'.find? q = l.find? q := by
  obtain ⟨a, pre, post, rfl, -, ha, rfl⟩ := modifyFirst_eq_some h
  simp [List.find?_append, (hq a ha).1, (hq a ha).2]

/-- The search for the changed element. -/
theorem find?_modifyFirst_self {l l' : List α} (h : modifyFirst p f l = some l')
    (hp : ∀ a, p a = true → p (f a) = true) : ∃ a, l.find? p = some a ∧ l'.find? p = some (f a) := by
  obtain ⟨a, pre, post, rfl, hpre, ha, rfl⟩ := modifyFirst_eq_some h
  exact ⟨a, find?_of_modifyFirst rfl hpre ha, find?_of_modifyFirst rfl hpre (hp a ha)⟩

/-- A pass over a list succeeds if it does at every element. -/
theorem mapM_ok {ε : Type} {f : α → Except ε β} {l : List α} {l' : List β} :
    l.mapM f = .ok l' ↔ List.Forall₂ (fun a b => f a = .ok b) l l' := by
  induction l generalizing l' with
  | nil => simp [pure, Except.pure, eq_comm]
  | cons a as ih =>
    rw [List.mapM_cons, List.forall₂_cons_left_iff]
    constructor
    · intro h
      cases ha : f a with
      | error e =>
        rw [ha] at h
        cases h
      | ok b =>
        cases has : as.mapM f with
        | error e =>
          rw [ha, has] at h
          cases h
        | ok bs =>
          rw [ha, has] at h
          cases h
          exact ⟨b, bs, rfl, ih.1 has, rfl⟩
    · rintro ⟨b, bs, ha, has, rfl⟩
      rw [ha, ih.2 has]
      rfl

/-- Related lists have a partner for every element. -/
theorem forall₂_mem {R : α → β → Prop} {l : List α} {l' : List β} (h : List.Forall₂ R l l') :
    (∀ a ∈ l, ∃ b ∈ l', R a b) ∧ ∀ b ∈ l', ∃ a ∈ l, R a b := by
  induction h with
  | nil => exact ⟨by simp, by simp⟩
  | @cons a b as bs hab _ ih =>
    refine ⟨fun x hx => ?_, fun y hy => ?_⟩
    · rcases List.mem_cons.1 hx with rfl | hx
      · exact ⟨b, by simp, hab⟩
      · obtain ⟨y, hy, hxy⟩ := ih.1 x hx
        exact ⟨y, by simp [hy], hxy⟩
    · rcases List.mem_cons.1 hy with rfl | hy
      · exact ⟨a, by simp, hab⟩
      · obtain ⟨x, hx, hxy⟩ := ih.2 y hy
        exact ⟨x, by simp [hx], hxy⟩

/-- A pass succeeds exactly if it does at every element. -/
theorem mapM_isOk {ε : Type} {f : α → Except ε β} {l : List α} :
    (∃ l', l.mapM f = .ok l') ↔ ∀ a ∈ l, ∃ b, f a = .ok b := by
  constructor
  · rintro ⟨l', h⟩ a ha
    obtain ⟨b, -, hb⟩ := (forall₂_mem (mapM_ok.1 h)).1 a ha
    exact ⟨b, hb⟩
  · intro h
    induction l with
    | nil => exact ⟨[], rfl⟩
    | cons a as ih =>
      obtain ⟨b, hb⟩ := h a (by simp)
      obtain ⟨bs, hbs⟩ := ih fun x hx => h x (by simp [hx])
      exact ⟨b :: bs, mapM_ok.2 (.cons hb (mapM_ok.1 hbs))⟩

/-- A pass that only checks succeeds if every check does. -/
theorem forM_ok {ε : Type} {f : α → Except ε Unit} {l : List α} (h : ∀ a ∈ l, f a = .ok ()) : l.forM f = .ok () := by
  induction l with
  | nil => rfl
  | cons a l ih =>
    rw [List.forM_eq_forM, List.forM_cons, h a List.mem_cons_self]
    exact ih fun b hb => h b (List.mem_cons_of_mem _ hb)

theorem forM_ok_iff {ε : Type} {f : α → Except ε Unit} {l : List α} :
    l.forM f = .ok () ↔ ∀ a ∈ l, f a = .ok () := by
  refine ⟨fun h => ?_, forM_ok⟩
  induction l with
  | nil => exact fun a ha => absurd ha List.not_mem_nil
  | cons a l ih =>
    rw [List.forM_eq_forM, List.forM_cons] at h
    obtain ⟨u, ha, h⟩ := except_bind_ok.1 h
    exact List.forall_mem_cons.2 ⟨ha, ih h⟩

/-- The elements of the key `k'` among those of other keys than `k`. -/
theorem filter_key_rest {κ : Type} [DecidableEq κ] (key : α → κ) (l : List α) (k k' : κ) :
    (l.filter fun a => key a ≠ k).filter (fun a => key a = k') = if k' = k then [] else l.filter fun a => key a = k' := by
  rw [List.filter_filter]
  by_cases hk : k' = k
  · rw [if_pos hk]
    refine List.filter_eq_nil_iff.2 fun a _ ha => ?_
    simp [hk] at ha
  · rw [if_neg hk]
    refine List.filter_congr fun a _ => ?_
    by_cases ha : key a = k'
    · simp [ha, hk]
    · simp [ha]

/-- The rows of the key `k` are replaced: `DELETE … WHERE key = k`, then one `INSERT` for each of `vs`. -/
theorem rows_replaced {κ ν : Type} [DecidableEq κ] (l : List (κ × ν)) (k k' : κ) (vs : List ν) :
    (((l.filter fun e => e.1 ≠ k) ++ vs.map fun v => (k, v)).filter fun e => e.1 = k').map (·.2) =
      if k' = k then vs else (l.filter fun e => e.1 = k').map (·.2) := by
  rw [List.filter_append, List.map_append, filter_key_rest (fun e : κ × ν => e.1)]
  by_cases hk : k' = k
  · subst hk
    rw [if_pos rfl, if_pos rfl]
    simp [List.filter_map, Function.comp_def]
  · have hnew : ((vs.map fun v => (k, v)).filter fun e => decide (e.1 = k')) = [] := by
      refine List.filter_eq_nil_iff.2 fun e he => ?_
      obtain ⟨v, -, rfl⟩ := List.mem_map.1 he
      simpa using fun e => hk e.symm
    rw [hnew, if_neg hk, if_neg hk]
    simp

/-! ## Joined and mapped lists -/

/-- A separator of several elements is its first element and a start of what follows. -/
theorem intercalate_cons_sep {α : Type} (a : α) (sep l : List α) (ls : List (List α)) :
    (a :: sep).intercalate (l :: ls) = [a].intercalate (l :: ls.map (sep ++ ·)) := by
  induction ls generalizing l with
  | nil => simp
  | cons l' ls ih =>
    rw [List.intercalate_cons_cons, ih l', List.map_cons, List.intercalate_cons_cons]
    cases ls with
    | nil => simp
    | cons l'' ls => simp [List.intercalate_cons_cons]

theorem mapM_some {α β : Type} {f : α → Option β} {g : α → β} {l : List α} (h : ∀ a ∈ l, f a = some (g a)) :
    l.mapM f = some (l.map g) := by
  induction l with
  | nil => rfl
  | cons a l ih =>
    rw [List.mapM_cons, h a (by simp), ih fun b hb => h b (by simp [hb])]
    rfl

end Lib
