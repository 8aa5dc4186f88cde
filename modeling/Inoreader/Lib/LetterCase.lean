import Mathlib.Data.List.Infix
import Inoreader.Lib.Text

/-!
# Letter case

Unicode maps a letter to the texts of its lower and its upper case. `toLowercase` is `str::to_lowercase`: it maps every
letter on its own, except that a capital sigma at the end of a word becomes the final form. A text occurs in another one
without regard to case if letters of both can be changed to either case such that it occurs literally.
-/

namespace Lib

/-- The tables: `char::to_lowercase`, `char::to_uppercase` and the properties Cased and Case_Ignorable. -/
structure LetterCase where
  lower : Char → List Char
  upper : Char → List Char
  cased : Char → Bool
  ignorable : Char → Bool

namespace LetterCase
variable (U : LetterCase)

/-- `case_ignorable_then_cased`. -/
def ignorableThenCased (cs : List Char) : Bool := (cs.dropWhile U.ignorable).head?.any U.cased

/-- A word ends between the two texts, the first one in reverse. -/
def wordFinal (before after : List Char) : Bool := U.ignorableThenCased before && !U.ignorableThenCased after

/-- The lower case of what follows `before`, which is in reverse. -/
def lowerFrom : List Char → List Char → List Char
  | _, [] => []
  | before, c :: rest =>
    (if c = 'Σ' then [if U.wordFinal before rest then 'ς' else 'σ'] else U.lower c) ++ lowerFrom (c :: before) rest

/-- `str::to_lowercase`. -/
def toLowercase (cs : List Char) : List Char := U.lowerFrom [] cs

/-- The text with any of its letters changed to upper or lower case. -/
inductive Variant : List Char → List Char → Prop
  | nil : Variant [] []
  | cons {c : Char} {p cs cs' : List Char} (h : p = [c] ∨ p = U.upper c ∨ p = U.lower c) (hs : Variant cs cs') :
    Variant (c :: cs) (p ++ cs')

/-- `n` occurs in `s` without regard to case. -/
def Occurs (n s : List Char) : Prop := ∃ n' s', U.Variant n n' ∧ U.Variant s s' ∧ n' <:+: s'

/-- The lower case of the letter is that of its upper case. -/
def Folds (c : Char) : Prop := (U.upper c).flatMap U.lower = U.lower c

/-- No capital sigma ends a word. -/
def NoFinalSigma (cs : List Char) : Prop := ∀ pre post, cs = pre ++ 'Σ' :: post → U.wordFinal pre.reverse post = false

/-- What the tables of Unicode say. -/
structure Lawful : Prop where
  idempotent : ∀ c, (U.lower c).flatMap U.lower = U.lower c
  sigma : U.lower 'Σ' = ['σ']
  sigma_cased : U.cased 'Σ' = true ∧ U.cased 'σ' = true ∧ U.ignorable 'Σ' = false ∧ U.ignorable 'σ' = false
  sigma_upper : ∀ c, 'Σ' ∈ U.upper c → U.upper c = ['Σ']
  unfolded : ∀ c, ¬ U.Folds c → ¬ U.lower c <:+: (U.upper c).flatMap U.lower
  blank : ∀ c, isWhiteSpace c = true → U.lower c = [c] ∧ U.upper c = [c]

variable {U} {n s cs cs' before : List Char} {c : Char}

theorem lowerFrom_eq (hU : U.Lawful)
    (h : ∀ pre post, cs = pre ++ 'Σ' :: post → U.wordFinal (pre.reverse ++ before) post = false) :
    U.lowerFrom before cs = cs.flatMap U.lower := by
  induction cs generalizing before with
  | nil => rfl
  | cons c cs ih =>
    have hrest : U.lowerFrom (c :: before) cs = cs.flatMap U.lower := by
      refine ih fun pre post hcs => ?_
      have hfinal := h (c :: pre) post (by rw [hcs, List.cons_append])
      rw [List.reverse_cons, List.append_assoc] at hfinal
      exact hfinal
    rw [lowerFrom, List.flatMap_cons, hrest]
    split
    · rename_i hc
      subst hc
      have hfinal := h [] cs rfl
      rw [List.reverse_nil, List.nil_append] at hfinal
      rw [hfinal, hU.sigma]
      rfl
    · rfl

/-- Without a final sigma every letter is mapped on its own. -/
theorem toLowercase_eq (hU : U.Lawful) (h : U.NoFinalSigma cs) : U.toLowercase cs = cs.flatMap U.lower := by
  refine lowerFrom_eq hU fun pre post hcs => ?_
  rw [List.append_nil]
  exact h pre post hcs

theorem Variant.refl (cs : List Char) : U.Variant cs cs := by
  induction cs with
  | nil => exact .nil
  | cons c cs ih => exact .cons (.inl rfl) ih

theorem Variant.lower (cs : List Char) : U.Variant cs (cs.flatMap U.lower) := by
  induction cs with
  | nil => exact .nil
  | cons c cs ih => exact .cons (.inr (.inr rfl)) ih

/-- Letters that fold have the lower case of every variant. -/
theorem Variant.flatMap_lower (hU : U.Lawful) (hfolds : ∀ c ∈ cs, U.Folds c) (h : U.Variant cs cs') :
    cs'.flatMap U.lower = cs.flatMap U.lower := by
  induction h with
  | nil => rfl
  | @cons c p cs cs' hp _ ih =>
    rw [List.flatMap_append, List.flatMap_cons, ih fun d hd => hfolds d (List.mem_cons_of_mem _ hd)]
    congr 1
    rcases hp with rfl | rfl | rfl
    · exact List.flatMap_singleton U.lower c
    · exact hfolds c List.mem_cons_self
    · exact hU.idempotent c

theorem flatMap_infix {f : Char → List Char} (h : n <:+: s) : n.flatMap f <:+: s.flatMap f := by
  obtain ⟨a, b, rfl⟩ := h
  exact ⟨a.flatMap f, b.flatMap f, by rw [List.flatMap_append, List.flatMap_append]⟩

theorem occurs_of_infix (h : n <:+: s) : U.Occurs n s := ⟨n, s, Variant.refl n, Variant.refl s, h⟩

/-- Where letters fold and no sigma is final, the lower cases tell whether the text occurs. -/
theorem toLowercase_infix_iff (hU : U.Lawful) (hn : ∀ c ∈ n, U.Folds c) (hs : ∀ c ∈ s, U.Folds c)
    (hnfinal : U.NoFinalSigma n) (hsfinal : U.NoFinalSigma s) :
    U.toLowercase n <:+: U.toLowercase s ↔ U.Occurs n s := by
  rw [toLowercase_eq hU hnfinal, toLowercase_eq hU hsfinal]
  constructor
  · exact fun h => ⟨_, _, Variant.lower n, Variant.lower s, h⟩
  · rintro ⟨n', s', hn', hs', h⟩
    rw [← hn'.flatMap_lower hU hn, ← hs'.flatMap_lower hU hs]
    exact flatMap_infix h

/-! ## Letters that are missed -/

theorem noFinalSigma_singleton (c : Char) : U.NoFinalSigma [c] := by
  intro pre post h
  cases pre with
  | nil => rfl
  | cons d pre =>
    rw [List.cons_append, List.cons.injEq] at h
    simp at h

/-- A letter that does not fold occurs in its upper case and is not found there. -/
theorem not_found_of_not_folds (hU : U.Lawful) (h : ¬ U.Folds c) :
    U.Occurs [c] (U.upper c) ∧ ¬ U.toLowercase [c] <:+: U.toLowercase (U.upper c) := by
  refine ⟨⟨U.upper c ++ [], U.upper c, .cons (.inr (.inl rfl)) .nil, Variant.refl _, ?_⟩, ?_⟩
  · rw [List.append_nil]
  · have hfinal : U.NoFinalSigma (U.upper c) := by
      by_cases hsigma : 'Σ' ∈ U.upper c
      · rw [hU.sigma_upper c hsigma]
        exact noFinalSigma_singleton 'Σ'
      · intro pre post hupper
        exact absurd (by rw [hupper]; simp) hsigma
    rw [toLowercase_eq hU (noFinalSigma_singleton c), toLowercase_eq hU hfinal, List.flatMap_singleton]
    exact hU.unfolded c h

/-- A word in sigmas occurs in a longer one and is not found there, since its last sigma is final. -/
theorem not_found_sigma (hU : U.Lawful) : ['Σ', 'Σ'] <:+: ['Σ', 'Σ', 'σ'] ∧
    ¬ U.toLowercase ['Σ', 'Σ'] <:+: U.toLowercase ['Σ', 'Σ', 'σ'] := by
  obtain ⟨hcapital, hsmall, hcapital', hsmall'⟩ := hU.sigma_cased
  have hlower : U.lower 'σ' = ['σ'] := by
    have h := hU.idempotent 'Σ'
    rw [hU.sigma, List.flatMap_singleton] at h
    exact h
  have hstart : ∀ after, U.wordFinal [] after = false := fun _ => rfl
  have hend : U.wordFinal ['Σ'] [] = true := by simp [wordFinal, ignorableThenCased, hcapital, hcapital']
  have hwithin : ∀ c, U.cased c = true → U.ignorable c = false → ∀ before cs, U.wordFinal before (c :: cs) = false := by
    intro c hc hc' before cs
    simp [wordFinal, ignorableThenCased, hc, hc']
  have hphrase : U.toLowercase ['Σ', 'Σ'] = ['σ', 'ς'] := by simp [toLowercase, lowerFrom, hstart, hend]
  have htext : U.toLowercase ['Σ', 'Σ', 'σ'] = ['σ', 'σ', 'σ'] := by
    simp [toLowercase, lowerFrom, hstart, hwithin 'σ' hsmall hsmall', hlower]
  rw [hphrase, htext]
  exact ⟨by decide, by decide⟩

end LetterCase
end Lib
