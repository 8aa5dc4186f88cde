import Inoreader.Core.Rules
import Inoreader.Lib.LetterCase

/-!
# Literal phrases

A rule compares the lower cases of its phrase and of the field. They tell whether the phrase occurs without regard to case
as long as letters fold and no sigma is final.
-/

namespace Inoreader
open Lib

section
variable (U : LetterCase)

/-- `str::to_lowercase`. -/
def lowercase (s : String) : String := String.ofList (U.toLowercase s.toList)

/-- The texts that the rule looks at. -/
def Rule.fieldTexts (r : Rule) (title : String) (text : Option String) : List String :=
  match r.field with
  | .title => [title]
  | .text => [text.getD ""]
  | .both => [title, text.getD ""]

/-- The rule finds its phrase where it occurs literally or after a change of case, and nowhere else. -/
structure LiteralMatch (r : Rule) (phrase title : String) (text : Option String) : Prop where
  literal : (∃ s ∈ r.fieldTexts title text, phrase.toList <:+: s.toList) → r.isMatch (lowercase U) title text = true
  caseless : (∃ s ∈ r.fieldTexts title text, U.Occurs phrase.toList s.toList) →
    r.isMatch (lowercase U) title text = true
  only : r.isMatch (lowercase U) title text = true → ∃ s ∈ r.fieldTexts title text, U.Occurs phrase.toList s.toList

/-- The letters of the text fold, and no capital sigma ends a word. -/
def PlainCase (s : List Char) : Prop := (∀ c ∈ s, U.Folds c) ∧ U.NoFinalSigma s

/-- The letters are closed under a change of case. -/
def CaseClosed (A : Char → Prop) : Prop := ∀ c, A c → (∀ d ∈ U.upper c, A d) ∧ ∀ d ∈ U.lower c, A d

end

section
variable {U : LetterCase} {r : Rule} {phrase title : String} {text : Option String}

theorem isMatch_iff (henabled : r.enabled = true) (hphrase : r.needles = [phrase]) :
    r.isMatch (lowercase U) title text = true ↔
      ∃ s ∈ r.fieldTexts title text, U.toLowercase phrase.toList <:+: U.toLowercase s.toList := by
  unfold Rule.isMatch Rule.fieldTexts containsText lowercase
  rw [henabled, hphrase]
  cases r.field <;> simp

theorem literalMatch_of_plain (hU : U.Lawful) (henabled : r.enabled = true) (hneedles : r.needles = [phrase])
    (hphrase : PlainCase U phrase.toList) (htexts : ∀ s ∈ r.fieldTexts title text, PlainCase U s.toList) :
    LiteralMatch U r phrase title text := by
  have hiff : r.isMatch (lowercase U) title text = true ↔
      ∃ s ∈ r.fieldTexts title text, U.Occurs phrase.toList s.toList := by
    rw [isMatch_iff henabled hneedles]
    refine exists_congr fun s => and_congr_right fun hs => ?_
    exact LetterCase.toLowercase_infix_iff hU hphrase.1 (htexts s hs).1 hphrase.2 (htexts s hs).2
  refine ⟨?_, hiff.2, hiff.1⟩
  rintro ⟨s, hs, hin⟩
  exact hiff.2 ⟨s, hs, LetterCase.occurs_of_infix hin⟩

/-- A rule for the title. -/
def titleRule (phrase : String) : Rule :=
  { id := ⟨1⟩, subscriptionId := ⟨1⟩, version := 1, enabled := true, field := .title, needles := [phrase]
    action := .markRead }

/-- A letter that does not fold is missed in its upper case, a word in sigmas where it is the start of a longer one. -/
theorem exists_missed (hU : U.Lawful) {A : Char → Prop} (hA : CaseClosed U A) {c : Char} (hc : A c)
    (hbad : ¬ (U.Folds c ∧ c ≠ 'Σ')) : ∃ phrase title, (titleRule phrase).valid = true ∧ (∀ c ∈ phrase.toList, A c) ∧
      (∀ c ∈ title.toList, A c) ∧ ¬ LiteralMatch U (titleRule phrase) phrase title none := by
  by_cases hfolds : U.Folds c
  · have hsigma : c = 'Σ' := by
      by_contra hne
      exact hbad ⟨hfolds, hne⟩
    subst hsigma
    have hsmall : A 'σ' := (hA 'Σ' hc).2 'σ' (by rw [hU.sigma]; exact List.mem_singleton_self _)
    obtain ⟨hin, hmissed⟩ := LetterCase.not_found_sigma hU
    refine ⟨"ΣΣ", "ΣΣσ", by decide +kernel, ?_, ?_, fun h => hmissed ?_⟩
    · intro d hd
      rcases List.mem_cons.1 (show d ∈ ['Σ', 'Σ'] from hd) with rfl | hd
      · exact hc
      · rw [List.mem_singleton.1 hd]
        exact hc
    · intro d hd
      rcases List.mem_cons.1 (show d ∈ ['Σ', 'Σ', 'σ'] from hd) with rfl | hd
      · exact hc
      · rcases List.mem_cons.1 hd with rfl | hd
        · exact hc
        · rw [List.mem_singleton.1 hd]
          exact hsmall
    · obtain ⟨s, hs, hfound⟩ := (isMatch_iff rfl rfl).1 (h.literal ⟨_, List.mem_singleton_self _, hin⟩)
      rw [List.mem_singleton.1 hs] at hfound
      exact hfound
  · have hword : isWhiteSpace c = false := by
      cases hblank : isWhiteSpace c with
      | false => rfl
      | true =>
        refine absurd ?_ hfolds
        unfold LetterCase.Folds
        rw [(hU.blank c hblank).2, List.flatMap_singleton]
    obtain ⟨hoccurs, hmissed⟩ := LetterCase.not_found_of_not_folds hU hfolds
    refine ⟨String.ofList [c], String.ofList (U.upper c), ?_, ?_, ?_, fun h => hmissed ?_⟩
    · simp [titleRule, Rule.valid, isBlank, isTrimmed, hword]
    · intro d hd
      rw [String.toList_ofList, List.mem_singleton] at hd
      exact hd ▸ hc
    · intro d hd
      rw [String.toList_ofList] at hd
      exact (hA c hc).1 d hd
    · have hoccurs' : U.Occurs (String.ofList [c]).toList (String.ofList (U.upper c)).toList := by
        rw [String.toList_ofList, String.toList_ofList]
        exact hoccurs
      obtain ⟨s, hs, hfound⟩ := (isMatch_iff rfl rfl).1 (h.caseless ⟨_, List.mem_singleton_self _, hoccurs'⟩)
      rw [List.mem_singleton.1 hs, String.toList_ofList, String.toList_ofList] at hfound
      exact hfound

/-- The rule finds exactly the occurrences of its phrase if the letters of the phrase and of the field fold and no capital
sigma ends a word; and of letters that are closed under a change of case, some phrase is missed in some title as soon as
one of them does not fold or is the capital sigma. -/
theorem literalMatch_iff (hU : U.Lawful) :
    (∀ r phrase title text, r.enabled = true → r.needles = [phrase] → PlainCase U phrase.toList →
      (∀ s ∈ r.fieldTexts title text, PlainCase U s.toList) → LiteralMatch U r phrase title text) ∧
    ∀ A, CaseClosed U A → ((∀ r phrase title text, r.enabled = true → r.needles = [phrase] → (∀ c ∈ phrase.toList, A c) →
      (∀ s ∈ r.fieldTexts title text, ∀ c ∈ s.toList, A c) → LiteralMatch U r phrase title text) ↔
        ∀ c, A c → U.Folds c ∧ c ≠ 'Σ') := by
  refine ⟨fun r phrase title text => literalMatch_of_plain hU, fun A hA => ⟨fun h c hc => ?_, fun h => ?_⟩⟩
  · by_contra hbad
    obtain ⟨phrase, title, -, hphrase, htitle, hmissed⟩ := exists_missed hU hA hc hbad
    refine hmissed (h _ _ _ _ rfl rfl hphrase fun s hs => ?_)
    rw [List.mem_singleton.1 hs]
    exact htitle
  · have hplain : ∀ s : String, (∀ c ∈ s.toList, A c) → PlainCase U s.toList := by
      refine fun s hs => ⟨fun c hc => (h c (hs c hc)).1, fun pre post hsigma => ?_⟩
      exact absurd rfl (h 'Σ' (hs 'Σ' (by rw [hsigma]; simp))).2
    intro r phrase title text henabled hneedles hphrase htexts
    exact literalMatch_of_plain hU henabled hneedles (hplain _ hphrase) fun s hs => hplain s (htexts s hs)

end

/-! ## A few letters -/

namespace Sample

/-- The tables on the letters of the titles below. -/
def letters : LetterCase where
  lower := fun c => if c = 'S' then ['s'] else if c = 'Α' then ['α'] else if c = 'Σ' then ['σ'] else [c]
  upper := fun c => if c = 's' then ['S'] else if c = 'ß' then ['S', 'S'] else if c = 'α' then ['Α']
    else if c = 'σ' ∨ c = 'ς' then ['Σ'] else [c]
  cased := fun c => c ≠ ' '
  ignorable := fun _ => false

theorem letters_lower {c : Char} (h : c ≠ 'S') (h' : c ≠ 'Α') (h'' : c ≠ 'Σ') : letters.lower c = [c] := by
  simp [letters, h, h', h'']

theorem letters_folds {c : Char} (h : c ≠ 'ß') (h' : c ≠ 'ς') : letters.Folds c := by
  unfold LetterCase.Folds
  by_cases hs : c = 's'
  · subst hs
    decide
  by_cases halpha : c = 'α'
  · subst halpha
    decide
  by_cases hsmall : c = 'σ'
  · subst hsmall
    decide
  have hupper : letters.upper c = [c] := by simp [letters, h, h', hs, halpha, hsmall]
  rw [hupper, List.flatMap_singleton]

theorem letters_lawful : letters.Lawful := by
  refine ⟨fun c => ?_, by decide, by decide, fun c h => ?_, fun c h => ?_, fun c h => ?_⟩
  · by_cases hS : c = 'S'
    · subst hS
      decide
    by_cases hA : c = 'Α'
    · subst hA
      decide
    by_cases hcapital : c = 'Σ'
    · subst hcapital
      decide
    rw [letters_lower hS hA hcapital, List.flatMap_singleton, letters_lower hS hA hcapital]
  · unfold letters at h ⊢
    dsimp only at h ⊢
    split_ifs at h ⊢ with hs hsharp halpha hsmall
    · simp at h
    · simp at h
    · simp at h
    · rfl
    · rw [List.mem_singleton.1 h]
  · by_cases hsharp : c = 'ß'
    · subst hsharp
      decide
    · have hfinal : c = 'ς' := by
        by_contra hfinal
        exact h (letters_folds hsharp hfinal)
      subst hfinal
      decide
  · have hne : ∀ d, isWhiteSpace d = false → c ≠ d := by
      rintro d hd rfl
      rw [h] at hd
      cases hd
    refine ⟨letters_lower (hne _ (by decide)) (hne _ (by decide)) (hne _ (by decide)), ?_⟩
    simp [letters, hne 's' (by decide), hne 'ß' (by decide), hne 'α' (by decide), hne 'σ' (by decide), hne 'ς' (by decide)]

end Sample

open Sample

theorem literalMatch_plain : LiteralMatch letters (titleRule "s") "s" "αS" none := by
  have hplain : ∀ s ∈ ["s", "αS"], PlainCase letters s.toList := by
    have hletters : ∀ s ∈ ["s", "αS"], ∀ c ∈ s.toList, c ≠ 'ß' ∧ c ≠ 'ς' ∧ c ≠ 'Σ' := by
      intro s hs c hc
      have hc : c ∈ ['s', 'α', 'S'] := by
        rcases List.mem_pair.1 hs with rfl | rfl
        · exact List.mem_cons.2 (.inl (List.mem_singleton.1 hc))
        · exact List.mem_cons_of_mem _ hc
      simp only [List.mem_cons, List.not_mem_nil, or_false] at hc
      rcases hc with rfl | rfl | rfl <;> decide
    intro s hs
    refine ⟨fun c hc => letters_folds (hletters s hs c hc).1 (hletters s hs c hc).2.1, fun pre post hsigma => ?_⟩
    exact absurd rfl (hletters s hs 'Σ' (by rw [hsigma]; simp)).2.2
  exact (literalMatch_iff letters_lawful).1 _ _ _ _ rfl rfl (hplain "s" (by decide)) fun s hs =>
    hplain s (List.mem_cons_of_mem _ hs)

/-- The phrase stands in the title letter by letter, and its sigma is final in the phrase alone. -/
theorem final_sigma_not_literalMatch : (titleRule "ΑΣ").valid = true ∧ "ΑΣ".toList <:+: "ΑΣΑ".toList ∧
    ¬ LiteralMatch letters (titleRule "ΑΣ") "ΑΣ" "ΑΣΑ" none := by
  refine ⟨by decide +kernel, by decide +kernel, fun h => ?_⟩
  have hmatch := h.literal ⟨_, List.mem_singleton_self _, by decide +kernel⟩
  exact absurd hmatch (by decide +kernel)

end Inoreader
