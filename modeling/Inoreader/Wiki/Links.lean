import Inoreader.Wiki.Command
import Mathlib.Data.String.Basic

/-!
# What the link projection finds

The scanner pairs every opening pair of brackets with the next closing pair, so a name in double brackets is found where
no earlier opening pair waits for its closing one.
-/

namespace Inoreader

/-- What `link_names` keeps of the names between brackets. -/
def Linkable (name : List Char) : Prop :=
  name ≠ [] ∧ ¬ name.any (fun c => c == '[' || c == ']' || c == '\n' || c == '\r' || c == '\x00')

instance (name : List Char) : Decidable (Linkable name) := inferInstanceAs (Decidable (_ ∧ ¬ _))

/-- A valid name of a page, within the capacity of the index. -/
def PageName (name : String) : Prop := WikiLimits.name { nameBytes := 2000, markdownBytes := 0 } name = .ok ()

/-- A name in double brackets. -/
def bracketed (name : List Char) : List Char := '[' :: '[' :: (name ++ [']', ']'])

/-- Brackets that follow the text open a link: every opening pair in it has its closing pair. -/
inductive Opens : List Char → Prop
  | first {a : List Char} (h : ¬ ['[', '['] <:+: a ++ ['[']) : Opens a
  | next {a m b : List Char} (ha : ¬ ['[', '['] <:+: a ++ ['[']) (hm : ¬ [']', ']'] <:+: m ++ [']']) (hb : Opens b) :
    Opens (a ++ (bracketed m ++ b))

section
variable {c : Char} {p rest text name : List Char}

theorem infix_pair_append : [c, c] <:+: p ++ c :: c :: rest := ⟨p, rest, by simp⟩

/-- No pair ends with the first character of what follows, or in what follows. -/
theorem infix_pair_cons {x y : Char} : [c, c] <:+: x :: y :: text ↔ (x = c ∧ y = c) ∨ [c, c] <:+: y :: text := by
  rw [List.infix_cons_iff, List.cons_prefix_cons, List.cons_prefix_cons]
  simp only [List.nil_prefix, and_true, eq_comm]

theorem splitAtPair_append (h : ¬ [c, c] <:+: p ++ [c]) (rest : List Char) :
    splitAtPair c (p ++ c :: c :: rest) = some (p, rest) := by
  induction p with
  | nil => simp [splitAtPair]
  | cons x p ih =>
    obtain ⟨y, tail, hy⟩ : ∃ y tail, p ++ c :: c :: rest = y :: tail := by
      cases p with
      | nil => exact ⟨c, c :: rest, rfl⟩
      | cons y p => exact ⟨y, p ++ c :: c :: rest, rfl⟩
    have hhead : ∃ tail, p ++ [c] = y :: tail := by
      cases p with
      | nil =>
        cases hy
        exact ⟨[], rfl⟩
      | cons z p =>
        cases hy
        exact ⟨p ++ [c], rfl⟩
    obtain ⟨tail', htail⟩ := hhead
    rw [List.cons_append, htail, infix_pair_cons, not_or, ← htail] at h
    have hrec := ih h.2
    rw [List.cons_append, hy, splitAtPair, if_neg h.1, ← hy, hrec]
    rfl

theorem splitAtPair_some (h : splitAtPair c text = some (p, rest)) :
    text = p ++ c :: c :: rest ∧ ¬ [c, c] <:+: p ++ [c] := by
  fun_induction splitAtPair c text generalizing p with
  | case1 x y tail hpair =>
    obtain ⟨rfl, rfl⟩ := hpair
    cases h
    exact ⟨rfl, fun hinfix => by simpa using hinfix.length_le⟩
  | case2 x y tail hpair ih =>
    obtain ⟨⟨q, rest'⟩, hq, he⟩ := Option.map_eq_some_iff.1 h
    cases he
    obtain ⟨htext, hno⟩ := ih hq
    refine ⟨by rw [htext, List.cons_append], ?_⟩
    cases q with
    | nil =>
      obtain ⟨rfl, -⟩ := List.cons.inj htext
      exact fun hinfix => (infix_pair_cons.1 hinfix).elim hpair hno
    | cons z q =>
      obtain ⟨rfl, -⟩ := List.cons.inj htext
      exact fun hinfix => (infix_pair_cons.1 hinfix).elim hpair hno
  | case3 => cases h

theorem splitAtPair_none (h : splitAtPair c text = none) : ¬ [c, c] <:+: text := by
  fun_induction splitAtPair c text with
  | case1 => cases h
  | case2 x y tail hpair ih =>
    rw [infix_pair_cons, not_or]
    exact ⟨hpair, ih (Option.map_eq_none_iff.1 h)⟩
  | case3 text hshort =>
    intro hinfix
    match text, hshort, hinfix.length_le with
    | x :: y :: rest, hshort, _ => exact hshort x y rest rfl

/-! ## The scanner -/

/-- The text in double brackets behind a text that opens a link. -/
def OpenLink (text name : List Char) : Prop := ∃ a b, text = a ++ (bracketed name ++ b) ∧ Opens a

theorem bracketed_append (name b : List Char) : bracketed name ++ b = '[' :: '[' :: (name ++ ']' :: ']' :: b) := by
  simp [bracketed]

theorem no_pair_of_linkable (h : Linkable name) : ¬ [']', ']'] <:+: name ++ [']'] := by
  intro hinfix
  have hnone : List.count ']' name = 0 := by
    rw [List.count_eq_zero]
    exact fun hmem => h.2 (List.any_eq_true.2 ⟨']', hmem, by decide⟩)
  have hcount := hinfix.sublist.count_le ']'
  rw [List.count_append, hnone] at hcount
  simp at hcount

/-- An open link is the first pair of brackets, or lies behind it. -/
theorem openLink_iff (hname : Linkable name) : OpenLink text name ↔
    ∃ a rest m rest', splitAtPair '[' text = some (a, rest) ∧ splitAtPair ']' rest = some (m, rest') ∧
      (m = name ∨ OpenLink rest' name) := by
  constructor
  · rintro ⟨a, b, rfl, hopens⟩
    cases hopens with
    | first h =>
      rw [bracketed_append]
      exact ⟨a, name ++ ']' :: ']' :: b, name, b, splitAtPair_append h _, splitAtPair_append (no_pair_of_linkable hname) _,
        .inl rfl⟩
    | @next a m a' ha hm hopens =>
      rw [List.append_assoc, List.append_assoc, bracketed_append]
      exact ⟨a, _, m, a' ++ (bracketed name ++ b), splitAtPair_append ha _, splitAtPair_append hm _,
        .inr ⟨a', b, rfl, hopens⟩⟩
  · rintro ⟨a, rest, m, rest', hopen, hclose, h⟩
    obtain ⟨rfl, ha⟩ := splitAtPair_some hopen
    obtain ⟨rfl, hm⟩ := splitAtPair_some hclose
    rcases h with rfl | ⟨a', b, rfl, hopens⟩
    · exact ⟨a, rest', by rw [bracketed_append], .first ha⟩
    · refine ⟨a ++ (bracketed m ++ a'), b, ?_, .next ha hm hopens⟩
      rw [List.append_assoc, List.append_assoc, bracketed_append m]

theorem mem_linkNamesFrom {n : Nat} (h : text.length ≤ n) {name : String} :
    name ∈ linkNamesFrom n text ↔ Linkable name.toList ∧ OpenLink text name.toList := by
  induction n generalizing text with
  | zero =>
    rw [linkNamesFrom, List.eq_nil_of_length_eq_zero (Nat.le_zero.1 h)]
    refine ⟨fun h => absurd h List.not_mem_nil, fun ⟨_, a, b, he, _⟩ => ?_⟩
    have hlength := congrArg List.length he
    simp [bracketed] at hlength
  | succ n ih =>
    rw [linkNamesFrom]
    cases hopen : splitAtPair '[' text with
    | none =>
      refine ⟨fun h => absurd h List.not_mem_nil, fun ⟨hname, hlink⟩ => ?_⟩
      obtain ⟨a, rest, m, rest', hsplit, -⟩ := (openLink_iff hname).1 hlink
      rw [hopen] at hsplit
      cases hsplit
    | some r =>
      obtain ⟨a, rest⟩ := r
      dsimp only
      cases hclose : splitAtPair ']' rest with
      | none =>
        refine ⟨fun h => absurd h List.not_mem_nil, fun ⟨hname, hlink⟩ => ?_⟩
        obtain ⟨a', rest', m, rest'', hsplit, hsplit', -⟩ := (openLink_iff hname).1 hlink
        rw [hopen] at hsplit
        cases hsplit
        rw [hclose] at hsplit'
        cases hsplit'
      | some r =>
        obtain ⟨m, rest'⟩ := r
        have hlength : rest'.length ≤ n := by
          have htext := congrArg List.length (splitAtPair_some hopen).1
          have hrest := congrArg List.length (splitAtPair_some hclose).1
          simp at htext hrest
          omega
        -- the name is the one found here, or one of the rest
        have hiff : Linkable name.toList ∧ OpenLink text name.toList ↔
            Linkable name.toList ∧ (m = name.toList ∨ OpenLink rest' name.toList) := by
          refine and_congr_right fun hname => ?_
          rw [openLink_iff hname]
          constructor
          · rintro ⟨a', rest₂, m', rest₃, hsplit, hsplit', h⟩
            rw [hopen] at hsplit
            cases hsplit
            rw [hclose] at hsplit'
            cases hsplit'
            exact h
          · exact fun h => ⟨a, rest, m, rest', hopen, hclose, h⟩
        have hofList : m = name.toList ↔ name = String.ofList m := by
          constructor
          · rintro rfl
            exact String.ofList_toList.symm
          · rintro rfl
            exact String.toList_ofList.symm
        dsimp only
        rw [hiff, and_or_left, ← ih hlength]
        split
        · rename_i hkept
          rw [List.mem_cons, ← hofList]
          refine or_congr_left ⟨fun h => ⟨h ▸ hkept, h⟩, And.right⟩
        · rename_i hkept
          refine ⟨.inr, fun h => h.elim (fun h => absurd (h.2 ▸ h.1) hkept) id⟩

theorem mem_linkNames {markdown name : String} :
    name ∈ linkNames markdown ↔ Linkable name.toList ∧ OpenLink markdown.toList name.toList := by
  unfold linkNames
  rw [List.mem_insertionSort, List.mem_dedup, mem_linkNamesFrom (le_of_eq String.length_toList)]

theorem linkNames_increasing (markdown : String) : (linkNames markdown).Pairwise (· < ·) := by
  have hsorted : (linkNames markdown).Pairwise (· ≤ ·) := List.pairwise_insertionSort (· ≤ ·) _
  have hnodup : (linkNames markdown).Nodup := (List.perm_insertionSort _ _).nodup_iff.2 (List.nodup_dedup _)
  exact (hsorted.and hnodup).imp fun h => lt_of_le_of_ne h.1 h.2

theorem pageName_iff {name : String} : PageName name ↔ Linkable name.toList ∧ name.utf8ByteSize ≤ 2000 := by
  unfold PageName WikiLimits.name Linkable
  -- the two checks name the same characters
  have hany : name.toList.any (fun c => c == '\n' || c == '\r' || c == '[' || c == ']' || c == '\x00') =
      name.toList.any (fun c => c == '[' || c == ']' || c == '\n' || c == '\r' || c == '\x00') := by
    congr 1
    funext c
    cases c == '[' <;> cases c == ']' <;> cases c == '\n' <;> cases c == '\r' <;> rfl
  have hempty : name.isEmpty = true ↔ name.toList = [] := by
    rw [String.isEmpty_iff, String.toList_eq_nil_iff]
  rw [hany]
  simp only [Bool.or_eq_true, decide_eq_true_eq, hempty]
  constructor
  · intro h
    split at h
    · cases h
    · rename_i hgood
      rw [not_or, not_or, not_lt] at hgood
      exact ⟨⟨hgood.1.1, hgood.2⟩, hgood.1.2⟩
  · rintro ⟨⟨hne, hchars⟩, hsize⟩
    refine if_neg ?_
    rw [not_or, not_or, not_lt]
    exact ⟨⟨hne, hsize⟩, hchars⟩

/-- The names are those of the valid page names that stand in double brackets, in order and once. -/
structure LinksExact (markdown : String) : Prop where
  increasing : (linkNames markdown).Pairwise (· < ·)
  exact : ∀ name, name ∈ linkNames markdown ↔ PageName name ∧ bracketed name.toList <:+: markdown.toList

/-- The names are exact if every valid name in double brackets stands once where no opening pair waits for its closing
one, and no longer name stands there. -/
theorem linksExact_iff (markdown : String) : LinksExact markdown ↔
    ∀ name : String, Linkable name.toList → bracketed name.toList <:+: markdown.toList →
      (OpenLink markdown.toList name.toList ↔ name.utf8ByteSize ≤ 2000) := by
  constructor
  · rintro ⟨-, hexact⟩ name hname hin
    have h := hexact name
    rw [mem_linkNames, pageName_iff, and_assoc, and_congr_right_iff] at h
    rw [h hname, and_iff_left hin]
  · intro h
    refine ⟨linkNames_increasing markdown, fun name => ?_⟩
    rw [mem_linkNames, pageName_iff, and_assoc, and_congr_right_iff]
    intro hname
    constructor
    · intro hopen
      have hin : bracketed name.toList <:+: markdown.toList := by
        obtain ⟨a, b, he, -⟩ := hopen
        exact ⟨a, b, by rw [he, List.append_assoc]⟩
      exact ⟨(h name hname hin).1 hopen, hin⟩
    · rintro ⟨hsize, hin⟩
      exact (h name hname hin).2 hsize

/-- An opening pair that waits for its closing one hides the link behind it. -/
theorem unclosed_pair_not_linksExact : ¬ LinksExact "[[x [[b]]" := by
  rintro ⟨-, hexact⟩
  have hname : PageName "b" := pageName_iff.2 ⟨by decide +kernel, by decide +kernel⟩
  have h := (hexact "b").2 ⟨hname, by decide +kernel⟩
  exact absurd h (by decide +kernel)

end
end Inoreader
