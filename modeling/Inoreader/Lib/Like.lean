import Mathlib.Data.List.Infix

/-!
# `LIKE`

Patterns with `%` for any text and `_` for any character; a backslash takes the next character as it stands. A pattern
that ends in a backslash matches nothing.
-/

namespace Lib.Like

def isLike : List Char → List Char → Bool
  | [], text => text.isEmpty
  | '\\' :: c :: pattern, text => text.head? = some c && isLike pattern text.tail
  | c :: pattern, text =>
    if c = '%' then text.tails.any (isLike pattern)
    else if c = '_' then !text.isEmpty && isLike pattern text.tail
    else if c = '\\' then false
    else text.head? = some c && isLike pattern text.tail

/-- `str::replace` of one character. -/
def replaceChar (c : Char) (new : List Char) (s : List Char) : List Char := s.flatMap fun d => if d = c then new else [d]

/-- A text as a pattern that only this text matches. -/
def escape (s : List Char) : List Char :=
  replaceChar '_' ['\\', '_'] (replaceChar '%' ['\\', '%'] (replaceChar '\\' ['\\', '\\'] s))

/-- `ILIKE`, where `lower` is the lower case of the database. -/
def isILike (lower : Char → Char) (pattern text : List Char) : Bool := isLike (pattern.map lower) (text.map lower)

/-- The characters with a meaning in patterns. -/
def isSpecial (c : Char) : Bool := c = '\\' || c = '%' || c = '_'

def escapeChar (c : Char) : List Char := if isSpecial c then ['\\', c] else [c]

variable {s text pattern : List Char} {c : Char}

theorem escape_eq (s : List Char) : escape s = s.flatMap escapeChar := by
  unfold escape replaceChar
  rw [List.flatMap_assoc, List.flatMap_assoc]
  refine List.flatMap_congr fun c _ => ?_
  unfold escapeChar isSpecial
  by_cases hslash : c = '\\'
  · subst hslash
    rfl
  by_cases hpercent : c = '%'
  · subst hpercent
    rfl
  by_cases hline : c = '_'
  · subst hline
    rfl
  simp [hslash, hpercent, hline]

theorem isLike_escapeChar (c : Char) (pattern text : List Char) :
    isLike (escapeChar c ++ pattern) text = (text.head? = some c && isLike pattern text.tail) := by
  unfold escapeChar
  by_cases h : isSpecial c = true
  · rw [if_pos h]
    rfl
  · rw [if_neg h]
    simp only [isSpecial, Bool.or_eq_true, decide_eq_true_eq, not_or] at h
    obtain ⟨⟨hslash, hpercent⟩, hline⟩ := h
    rw [List.singleton_append, isLike, if_neg hpercent, if_neg hline, if_neg hslash]
    intro c' pattern' hc
    exact absurd hc hslash

/-- An escaped text is matched by itself. -/
theorem isLike_escape (s pattern text : List Char) :
    isLike (escape s ++ pattern) text = true ↔ ∃ rest, text = s ++ rest ∧ isLike pattern rest = true := by
  rw [escape_eq]
  induction s generalizing text with
  | nil => simp
  | cons c s ih =>
    rw [List.flatMap_cons, List.append_assoc, isLike_escapeChar, Bool.and_eq_true, decide_eq_true_eq, ih]
    constructor
    · rintro ⟨hc, rest, hrest, hlike⟩
      refine ⟨rest, ?_, hlike⟩
      obtain ⟨tail, rfl⟩ : ∃ tail, text = c :: tail := List.head?_eq_some_iff.1 hc
      rw [List.tail_cons] at hrest
      rw [hrest, List.cons_append]
    · rintro ⟨rest, rfl, hlike⟩
      exact ⟨rfl, rest, rfl, hlike⟩

theorem isLike_any (pattern text : List Char) :
    isLike ('%' :: pattern) text = true ↔ ∃ pre rest, text = pre ++ rest ∧ isLike pattern rest = true := by
  rw [isLike, if_pos rfl, List.any_eq_true]
  · constructor
    · rintro ⟨rest, hrest, h⟩
      obtain ⟨pre, rfl⟩ := (List.mem_tails ..).1 hrest
      exact ⟨pre, rest, rfl, h⟩
    · rintro ⟨pre, rest, rfl, h⟩
      exact ⟨rest, (List.mem_tails ..).2 (List.suffix_append pre rest), h⟩
  · intro c pattern' h
    exact absurd h (by decide)

/-- `%…%` around an escaped text finds that text and nothing else. -/
theorem isLike_contains (s text : List Char) : isLike ('%' :: (escape s ++ ['%'])) text = true ↔ s <:+: text := by
  have hend : ∀ rest, isLike ['%'] rest = true := fun rest =>
    (isLike_any [] rest).2 ⟨rest, [], (List.append_nil rest).symm, rfl⟩
  simp only [isLike_any, isLike_escape, hend, and_true]
  constructor
  · rintro ⟨pre, _, rfl, rest, rfl⟩
    exact ⟨pre, rest, List.append_assoc ..⟩
  · rintro ⟨pre, rest, rfl⟩
    exact ⟨pre, s ++ rest, List.append_assoc .., rest, rfl⟩

/-- Lower case is about letters: it neither makes nor changes a character with a meaning in patterns. -/
def KeepsSpecial (lower : Char → Char) : Prop := ∀ c d, isSpecial d = true → (lower c = d ↔ c = d)

theorem map_escape {lower : Char → Char} (h : KeepsSpecial lower) (s : List Char) :
    (escape s).map lower = escape (s.map lower) := by
  rw [escape_eq, escape_eq, List.map_flatMap, List.flatMap_map]
  refine List.flatMap_congr fun c _ => ?_
  have hslash : lower '\\' = '\\' := (h _ '\\' rfl).2 rfl
  have hsame : isSpecial (lower c) = isSpecial c := by
    rw [Bool.eq_iff_iff]
    constructor
    · intro hc
      have he := (h c _ hc).1 rfl
      rwa [← he] at hc
    · intro hc
      rwa [(h c c hc).2 rfl]
  unfold escapeChar
  rw [hsame]
  by_cases hc : isSpecial c = true
  · rw [if_pos hc, if_pos hc, List.map_cons, List.map_singleton, hslash]
  · rw [if_neg hc, if_neg hc, List.map_singleton]

/-- `ILIKE '%…%'` finds a literal text in any case. -/
theorem isILike_contains {lower : Char → Char} (h : KeepsSpecial lower) (s text : List Char) :
    isILike lower ('%' :: (escape s ++ ['%'])) text = true ↔ s.map lower <:+: text.map lower := by
  have hpercent : lower '%' = '%' := (h _ '%' rfl).2 rfl
  rw [isILike, List.map_cons, List.map_append, map_escape h, List.map_singleton, hpercent, isLike_contains]

end Lib.Like
