import Mathlib.Data.List.Sort
import Mathlib.Data.List.TakeWhile
import Inoreader.Glossary.StyledText
import Inoreader.Lib.Text

/-!
# Definitions in a text (`reader-glossary/src/definition_parser.rs`)

A paragraph that begins with a bold name, a dash and some text defines that name. The loop over the paragraphs goes
from byte to byte, the result is given in UTF-16 code units. The walk over HTML is left out.
-/

namespace Inoreader.Glossary
open Lib

/-- A definition: a name and the paragraph that it begins. -/
structure Definition where
  term : List Char
  position : Nat
  paragraph : StyledText
deriving DecidableEq, Repr

/-! ## A paragraph -/

def isDash (ch : Char) : Bool := ch == '-' || ch == '–' || ch == '—'

/-- A plain or a no-break space. -/
def isBlankChar (ch : Char) : Bool := ch == ' ' || ch == '\u00a0'

/-- `bold_end`: how far the bold marks cover the text from its start, without a gap. -/
def boldEnd (paragraph : StyledText) : Nat :=
  coveredPrefix 0 (((paragraph.marks.filter (·.style = .bold)).insertionSort (·.start ≤ ·.start)).map fun mark =>
    (mark.start, mark.stop))

/-- A name that can be defined: in one line, without blanks at its ends, and bold as a whole. -/
def isTerm (boldEnd : Nat) (term : List Char) : Bool :=
  !(term.isEmpty || term.head?.any isWhiteSpace || term.getLast?.any isWhiteSpace || term.contains '\n' ||
    boldEnd < utf16Len term)

/-- The term before a character at which the loop does not go on. -/
def termBefore (boldEnd : Nat) (before : List Char) (ch : Char) (rest : List Char) : Option (List Char) :=
  if isDash ch = false ∨ before = [] then none
  else
    match before.getLast?, rest.head? with
    | some space, some after =>
      if isBlankChar space && isBlankChar after && isTerm boldEnd before.dropLast then some before.dropLast else none
    | _, _ => none

/-- The loop over `text.char_indices()`; the first dash that qualifies decides. -/
def scanDashes (boldEnd : Nat) (before : List Char) : List Char → Option (List Char)
  | [] => none
  | ch :: rest =>
    match termBefore boldEnd before ch rest with
    | none => scanDashes boldEnd (before ++ [ch]) rest
    | some term => if rest.tail.all isWhiteSpace then none else some term

/-- `parse_paragraph` -/
def parseParagraph (paragraph : StyledText) (position : Nat) : Except GlossaryError (Option Definition) :=
  if boldEnd paragraph = 0 then .ok none
  else .ok ((scanDashes (boldEnd paragraph) [] paragraph.text).map fun term => { term, position, paragraph })

/-! ## The paragraphs of a text -/

/-- How `definitions` can end without a result. -/
inductive Abort
  | error (e : GlossaryError)
  /-- A text is indexed within a character. -/
  | panic
  /-- The loop does not end. -/
  | unfinished
deriving DecidableEq, Repr

/-- `text[start..]` and the like. -/
def indexed {α : Type} : Option α → Except Abort α
  | some a => .ok a
  | none => .error .panic

/-- `str::as_bytes` -/
def asBytes (text : List Char) : List UInt8 := text.flatMap String.utf8EncodeChar

/-- The inner loop, on the bytes from `start` on. -/
def skipNewlines (start : Nat) : List UInt8 → Nat
  | [] => start
  | byte :: rest => if byte = 0x0a then skipNewlines (start + 1) rest else start

/-- `find("\n\n")` -/
def findBlankLine : List Char → Option Nat
  | [] => none
  | ch :: rest => if ['\n', '\n'] <+: ch :: rest then some 0 else (findBlankLine rest).map (· + ch.utf8Size)

/-- The loop of `definitions`, with a bound on its rounds. -/
def definitionsLoop (text : StyledText) : Nat → Nat → List Definition → Except Abort (List Definition)
  | 0, _, _ => .error .unfinished
  | rounds + 1, start, result =>
    if start < byteLen text.text then
      let start := skipNewlines start ((asBytes text.text).drop start)
      if start = byteLen text.text then .ok result
      else do
        let parts ← indexed (cut Char.utf8Size text.text start)
        let stop := (findBlankLine parts.2).elim (byteLen text.text) (start + ·)
        let body ← indexed (between Char.utf8Size text.text start stop)
        let position := utf16Len parts.1
        let paragraph ← (text.slice position (position + utf16Len body)).mapError .error
        let definition ← (parseParagraph paragraph position).mapError .error
        definitionsLoop text rounds stop (result ++ definition.toList)
    else .ok result

/-- `definitions`; a round consumes at least one character. -/
def definitions (text : StyledText) : Except Abort (List Definition) :=
  definitionsLoop text (text.text.length + 1) 0 []

/-! ## JSON -/

def Definition.toJson (d : Definition) : Lib.Json :=
  .obj [("term", .string d.term), ("position", offsetJson d.position), ("paragraph", d.paragraph.toJson)]

/-- `Definition::try_from(DefinitionWire)` -/
def Definition.tryFrom (term : List Char) (position : Nat) (paragraph : StyledText) :
    Except GlossaryError Definition := do
  match ← parseParagraph paragraph position with
  | none => throw .formatting
  | some definition => if definition.term ≠ term then throw .formatting else pure definition

def Definition.ofJson (v : Lib.Json) : Option Definition := do
  v.onlyFields ["term", "position", "paragraph"]
  let term ← v.required Lib.Json.asStr "term"
  let position ← v.required Lib.Json.asU64 "position"
  let paragraph ← v.required StyledText.ofJson "paragraph"
  (Definition.tryFrom term position paragraph).toOption

/-! ## What is to be extracted -/

/-- A dash with spaces around it after a bold name in one line, with the rest of the text after the second space. -/
structure Qualifies (p : StyledText) (term rest : List Char) : Prop where
  dash : ∃ space ch after, isBlankChar space = true ∧ isDash ch = true ∧ isBlankChar after = true ∧
    p.text = term ++ space :: ch :: after :: rest
  nonempty : term ≠ []
  line : '\n' ∉ term
  outer : term.head?.any isWhiteSpace = false ∧ term.getLast?.any isWhiteSpace = false
  bold : ∀ u < utf16Len term, .bold ∈ p.stylesAt u

/-- The first dash that qualifies comes after the term, and it is not all. -/
def Defines (p : StyledText) (term : List Char) : Prop :=
  ∃ rest, Qualifies p term rest ∧ (∀ term' rest', Qualifies p term' rest' → term.length ≤ term'.length) ∧
    ¬ rest.all isWhiteSpace

/-- A text that ends before the first blank line of what follows, or with it. -/
structure EndsAtBlank (body post : List Char) : Prop where
  ended : post = [] ∨ ['\n', '\n'] <+: post
  first : ∀ b₁ b₂, body = b₁ ++ b₂ → b₂ ≠ [] → ¬ ['\n', '\n'] <+: b₂ ++ post

/-- A maximal run from a character that is not a newline to the next blank line. -/
structure IsParagraph (text pre body post : List Char) : Prop where
  split : text = pre ++ (body ++ post)
  starts : ∃ c, body.head? = some c ∧ c ≠ '\n'
  begins : (∀ c ∈ pre, c = '\n') ∨ ['\n', '\n'] <:+ pre
  ends : EndsAtBlank body post

/-- The definition of a paragraph. -/
structure DefinitionOf (t : StyledText) (pre body : List Char) (d : Definition) : Prop where
  position : d.position = utf16Len pre
  paragraph : t.slice (utf16Len pre) (utf16Len pre + utf16Len body) = .ok d.paragraph
  term : Defines d.paragraph d.term

/-! ## A paragraph is parsed -/

section
variable {p t : StyledText} {term term' before rest rest' : List Char} {ch : Char} {position : Nat} {d : Definition}

/-- The bold prefix is as long as possible. -/
theorem le_boldEnd_iff (p : StyledText) (n : Nat) : n ≤ boldEnd p ↔ ∀ u < n, .bold ∈ p.stylesAt u := by
  have hsorted : (((p.marks.filter (·.style = .bold)).insertionSort (·.start ≤ ·.start)).map fun mark =>
      (mark.start, mark.stop)).Pairwise (·.1 ≤ ·.1) := by
    rw [List.pairwise_map]
    exact List.pairwise_insertionSort (fun m₁ m₂ : TextMark => m₁.start ≤ m₂.start) _
  rw [boldEnd, le_coveredPrefix_iff hsorted]
  refine forall₂_congr fun u _ => ?_
  unfold StyledText.stylesAt
  constructor
  · rintro (hneg | ⟨i, hi, hcover⟩)
    · omega
    · obtain ⟨m, hm, rfl⟩ := List.mem_map.1 hi
      rw [List.mem_insertionSort, List.mem_filter, decide_eq_true_eq] at hm
      exact List.mem_map.2 ⟨m, List.mem_filter.2 ⟨hm.1, by simpa using hcover⟩, hm.2⟩
  · intro h
    obtain ⟨m, hm, hstyle⟩ := List.mem_map.1 h
    obtain ⟨hm, hcover⟩ := List.mem_filter.1 hm
    refine .inr ⟨(m.start, m.stop), List.mem_map.2 ⟨m, ?_, rfl⟩, by simpa using hcover⟩
    rw [List.mem_insertionSort, List.mem_filter, decide_eq_true_eq]
    exact ⟨hm, hstyle⟩

theorem isTerm_iff : isTerm (boldEnd p) term = true ↔ term ≠ [] ∧ '\n' ∉ term ∧
    (term.head?.any isWhiteSpace = false ∧ term.getLast?.any isWhiteSpace = false) ∧
      ∀ u < utf16Len term, .bold ∈ p.stylesAt u := by
  rw [← le_boldEnd_iff]
  simp only [isTerm, Bool.not_eq_true', Bool.or_eq_false_iff, List.isEmpty_eq_false_iff, decide_eq_false_iff_not,
    Nat.not_lt, List.contains_eq_mem]
  tauto

/-- A place of the text belongs to one dash. -/
theorem Qualifies.split (h : Qualifies p term rest') (htext : p.text = before ++ ch :: rest)
    (hlength : before.length = term.length + 1) : ∃ space after, isBlankChar space = true ∧ isDash ch = true ∧
      isBlankChar after = true ∧ before = term ++ [space] ∧ rest = after :: rest' := by
  obtain ⟨space, ch', after, hspace, hdash, hafter, hsplit⟩ := h.dash
  have heq : before ++ ch :: rest = (term ++ [space]) ++ ch' :: after :: rest' := by
    rw [← htext, hsplit, List.append_assoc]
    rfl
  obtain ⟨hbefore, hrest⟩ := List.append_inj heq (by rw [hlength, List.length_append]; rfl)
  obtain ⟨rfl, rfl⟩ := List.cons_eq_cons.1 hrest
  exact ⟨space, after, hspace, hdash, hafter, hbefore, rfl⟩

/-- What is tested at a character. -/
theorem termBefore_eq_some (htext : p.text = before ++ ch :: rest) : termBefore (boldEnd p) before ch rest = some term ↔
    Qualifies p term rest.tail ∧ before.length = term.length + 1 := by
  constructor
  · intro h
    unfold termBefore at h
    split_ifs at h with hskip
    rw [not_or, Bool.not_eq_false] at hskip
    split at h
    · rename_i space after hspace hafter
      obtain ⟨init, rfl⟩ := List.getLast?_eq_some_iff.1 hspace
      obtain ⟨tail, rfl⟩ := List.head?_eq_some_iff.1 hafter
      split_ifs at h with htest
      cases h
      rw [List.dropLast_concat] at htest ⊢
      rw [Bool.and_eq_true, Bool.and_eq_true] at htest
      obtain ⟨⟨hspace, hafter⟩, hterm⟩ := htest
      obtain ⟨hnonempty, hline, houter, hbold⟩ := isTerm_iff.1 hterm
      refine ⟨⟨⟨space, ch, after, hspace, hskip.1, hafter, ?_⟩, hnonempty, hline, houter, hbold⟩, List.length_append⟩
      rw [htext, List.append_assoc]
      rfl
    · cases h
  · rintro ⟨h, hlength⟩
    obtain ⟨space, after, hspace, hdash, hafter, rfl, hrest⟩ := h.split htext hlength
    have hterm := isTerm_iff.2 ⟨h.nonempty, h.line, h.outer, h.bold⟩
    unfold termBefore
    rw [if_neg (by simp [hdash]), hrest, List.getLast?_concat]
    dsimp only [List.head?_cons]
    rw [List.dropLast_concat, hspace, hafter, hterm]
    rfl

/-- The loop finds the first dash that qualifies from a place on. -/
theorem scanDashes_eq_some (htext : p.text = before ++ rest) : scanDashes (boldEnd p) before rest = some term ↔
    ∃ after, Qualifies p term after ∧ before.length ≤ term.length + 1 ∧ ¬ after.all isWhiteSpace ∧
      ∀ term' rest', Qualifies p term' rest' → before.length ≤ term'.length + 1 → term.length ≤ term'.length := by
  induction rest generalizing before with
  | nil =>
    refine iff_of_false (Option.some_ne_none _).symm ?_
    rintro ⟨after, h, hle, -⟩
    obtain ⟨space, ch, c, -, -, -, hsplit⟩ := h.dash
    have hlength := congrArg List.length (htext.symm.trans hsplit)
    simp only [List.append_nil, List.length_append, List.length_cons] at hlength
    omega
  | cons ch rest ih =>
    unfold scanDashes
    cases hterm : termBefore (boldEnd p) before ch rest with
    | none =>
      have hno : ∀ term' rest', Qualifies p term' rest' → before.length ≠ term'.length + 1 := by
        intro term' rest' h hlength
        obtain ⟨space, after, -, -, -, -, hrest⟩ := h.split htext hlength
        rw [(termBefore_eq_some htext).2 ⟨by rw [hrest]; exact h, hlength⟩] at hterm
        cases hterm
      have hbound : ∀ term' rest', Qualifies p term' rest' →
          ((before ++ [ch]).length ≤ term'.length + 1 ↔ before.length ≤ term'.length + 1) := by
        intro term' rest' h
        have hne := hno term' rest' h
        rw [List.length_append, List.length_singleton]
        omega
      dsimp only
      rw [ih (by rw [htext, List.append_assoc]; rfl)]
      refine exists_congr fun after => and_congr_right fun h => ?_
      rw [hbound term after h]
      refine and_congr_right fun _ => and_congr_right fun _ => ?_
      exact forall₃_congr fun term' rest' h' => by rw [hbound term' rest' h']
    | some found =>
      obtain ⟨hfound, hlength⟩ := (termBefore_eq_some htext).1 hterm
      -- a term that comes first is the one that was found
      have hfirst : ∀ {term after}, Qualifies p term after → before.length ≤ term.length + 1 →
          term.length ≤ found.length → term = found ∧ after = rest.tail := by
        intro term after h hle hle'
        obtain ⟨space, c, -, -, -, hbefore, hrest⟩ := h.split htext (by omega)
        obtain ⟨space', c', -, -, -, hbefore', -⟩ := hfound.split htext hlength
        exact ⟨(List.append_inj (hbefore.symm.trans hbefore') (by omega)).1, by rw [hrest]; rfl⟩
      dsimp only
      by_cases hblank : rest.tail.all isWhiteSpace = true
      · rw [if_pos hblank]
        refine iff_of_false (Option.some_ne_none _).symm ?_
        rintro ⟨after, h, hle, hrest, hmin⟩
        obtain ⟨-, rfl⟩ := hfirst h hle (hmin found rest.tail hfound (by omega))
        exact hrest hblank
      · rw [if_neg hblank, Option.some.injEq]
        constructor
        · rintro rfl
          exact ⟨rest.tail, hfound, by omega, hblank, fun term' rest' _ hle => by omega⟩
        · rintro ⟨after, h, hle, -, hmin⟩
          exact (hfirst h hle (hmin found rest.tail hfound (by omega))).1.symm

theorem parseParagraph_isOk (p : StyledText) (position : Nat) : ∃ d, parseParagraph p position = .ok d := by
  unfold parseParagraph
  split_ifs
  · exact ⟨_, rfl⟩
  · exact ⟨_, rfl⟩

/-- A paragraph has a definition if its first dash that qualifies is followed by text. -/
theorem parseParagraph_ok_iff : parseParagraph p position = .ok (some d) ↔
    d.position = position ∧ d.paragraph = p ∧ Defines p d.term := by
  have hscan : scanDashes (boldEnd p) [] p.text = some d.term ↔ Defines p d.term := by
    rw [scanDashes_eq_some (List.nil_append _).symm]
    simp only [List.length_nil, Nat.zero_le, true_and, true_implies]
    exact exists_congr fun after => and_congr_right fun _ => and_comm
  unfold parseParagraph
  split_ifs with hbold
  · refine iff_of_false (fun h => by cases h) ?_
    rintro ⟨-, -, rest, h, -⟩
    have hle := (le_boldEnd_iff p _).2 h.bold
    have hpos : 0 < utf16Len d.term := units_pos lenUtf16_pos h.nonempty
    omega
  · rw [← hscan, Except.ok.injEq, Option.map_eq_some_iff]
    constructor
    · rintro ⟨term, hterm, rfl⟩
      exact ⟨rfl, rfl, hterm⟩
    · rintro ⟨rfl, rfl, hterm⟩
      exact ⟨d.term, hterm, rfl⟩

end
/-! ## Paragraphs of a text -/

section
variable {text pre pre' body body' post post' before ns rest : List Char} {c : Char}

theorem EndsAtBlank.cons (h : EndsAtBlank body post) (hno : ¬ ['\n', '\n'] <+: c :: (body ++ post)) :
    EndsAtBlank (c :: body) post := by
  refine ⟨h.ended, fun b₁ b₂ hsplit hne => ?_⟩
  cases b₁ with
  | nil =>
    obtain rfl : c :: body = b₂ := hsplit
    exact hno
  | cons d b₁ => exact h.first b₁ b₂ (List.cons_eq_cons.1 hsplit).2 hne

/-- What `find` returns is where the text ends before a blank line. -/
theorem exists_endsAtBlank (rest : List Char) : ∃ body post, rest = body ++ post ∧ EndsAtBlank body post ∧
    ((findBlankLine rest = none ∧ post = []) ∨ findBlankLine rest = some (byteLen body)) := by
  induction rest with
  | nil =>
    refine ⟨[], [], rfl, ⟨.inl rfl, fun b₁ b₂ h hne => ?_⟩, .inl ⟨rfl, rfl⟩⟩
    exact absurd (List.append_eq_nil_iff.1 h.symm).2 hne
  | cons c rest ih =>
    unfold findBlankLine
    by_cases hblank : ['\n', '\n'] <+: c :: rest
    · rw [if_pos hblank]
      refine ⟨[], c :: rest, rfl, ⟨.inr hblank, fun b₁ b₂ h hne => ?_⟩, .inr rfl⟩
      exact absurd (List.append_eq_nil_iff.1 h.symm).2 hne
    · obtain ⟨body, post, rfl, hends, hfind⟩ := ih
      rw [if_neg hblank]
      refine ⟨c :: body, post, rfl, hends.cons hblank, ?_⟩
      rcases hfind with ⟨hnone, hpost⟩ | hsome
      · exact .inl ⟨by rw [hnone]; rfl, hpost⟩
      · refine .inr ?_
        rw [hsome, byteLen, byteLen, units_cons, Nat.add_comm]
        rfl

theorem EndsAtBlank.body_prefix (h : EndsAtBlank body post) (h' : EndsAtBlank body' post')
    (heq : body ++ post = body' ++ post') (hle : body.length ≤ body'.length) : body = body' := by
  obtain ⟨x, rfl⟩ := prefix_of_append_eq heq hle
  rw [List.append_assoc, List.append_cancel_left_eq] at heq
  by_cases hx : x = []
  · rw [hx, List.append_nil]
  · rcases h.ended with hpost | hblank
    · rw [hpost] at heq
      exact absurd (List.append_eq_nil_iff.1 heq.symm).1 hx
    · rw [heq] at hblank
      exact absurd hblank (h'.first body x rfl hx)

theorem EndsAtBlank.unique (h : EndsAtBlank body post) (h' : EndsAtBlank body' post')
    (heq : body ++ post = body' ++ post') : body = body' := by
  rcases Nat.le_total body.length body'.length with hle | hle
  · exact h.body_prefix h' heq hle
  · exact (h'.body_prefix h heq.symm hle).symm

namespace IsParagraph

theorem prefix_text (h : IsParagraph text pre body post) : pre <+: text := h.split ▸ List.prefix_append ..

theorem front_prefix (h : IsParagraph text pre body post) : pre ++ body <+: text := by
  rw [h.split, ← List.append_assoc]
  exact List.prefix_append ..

theorem body_ne_nil (h : IsParagraph text pre body post) : body ≠ [] := by
  rintro rfl
  obtain ⟨c, hc, -⟩ := h.starts
  cases hc

/-- A paragraph is determined by where it begins. -/
theorem unique (h : IsParagraph text pre body post) (h' : IsParagraph text pre' body' post')
    (hlength : pre.length = pre'.length) : pre = pre' ∧ body = body' := by
  obtain ⟨rfl, hrest⟩ := List.append_inj (h.split.symm.trans h'.split) hlength
  exact ⟨rfl, h.ends.unique h'.ends hrest⟩

/-- No paragraph begins within another one. -/
theorem disjoint (h : IsParagraph text pre body post) (h' : IsParagraph text pre' body' post')
    (hlength : pre.length < pre'.length) : pre ++ body <+: pre' := by
  obtain ⟨x, rfl⟩ : pre <+: pre' := List.prefix_of_prefix_length_le h.prefix_text h'.prefix_text hlength.le
  have hsplit : x ++ (body' ++ post') = body ++ post := by
    have heq := h'.split.symm.trans h.split
    rwa [List.append_assoc, List.append_cancel_left_eq] at heq
  rw [List.prefix_append_right_inj]
  rcases Nat.lt_or_ge x.length body.length with hlt | hge
  · -- a newline would stand at the start of the body, or a blank line in it
    obtain ⟨y, rfl⟩ := prefix_of_append_eq hsplit hlt.le
    have hy : y ≠ [] := by
      rintro rfl
      rw [List.append_nil] at hlt
      omega
    obtain ⟨c, hc, hne⟩ := h.starts
    cases x with
    | nil =>
      rw [List.append_nil] at hlength
      omega
    | cons d x =>
      cases hc
      exfalso
      rcases h'.begins with hall | hblank
      · exact hne (hall _ (List.mem_append_right _ List.mem_cons_self))
      · cases x with
        | nil =>
          obtain ⟨z, hz⟩ := hblank
          have hlast := congrArg List.getLast? hz
          simp only [List.getLast?_append, List.getLast?_cons_cons, List.getLast?_singleton, Option.some_or,
            Option.some.injEq] at hlast
          exact hne hlast.symm
        | cons e x =>
          have hsuffix : ['\n', '\n'] <:+ c :: e :: x :=
            List.suffix_of_suffix_length_le hblank (List.suffix_append ..) (by simp)
          obtain ⟨z, hz⟩ := hsuffix
          refine h.ends.first z (['\n', '\n'] ++ y) ?_ (by simp) ⟨y ++ post, (List.append_assoc ..).symm⟩
          rw [← List.append_assoc, hz]
  · exact prefix_of_append_eq hsplit.symm hge

/-- No paragraph begins with a newline. -/
theorem after_newlines (h : IsParagraph text pre body post) (hns : ∀ c ∈ ns, c = '\n')
    (htext : text = before ++ (ns ++ rest)) (hle : before.length ≤ pre.length) :
    (before ++ ns).length ≤ pre.length := by
  obtain ⟨x, rfl⟩ : before <+: pre :=
    List.prefix_of_prefix_length_le (htext ▸ List.prefix_append ..) h.prefix_text hle
  have hsplit : ns ++ rest = x ++ (body ++ post) := by
    have heq := htext.symm.trans h.split
    rwa [List.append_assoc, List.append_cancel_left_eq] at heq
  rw [List.length_append, List.length_append]
  by_contra hlt
  obtain ⟨y, rfl⟩ := prefix_of_append_eq hsplit.symm (by omega)
  rw [List.append_assoc, List.append_cancel_left_eq] at hsplit
  obtain ⟨c, hc, hne⟩ := h.starts
  cases y with
  | nil =>
    rw [List.append_nil] at hlt
    omega
  | cons d y =>
    obtain ⟨body', rfl⟩ := List.head?_eq_some_iff.1 hc
    obtain ⟨rfl, -⟩ := List.cons_eq_cons.1 hsplit
    exact hne (hns d (by simp))

end IsParagraph

/-- After a blank line, or at the start of the text, the next character that is not a newline begins a paragraph. -/
theorem begins_after_newlines (hresumes : before = [] ∨ ['\n', '\n'] <+: ns ++ c :: rest) (hns : ∀ d ∈ ns, d = '\n')
    (hc : c ≠ '\n') : (∀ d ∈ before ++ ns, d = '\n') ∨ ['\n', '\n'] <:+ before ++ ns := by
  rcases hresumes with rfl | hblank
  · exact .inl hns
  · refine .inr (List.IsSuffix.trans ?_ (List.suffix_append before ns))
    obtain ⟨k, hk⟩ : ∃ k, ns = List.replicate k '\n' := ⟨_, List.eq_replicate_of_mem hns⟩
    subst hk
    match k, hblank with
    | 0, hblank => exact absurd (List.cons_prefix_cons.1 hblank).1.symm hc
    | 1, hblank => exact absurd (List.cons_prefix_cons.1 (List.cons_prefix_cons.1 hblank).2).1.symm hc
    | k + 2, _ => exact ⟨List.replicate k '\n', (List.replicate_append_replicate (n := k) (m := 2))⟩

/-! ## Bytes -/

/-- In UTF-8 the first byte of a character tells whether it is a newline. -/
theorem utf8EncodeChar_cons (c : Char) : ∃ byte bytes, String.utf8EncodeChar c = byte :: bytes ∧
    (byte = 0x0a ↔ c = '\n') := by
  have hnewline : c = '\n' ↔ c.val.toNat = 10 :=
    ⟨fun h => by rw [h]; rfl, fun h => Char.toNat_inj.1 h⟩
  have hbyte : ∀ n : Nat, UInt8.ofNat n = 0x0a ↔ n % 256 = 10 := by
    intro n
    rw [← UInt8.toNat_inj, UInt8.toNat_ofNat']
    rfl
  unfold String.utf8EncodeChar
  dsimp only
  split_ifs
  · exact ⟨_, _, rfl, by rw [hbyte, hnewline]; omega⟩
  · exact ⟨_, _, rfl, by rw [hbyte, hnewline]; omega⟩
  · exact ⟨_, _, rfl, by rw [hbyte, hnewline]; omega⟩
  · exact ⟨_, _, rfl, by rw [hbyte, hnewline]; omega⟩

theorem asBytes_append (text rest : List Char) : asBytes (text ++ rest) = asBytes text ++ asBytes rest :=
  List.flatMap_append

theorem length_asBytes (text : List Char) : (asBytes text).length = byteLen text := by
  induction text with
  | nil => rfl
  | cons c text ih =>
    rw [asBytes, List.flatMap_cons, List.length_append, String.length_utf8EncodeChar, byteLen, units_cons]
    exact congrArg _ ih

/-- The inner loop stops at the first character that is not a newline. -/
theorem skipNewlines_eq (hns : ∀ d ∈ ns, d = '\n') (hrest : rest.head? ≠ some '\n') (start : Nat) :
    skipNewlines start (asBytes (ns ++ rest)) = start + byteLen ns := by
  induction ns generalizing start with
  | nil =>
    cases rest with
    | nil => rfl
    | cons c rest =>
      obtain ⟨byte, bytes, hbytes, hnewline⟩ := utf8EncodeChar_cons c
      have hne : byte ≠ 0x0a := fun h => hrest (congrArg some (hnewline.1 h))
      rw [List.nil_append, asBytes, List.flatMap_cons, hbytes, List.cons_append, skipNewlines, if_neg hne]
      rfl
  | cons c ns ih =>
    obtain rfl : c = '\n' := hns c List.mem_cons_self
    have hone : byteLen ('\n' :: ns) = 1 + byteLen ns := units_cons ..
    show skipNewlines (start + 1) (asBytes (ns ++ rest)) = _
    rw [ih fun d hd => hns d (List.mem_cons_of_mem _ hd), hone, Nat.add_assoc]

/-! ## The loop -/

section
variable {t : StyledText} {ds : List Definition} {definition : Option Definition} {paragraph : StyledText}

/-- The definitions of the paragraphs that begin after a part of the text. -/
structure Extracts (t : StyledText) (before : List Char) (ds : List Definition) : Prop where
  increasing : ds.Pairwise fun d d' => d.position < d'.position
  exact : ∀ d, d ∈ ds ↔ ∃ pre body post, IsParagraph t.text pre body post ∧ before.length ≤ pre.length ∧
    DefinitionOf t pre body d

theorem Extracts.nil (hnone : ∀ pre body post, IsParagraph t.text pre body post → ¬ before.length ≤ pre.length) :
    Extracts t before [] := by
  refine ⟨List.Pairwise.nil, fun d => iff_of_false List.not_mem_nil ?_⟩
  rintro ⟨pre, body, post, h, hle, -⟩
  exact hnone pre body post h hle

theorem Extracts.cons (h : IsParagraph t.text (before ++ ns) body post) (hns : ∀ d ∈ ns, d = '\n')
    (hslice : t.slice (utf16Len (before ++ ns)) (utf16Len (before ++ ns) + utf16Len body) = .ok paragraph)
    (hparse : parseParagraph paragraph (utf16Len (before ++ ns)) = .ok definition)
    (hrest : Extracts t (before ++ ns ++ body) ds) : Extracts t before (definition.toList ++ ds) := by
  have hfirst : ∀ d, d ∈ definition.toList ↔ DefinitionOf t (before ++ ns) body d := by
    intro d
    have hok : definition = some d ↔ parseParagraph paragraph (utf16Len (before ++ ns)) = .ok (some d) := by
      rw [hparse, Except.ok.injEq]
    rw [Option.mem_toList, hok, parseParagraph_ok_iff]
    constructor
    · rintro ⟨hposition, rfl, hterm⟩
      exact ⟨hposition, hslice, hterm⟩
    · rintro ⟨hposition, hparagraph, hterm⟩
      rw [hslice] at hparagraph
      have heq := Except.ok.inj hparagraph
      exact ⟨hposition, heq.symm, heq ▸ hterm⟩
  have hlonger : ∀ {pre' body' post'}, IsParagraph t.text pre' body' post' → before.length ≤ pre'.length →
      pre' = before ++ ns ∧ body' = body ∨ (before ++ ns ++ body).length ≤ pre'.length := by
    intro pre' body' post' h' hle
    have hnewlines := h'.after_newlines hns (by rw [h.split, List.append_assoc]) hle
    rcases Nat.lt_or_ge (before ++ ns).length pre'.length with hlt | hge
    · exact .inr (h.disjoint h' hlt).length_le
    · exact .inl (h'.unique h (by omega))
  refine ⟨List.pairwise_append.2 ⟨?_, hrest.increasing, ?_⟩, fun d => ?_⟩
  · cases definition with
    | none => exact List.Pairwise.nil
    | some d => exact List.pairwise_singleton ..
  · intro d hd d' hd'
    obtain ⟨pre', body', post', h', hle, hd'⟩ := (hrest.exact d').1 hd'
    have hwithin : before ++ ns ++ body <+: pre' :=
      List.prefix_of_prefix_length_le h.front_prefix h'.prefix_text hle
    have hunits : utf16Len (before ++ ns) + utf16Len body ≤ utf16Len pre' :=
      (units_append ..).symm.trans_le (units_mono hwithin)
    have hbody : 0 < utf16Len body := units_pos lenUtf16_pos h.body_ne_nil
    rw [((hfirst d).1 hd).position, hd'.position]
    omega
  · rw [List.mem_append, hfirst, hrest.exact]
    constructor
    · rintro (hd | ⟨pre', body', post', h', hle, hd⟩)
      · exact ⟨_, _, _, h, by rw [List.length_append]; omega, hd⟩
      · refine ⟨pre', body', post', h', ?_, hd⟩
        rw [List.length_append, List.length_append] at hle
        omega
    · rintro ⟨pre', body', post', h', hle, hd⟩
      rcases hlonger h' hle with ⟨rfl, rfl⟩ | hle'
      · exact .inl hd
      · exact .inr ⟨pre', body', post', h', hle', hd⟩

/-- Between two rounds the loop is at the start, at the end or at a blank line. -/
def Resumes (before rest : List Char) : Prop := before = [] ∨ rest = [] ∨ ['\n', '\n'] <+: rest

/-- Only newlines are left. -/
theorem definitionsLoop_end (rounds : Nat) (result : List Definition) (hsplit : t.text = before ++ ns)
    (hns : ∀ d ∈ ns, d = '\n') : definitionsLoop t (rounds + 1) (byteLen before) result = .ok result := by
  have hbytes : byteLen t.text = byteLen before + byteLen ns := by
    rw [hsplit]
    exact units_append ..
  have hskip : skipNewlines (byteLen before) ((asBytes t.text).drop (byteLen before)) = byteLen t.text := by
    rw [hbytes, hsplit, asBytes_append, ← length_asBytes, List.drop_left, length_asBytes]
    have hnone : ([] : List Char).head? ≠ some '\n' := (Option.some_ne_none _).symm
    have hall := skipNewlines_eq hns hnone (byteLen before)
    rwa [List.append_nil] at hall
  unfold definitionsLoop
  split_ifs
  · exact if_pos hskip
  · rfl

/-- A round with a paragraph. -/
theorem definitionsLoop_paragraph (rounds : Nat) (result : List Definition)
    (h : IsParagraph t.text (before ++ ns) body post) (hns : ∀ d ∈ ns, d = '\n')
    (hslice : t.slice (utf16Len (before ++ ns)) (utf16Len (before ++ ns) + utf16Len body) = .ok paragraph)
    (hparse : parseParagraph paragraph (utf16Len (before ++ ns)) = .ok definition) :
    definitionsLoop t (rounds + 1) (byteLen before) result =
      definitionsLoop t rounds (byteLen (before ++ ns ++ body)) (result ++ definition.toList) := by
  obtain ⟨c, hhead, hc⟩ := h.starts
  have hpos : 0 < byteLen body := units_pos utf8Size_pos h.body_ne_nil
  have hfront : byteLen before + byteLen ns = byteLen (before ++ ns) := (units_append ..).symm
  have hstop : byteLen (before ++ ns ++ body) = byteLen (before ++ ns) + byteLen body := units_append ..
  have hbytes : byteLen t.text = byteLen (before ++ ns) + (byteLen body + byteLen post) := by
    rw [h.split]
    exact (units_append ..).trans (congrArg _ (units_append ..))
  have hskip : skipNewlines (byteLen before) ((asBytes t.text).drop (byteLen before)) = byteLen (before ++ ns) := by
    have hafter : (body ++ post).head? ≠ some '\n' := by
      rw [List.head?_append, hhead]
      exact fun heq => hc (Option.some.inj heq)
    rw [h.split, List.append_assoc, asBytes_append, ← length_asBytes, List.drop_left, length_asBytes,
      skipNewlines_eq hns hafter, hfront]
  have hcut : cut Char.utf8Size t.text (byteLen (before ++ ns)) = some (before ++ ns, body ++ post) := by
    rw [h.split]
    exact cut_append utf8Size_pos ..
  have hfind : (findBlankLine (body ++ post)).elim (byteLen t.text) (byteLen (before ++ ns) + ·) =
      byteLen (before ++ ns ++ body) := by
    obtain ⟨body', post', hsplit, hends, hfind⟩ := exists_endsAtBlank (body ++ post)
    obtain rfl := h.ends.unique hends hsplit
    rw [List.append_cancel_left_eq] at hsplit
    rcases hfind with ⟨hnone, rfl⟩ | hsome
    · rw [hsplit] at hbytes
      rw [hnone, hstop]
      exact hbytes
    · rw [hsome, hstop]
      rfl
  have hbetween : between Char.utf8Size t.text (byteLen (before ++ ns)) (byteLen (before ++ ns ++ body)) = some body :=
    (between_eq_some utf8Size_pos).2 ⟨before ++ ns, post, h.split, rfl, units_append ..⟩
  rw [definitionsLoop, if_pos (by omega), hskip]
  dsimp only
  rw [if_neg (by omega), hcut]
  dsimp only [indexed, bind, Except.bind]
  rw [hfind, hbetween]
  dsimp only
  rw [hslice]
  dsimp only [Except.mapError]
  rw [hparse]

/-- The loop ends, and it collects the definitions of the paragraphs that are left. -/
theorem definitionsLoop_ok (t : StyledText) {rounds : Nat} {before rest : List Char} (result : List Definition)
    (hsplit : t.text = before ++ rest) (hresumes : Resumes before rest) (hrounds : rest.length < rounds) :
    ∃ ds, definitionsLoop t rounds (byteLen before) result = .ok (result ++ ds) ∧ Extracts t before ds := by
  induction rounds generalizing before rest result with
  | zero => omega
  | succ rounds ih =>
    obtain ⟨ns, after, rfl, hns, hafter⟩ : ∃ ns after, rest = ns ++ after ∧ (∀ d ∈ ns, d = '\n') ∧
        after.head? ≠ some '\n' := by
      refine ⟨rest.takeWhile (· == '\n'), rest.dropWhile (· == '\n'), List.takeWhile_append_dropWhile.symm, ?_, ?_⟩
      · intro d hd
        have hd := List.mem_takeWhile_imp (p := (· == '\n')) hd
        exact beq_iff_eq.1 hd
      · intro h
        have hnot := List.head?_dropWhile_not (· == '\n') rest
        rw [h] at hnot
        cases hnot
    cases after with
    | nil =>
      refine ⟨[], ?_, .nil fun pre body post h hle => ?_⟩
      · rw [List.append_nil]
        exact definitionsLoop_end rounds result (by rw [hsplit, List.append_nil]) hns
      · have hle' := h.after_newlines hns hsplit hle
        have hbody := List.length_pos_of_ne_nil h.body_ne_nil
        have hlength := congrArg List.length (hsplit.symm.trans h.split)
        simp only [List.append_nil, List.length_append] at hlength hle'
        omega
    | cons c after =>
      have hc : c ≠ '\n' := fun h => hafter (congrArg some h)
      obtain ⟨body, post, hbody, hends, -⟩ := exists_endsAtBlank (c :: after)
      have hstarts : body.head? = some c := by
        cases body with
        | nil =>
          exfalso
          obtain rfl : c :: after = post := hbody
          rcases hends.ended with hnil | hblank
          · cases hnil
          · exact hc (List.cons_prefix_cons.1 hblank).1.symm
        | cons d body => rw [(List.cons_eq_cons.1 hbody).1]; rfl
      have hsplit' : t.text = (before ++ ns) ++ (body ++ post) := by
        rw [hsplit, hbody, List.append_assoc]
      have hresumes' : before = [] ∨ ['\n', '\n'] <+: ns ++ c :: after := by
        rcases hresumes with h | h | h
        · exact .inl h
        · exact absurd (List.append_eq_nil_iff.1 h).2 (List.cons_ne_nil _ _)
        · exact .inr h
      have hparagraph : IsParagraph t.text (before ++ ns) body post :=
        ⟨hsplit', ⟨c, hstarts, hc⟩, begins_after_newlines hresumes' hns hc, hends⟩
      have hshorter : post.length < rounds := by
        have hpos := List.length_pos_of_ne_nil hparagraph.body_ne_nil
        have hlength := congrArg List.length hbody
        simp only [List.length_append, List.length_cons] at hlength hrounds
        omega
      obtain ⟨paragraph, hslice, -⟩ := StyledText.exists_slice hsplit'
      obtain ⟨definition, hparse⟩ := parseParagraph_isOk paragraph (utf16Len (before ++ ns))
      obtain ⟨ds, hloop, hds⟩ := ih (result ++ definition.toList) (hsplit'.trans (List.append_assoc ..).symm)
        (.inr hends.ended) hshorter
      refine ⟨definition.toList ++ ds, ?_, .cons hparagraph hns hslice hparse hds⟩
      rw [definitionsLoop_paragraph rounds result hparagraph hns hslice hparse, hloop, List.append_assoc]

/-! ## Extraction -/

/-- Parsing a paragraph of a definition again gives the definition. -/
theorem DefinitionOf.tryFrom {pre body : List Char} {d : Definition} (h : DefinitionOf t pre body d) :
    Definition.tryFrom d.term d.position d.paragraph = .ok d := by
  have hparse : parseParagraph d.paragraph d.position = .ok (some d) := parseParagraph_ok_iff.2 ⟨rfl, rfl, h.term⟩
  unfold Definition.tryFrom
  rw [hparse]
  show (if d.term ≠ d.term then _ else _) = _
  exact if_neg fun hne => hne rfl

theorem DefinitionOf.reads {pre body : List Char} {d : Definition} (h : DefinitionOf t pre body d) :
    Definition.ofJson d.toJson = some d := by
  have hparagraph := StyledText.reads d.paragraph
  simp [Definition.toJson, Definition.ofJson, Lib.Json.onlyFields_obj, Lib.Json.required, Lib.Json.member_obj,
    hparagraph, offsetJson, Lib.Json.asU64, Lib.Json.asStr, List.lookup_cons, h.tryFrom, Except.toOption]

/-- The term of a definition begins its paragraph. -/
theorem Defines.prefix_text {p : StyledText} {term : List Char} (h : Defines p term) : term <+: p.text := by
  obtain ⟨rest, hqualifies, -⟩ := h
  obtain ⟨space, ch, after, -, -, -, hsplit⟩ := hqualifies.dash
  exact hsplit ▸ List.prefix_append ..

/-- A definition is cut out of the text with its styles. -/
structure IsSlice (t : StyledText) (d : Definition) : Prop where
  paragraph : t.slice d.position (d.position + utf16Len d.paragraph.text) = .ok d.paragraph
  term : ∃ s, t.slice d.position (d.position + utf16Len d.term) = .ok s ∧ s.text = d.term
  text : ∃ pre post, t.text = pre ++ (d.paragraph.text ++ post) ∧ d.position = utf16Len pre ∧
    d.term <+: d.paragraph.text
  styles : ∀ u < utf16Len d.paragraph.text, d.paragraph.stylesAt u = t.stylesAt (d.position + u)

/-- The definitions of a text: those of its paragraphs, in their order. -/
structure Extraction (t : StyledText) : Prop where
  extracted : ∃ ds, definitions t = .ok ds ∧ (ds.Pairwise fun d d' => d.position < d'.position) ∧
    ∀ d, d ∈ ds ↔ ∃ pre body post, IsParagraph t.text pre body post ∧ DefinitionOf t pre body d
  sliced : ∀ ds, definitions t = .ok ds → ∀ d ∈ ds, IsSlice t d
  composes : ∀ start stop s, t.slice start stop = .ok s → ∀ start' stop', start + stop' ≤ stop →
    s.slice start' stop' = t.slice (start + start') (start + stop')
  survives : ∀ ds, definitions t = .ok ds → ∀ d ∈ ds, Definition.ofJson d.toJson = some d

theorem DefinitionOf.isSlice {pre body post : List Char} {d : Definition} (hsplit : t.text = pre ++ (body ++ post))
    (h : DefinitionOf t pre body d) : IsSlice t d := by
  have hbody : d.paragraph.text = body := by
    obtain ⟨s, hs, htext⟩ := StyledText.exists_slice hsplit
    rw [h.paragraph] at hs
    rw [Except.ok.inj hs, htext]
  have hparagraph : t.slice d.position (d.position + utf16Len d.paragraph.text) = .ok d.paragraph := by
    rw [h.position, hbody]
    exact h.paragraph
  refine ⟨hparagraph, ?_, ⟨pre, post, by rw [hbody]; exact hsplit, h.position, h.term.prefix_text⟩, fun u hu => ?_⟩
  · obtain ⟨rest, hrest⟩ := h.term.prefix_text
    rw [h.position]
    have hterm : t.text = pre ++ (d.term ++ (rest ++ post)) := by
      rw [hsplit, ← hbody, ← hrest, List.append_assoc]
    exact StyledText.exists_slice hterm
  · exact StyledText.stylesAt_slice hparagraph (by omega)

theorem definitions_ok (t : StyledText) : ∃ ds, definitions t = .ok ds ∧ Extracts t [] ds := by
  have hsplit : t.text = [] ++ t.text := rfl
  obtain ⟨ds, hloop, hds⟩ := definitionsLoop_ok t [] hsplit (.inl rfl) (Nat.lt_succ_self _)
  exact ⟨ds, hloop, hds⟩

/-- Of every text the definitions are extracted. -/
theorem definitions_extraction (t : StyledText) : Extraction t := by
  obtain ⟨ds, hok, hds⟩ := definitions_ok t
  have hmem : ∀ d, d ∈ ds ↔ ∃ pre body post, IsParagraph t.text pre body post ∧ DefinitionOf t pre body d := by
    intro d
    rw [hds.exact]
    simp only [List.length_nil, Nat.zero_le, true_and]
  refine ⟨⟨ds, hok, hds.increasing, hmem⟩, ?_, fun _ _ _ h _ _ hle => StyledText.slice_slice h hle, ?_⟩
  · rintro ds' hok' d hd
    rw [hok] at hok'
    cases hok'
    obtain ⟨pre, body, post, hparagraph, hd⟩ := (hmem d).1 hd
    exact hd.isSlice hparagraph.split
  · rintro ds' hok' d hd
    rw [hok] at hok'
    cases hok'
    obtain ⟨pre, body, post, -, hd⟩ := (hmem d).1 hd
    exact hd.reads

end
end
end Inoreader.Glossary
