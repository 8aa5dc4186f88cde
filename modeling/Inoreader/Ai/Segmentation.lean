import Inoreader.Ai.Review
import Inoreader.Lib.Blocks
import Inoreader.Lib.Except
import Inoreader.Lib.Json

/-!
# Paragraph translations (`reader-ai/src/translation.rs`)

A response lists the words of a paragraph in their order. Each is placed at its first occurrence in what remains of the
paragraph, and the gaps between them become literals. `parsePayload` is what `serde` makes of the text of a response,
and `isAlphanumeric` is the Unicode property of that name.
-/

namespace Inoreader
open Lib

def isHan (c : Char) : Bool :=
  (0x3400 ≤ c.toNat && c.toNat ≤ 0x9fff) || (0xf900 ≤ c.toNat && c.toNat ≤ 0xfaff) ||
    (0x20000 ≤ c.toNat && c.toNat ≤ 0x323af)

/-- `'А'..='я' | 'Ё' | 'ё'`. -/
def isRussian (c : Char) : Bool := (0x410 ≤ c.toNat && c.toNat ≤ 0x44f) || c.toNat == 0x401 || c.toNat == 0x451

inductive TranslationSegment
  | word (source : List Char) (pinyin : Option (List Char)) (translation : List Char)
  | literal (source : List Char)
deriving DecidableEq, Repr

def TranslationSegment.source : TranslationSegment → List Char
  | .word source _ _ | .literal source => source

structure TranslationWire where
  source : List Char
  translation : List Char
  segments : List TranslationSegment
deriving DecidableEq, Repr

/-- An entry of the dictionary of a response. -/
structure TranslationWord where
  source : List Char
  pinyin : Option (List Char)
  translation : List Char
deriving DecidableEq, Repr

structure TranslationPayload where
  translation : List Char
  words : List TranslationWord
deriving DecidableEq, Repr

/-- `s.trim().is_empty()`. -/
def isBlankText (s : List Char) : Bool := s.all isWhiteSpace

section
variable (isAlphanumeric : Char → Bool)

/-- What `try_from` checks of one segment. -/
def TranslationSegment.accepted : TranslationSegment → Bool
  | .word source pinyin translation =>
    !(isBlankText translation || (source.any isHan && pinyin.all isBlankText) || pinyin.any isBlankText)
  | .literal source => !(source.any isAlphanumeric)

/-- The loop of `try_from` over the segments. -/
def checkSegments : List Char → List TranslationSegment → Except AiError Unit
  | remaining, [] => if remaining = [] then .ok () else .error .protocol
  | remaining, segment :: segments =>
    if segment.source = [] then .error .protocol
    else if ¬ segment.source.isPrefixOf remaining then .error .protocol
    else if ¬ segment.accepted isAlphanumeric then .error .protocol
    else checkSegments (remaining.drop segment.source.length) segments

def TranslationWire.check (v : TranslationWire) : Except AiError Unit :=
  if isBlankText v.source || isBlankText v.translation || v.segments = [] then .error .protocol
  else if v.source.any isHan && !(v.translation.any isRussian) then
    .error (.translation "провайдер не вернул перевод на русский язык")
  else checkSegments isAlphanumeric v.source v.segments

/-- Only `try_from` makes one. -/
structure ParagraphTranslation where
  wire : TranslationWire
  checked : wire.check isAlphanumeric = .ok ()

def ParagraphTranslation.tryFrom (v : TranslationWire) : Except AiError (ParagraphTranslation isAlphanumeric) :=
  match h : v.check isAlphanumeric with
  | .ok () => .ok ⟨v, h⟩
  | .error e => .error e

/-- The loop of `from_response`: the segments, and what remains of the source. -/
def placeWords : List Char → List TranslationWord → Except AiError (List TranslationSegment × List Char)
  | remaining, [] => .ok ([], remaining)
  | remaining, word :: words =>
    if isBlankText word.source then .error (.translation "пустое слово в словаре")
    else
      match findText word.source remaining with
      | none => .error (.translation "слово не совпадает с оригиналом")
      | some start =>
        let gap := remaining.take start
        if gap.any isAlphanumeric then .error (.translation "пропущено слово из оригинала")
        else do
          let (segments, rest) ← placeWords (remaining.drop (start + word.source.length)) words
          let placed := .word word.source word.pinyin word.translation :: segments
          pure (if gap = [] then placed else .literal gap :: placed, rest)

def fromResponse (parsePayload : List Char → Option TranslationPayload) (source response : List Char) :
    Except AiError (ParagraphTranslation isAlphanumeric) :=
  match parsePayload response with
  | none => .error (.translation "неверный формат словаря")
  | some p => do
    let (segments, remaining) ← placeWords isAlphanumeric source p.words
    if remaining.any isAlphanumeric then .error (.translation "неполный словарь для абзаца")
    else
      let segments := if remaining = [] then segments else segments ++ [.literal remaining]
      (ParagraphTranslation.tryFrom isAlphanumeric { source, translation := p.translation, segments }).mapError
        fun _ => .translation "неполный перевод или пиньинь"

end

/-! ## The wire -/

/-- `Serialize` of a segment. -/
def TranslationSegment.toJson : TranslationSegment → Lib.Json
  | .word source pinyin translation =>
    .object [("kind".toList, .string "word".toList), ("source".toList, .string source),
      ("pinyin".toList, (pinyin.map Lib.Json.string).getD .null), ("translation".toList, .string translation)]
  | .literal source => .object [("kind".toList, .string "literal".toList), ("source".toList, .string source)]

/-- `Deserialize` of a segment: the other fields are those of the kind. -/
def TranslationSegment.ofJson (v : Lib.Json) : Option TranslationSegment :=
  match (v.get "kind").bind Lib.Json.asStr with
  | some kind =>
    if kind = "word".toList then
      match v.fields ["kind", "source", "pinyin", "translation"] with
      | some [_, some (.string source), none, some (.string translation)]
      | some [_, some (.string source), some .null, some (.string translation)] => some (.word source none translation)
      | some [_, some (.string source), some (.string pinyin), some (.string translation)] =>
        some (.word source (some pinyin) translation)
      | _ => none
    else if kind = "literal".toList then
      match v.fields ["kind", "source"] with
      | some [_, some (.string source)] => some (.literal source)
      | _ => none
    else none
  | none => none

def TranslationWire.toJson (v : TranslationWire) : Lib.Json :=
  .object [("source".toList, .string v.source), ("translation".toList, .string v.translation),
    ("segments".toList, .array (v.segments.map TranslationSegment.toJson))]

def TranslationWire.ofJson (v : Lib.Json) : Option TranslationWire :=
  match v.fields ["source", "translation", "segments"] with
  | some [some (.string source), some (.string translation), some (.array items)] =>
    (items.mapM TranslationSegment.ofJson).map fun segments => { source, translation, segments }
  | _ => none

/-- The `Deserialize` of a paragraph translation goes through the wire. -/
def ParagraphTranslation.ofJson (isAlphanumeric : Char → Bool) (v : Lib.Json) :
    Option (Except AiError (ParagraphTranslation isAlphanumeric)) :=
  (TranslationWire.ofJson v).map (ParagraphTranslation.tryFrom isAlphanumeric)

/-! ## Placements -/

section
variable {isAlphanumeric : Char → Bool}

/-- The words stand in the text in their order, with nothing alphanumeric between them. -/
inductive Places (isAlphanumeric : Char → Bool) : List Char → List TranslationWord → Prop
  | nil {rest : List Char} (h : rest.any isAlphanumeric = false) : Places isAlphanumeric rest []
  | cons {gap rest : List Char} {word : TranslationWord} {words : List TranslationWord}
    (hgap : gap.any isAlphanumeric = false) (h : Places isAlphanumeric rest words) :
    Places isAlphanumeric (gap ++ (word.source ++ rest)) (word :: words)

theorem Places.append {text : List Char} {words : List TranslationWord} (h : Places isAlphanumeric text words)
    {gap : List Char} (hgap : gap.any isAlphanumeric = false) : Places isAlphanumeric (gap ++ text) words := by
  cases h with
  | nil hrest => exact .nil (by rw [List.any_append, hgap, hrest]; rfl)
  | cons hgap' h =>
    rw [← List.append_assoc]
    exact .cons (by rw [List.any_append, hgap, hgap']; rfl) h

/-- A word that also occurs further to the left, in what has nothing alphanumeric, has nothing alphanumeric itself:
its first such character would stand further to the left as well. -/
theorem not_alphanumeric_of_earlier {gap word text : List Char} {start : Nat} (hgap : gap.any isAlphanumeric = false)
    (hstart : start < gap.length) (hoccurs : word <+: (gap ++ (word ++ text)).drop start) :
    word.any isAlphanumeric = false := by
  obtain ⟨tail, htail⟩ := hoccurs
  have hat : ∀ k (hk : k < word.length), (gap ++ (word ++ text))[start + k]? = some word[k] := by
    intro k hk
    rw [← List.getElem?_drop, ← htail, List.getElem?_append_left hk, List.getElem?_eq_getElem hk]
  have hall : ∀ k (hk : k < word.length), ¬ isAlphanumeric word[k] = true := by
    intro k
    induction k using Nat.strong_induction_on with
    | _ k ih =>
      intro hk
      have hget := hat k hk
      by_cases hin : start + k < gap.length
      · rw [List.getElem?_append_left hin, List.getElem?_eq_getElem hin] at hget
        rw [← Option.some.inj hget]
        exact List.any_eq_false.1 hgap _ (List.getElem_mem hin)
      · have hlt : start + k - gap.length < k := by omega
        have hlt' : start + k - gap.length < word.length := by omega
        rw [List.getElem?_append_right (by omega), List.getElem?_append_left hlt', List.getElem?_eq_getElem hlt'] at hget
        rw [← Option.some.inj hget]
        exact ih _ hlt hlt'
  rw [List.any_eq_false]
  intro c hc
  obtain ⟨k, hk, rfl⟩ := List.getElem_of_mem hc
  exact hall k hk

theorem findText_of_occurs {pattern l : List Char} {j : Nat} (h : pattern <+: l.drop j) :
    ∃ i ≤ j, findText pattern l = some i := by
  cases hfind : findText pattern l with
  | some i =>
    refine ⟨i, ?_, rfl⟩
    by_contra hlt
    exact (findText_some hfind).2 j (by omega) h
  | none =>
    have hne : pattern ≠ [] := by
      rintro rfl
      cases l <;> simp [findText] at hfind
    exact absurd h (findText_none hne hfind j)

theorem any_take_of_any {p : Char → Bool} {l : List Char} (h : l.any p = false) (n : Nat) : (l.take n).any p = false :=
  List.any_eq_false.2 fun c hc => List.any_eq_false.1 h c (List.mem_of_mem_take hc)

theorem any_drop_of_any {p : Char → Bool} {l : List Char} (h : l.any p = false) (n : Nat) : (l.drop n).any p = false :=
  List.any_eq_false.2 fun c hc => List.any_eq_false.1 h c (List.mem_of_mem_drop hc)

/-- Placing the first word as far to the left as it goes costs nothing. -/
theorem Places.leftmost {text : List Char} {word : TranslationWord} {words : List TranslationWord}
    (h : Places isAlphanumeric text (word :: words)) :
    ∃ start, findText word.source text = some start ∧ (text.take start).any isAlphanumeric = false ∧
      Places isAlphanumeric (text.drop (start + word.source.length)) words := by
  cases h with
  | @cons gap rest _ _ hgap h =>
    have hhere : word.source <+: (gap ++ (word.source ++ rest)).drop gap.length := by
      rw [List.drop_left]
      exact List.prefix_append _ _
    obtain ⟨start, hle, hfind⟩ := findText_of_occurs hhere
    refine ⟨start, hfind, ?_, ?_⟩
    · rw [List.take_append_of_le_length hle]
      exact any_take_of_any hgap start
    · have hsplit : (gap ++ (word.source ++ rest)).drop (start + word.source.length) =
          (gap ++ word.source).drop (start + word.source.length) ++ rest := by
        rw [← List.append_assoc, List.drop_append_of_le_length]
        rw [List.length_append]
        omega
      rw [hsplit]
      refine h.append ?_
      rcases Nat.lt_or_ge start gap.length with hlt | hge
      · have hword := not_alphanumeric_of_earlier hgap hlt (findText_some hfind).1
        refine any_drop_of_any ?_ _
        rw [List.any_append, hgap, hword]
        rfl
      · rw [List.drop_eq_nil_of_le]
        · rfl
        · rw [List.length_append]
          omega

/-- Every check of the loop passes, and the segments make up the text. -/
theorem checkSegments_ok {text : List Char} {segments : List TranslationSegment} :
    checkSegments isAlphanumeric text segments = .ok () ↔
      (segments.map TranslationSegment.source).flatten = text ∧
        ∀ segment ∈ segments, segment.source ≠ [] ∧ segment.accepted isAlphanumeric = true := by
  induction segments generalizing text with
  | nil =>
    unfold checkSegments
    rw [List.map_nil, List.flatten_nil]
    constructor
    · intro h
      split at h
      · rename_i htext
        exact ⟨htext.symm, fun _ hsegment => absurd hsegment List.not_mem_nil⟩
      · cases h
    · rintro ⟨rfl, -⟩
      exact if_pos rfl
  | cons segment segments ih =>
    unfold checkSegments
    by_cases hne : segment.source = []
    · rw [if_pos hne]
      constructor
      · intro h
        cases h
      · exact fun h => absurd hne (h.2 segment List.mem_cons_self).1
    rw [if_neg hne]
    by_cases hprefix : segment.source.isPrefixOf text
    swap
    · rw [if_pos hprefix]
      constructor
      · intro h
        cases h
      · rintro ⟨htext, -⟩
        refine absurd (List.isPrefixOf_iff_prefix.2 ?_) hprefix
        rw [← htext]
        exact List.prefix_append _ _
    rw [if_neg (not_not_intro hprefix)]
    by_cases haccepted : segment.accepted isAlphanumeric = true
    swap
    · rw [if_pos haccepted]
      constructor
      · intro h
        cases h
      · exact fun h => absurd (h.2 segment List.mem_cons_self).2 haccepted
    obtain ⟨rest, rfl⟩ := List.isPrefixOf_iff_prefix.1 hprefix
    rw [if_neg (not_not_intro haccepted), ih, List.drop_left, List.map_cons, List.flatten_cons,
      List.append_cancel_left_eq, List.forall_mem_cons]
    exact ⟨fun h => ⟨h.1, ⟨hne, haccepted⟩, h.2⟩, fun h => ⟨h.1, h.2.2⟩⟩

/-- The word of a segment. -/
def TranslationSegment.asWord : TranslationSegment → Option TranslationWord
  | .word source pinyin translation => some { source, pinyin, translation }
  | .literal _ => none

/-- What the loop has put in front of the rest: the words in their order, and gaps without alphanumeric characters. -/
structure Placed (isAlphanumeric : Char → Bool) (text : List Char) (words : List TranslationWord)
    (r : List TranslationSegment × List Char) : Prop where
  text_eq : (r.1.map TranslationSegment.source).flatten ++ r.2 = text
  words_eq : r.1.filterMap TranslationSegment.asWord = words
  nonblank : ∀ word ∈ words, isBlankText word.source = false
  literals : ∀ gap, .literal gap ∈ r.1 → gap ≠ [] ∧ gap.any isAlphanumeric = false

/-- The first word is found, behind a gap with nothing alphanumeric. -/
theorem placeWords_cons {text : List Char} {word : TranslationWord} {words : List TranslationWord}
    {r : List TranslationSegment × List Char} :
    placeWords isAlphanumeric text (word :: words) = .ok r ↔ isBlankText word.source = false ∧
      ∃ start, findText word.source text = some start ∧ (text.take start).any isAlphanumeric = false ∧
        ∃ r', placeWords isAlphanumeric (text.drop (start + word.source.length)) words = .ok r' ∧
          r = (if text.take start = [] then .word word.source word.pinyin word.translation :: r'.1
            else .literal (text.take start) :: .word word.source word.pinyin word.translation :: r'.1, r'.2) := by
  conv_lhs => unfold placeWords
  cases hblank : isBlankText word.source with
  | true => simp
  | false =>
    rw [if_neg Bool.false_ne_true]
    cases hfind : findText word.source text with
    | none => simp
    | some start =>
      dsimp only
      cases hgap : (text.take start).any isAlphanumeric with
      | true =>
        rw [if_pos rfl]
        constructor
        · intro h
          cases h
        · rintro ⟨-, start', hstart', hgap', -⟩
          cases hstart'
          rw [hgap] at hgap'
          cases hgap'
      | false =>
        rw [if_neg Bool.false_ne_true]
        rw [except_bind_ok]
        constructor
        · rintro ⟨r', hr', h⟩
          exact ⟨rfl, start, rfl, hgap, r', hr', (except_pure_ok.1 h).symm⟩
        · rintro ⟨-, start', hstart', -, r', hr', h⟩
          cases hstart'
          exact ⟨r', hr', except_pure_ok.2 h.symm⟩

theorem placeWords_placed {text : List Char} {words : List TranslationWord} {r : List TranslationSegment × List Char}
    (h : placeWords isAlphanumeric text words = .ok r) : Placed isAlphanumeric text words r := by
  induction words generalizing text r with
  | nil =>
    cases h
    exact ⟨rfl, rfl, fun _ hword => absurd hword List.not_mem_nil, fun _ hgap => absurd hgap List.not_mem_nil⟩
  | cons word words ih =>
    obtain ⟨hblank, start, hfind, hgap, r', hr', rfl⟩ := placeWords_cons.1 h
    obtain ⟨rest, hrest⟩ := (findText_some hfind).1
    have hdrop : text.drop (start + word.source.length) = rest := by
      rw [← List.drop_drop, ← hrest, List.drop_left]
    have hplaced := ih hr'
    rw [hdrop] at hplaced
    have htext : text = text.take start ++ (word.source ++ rest) := by
      rw [hrest, List.take_append_drop]
    refine ⟨?_, ?_, List.forall_mem_cons.2 ⟨hblank, hplaced.nonblank⟩, ?_⟩
    · conv_rhs => rw [htext, ← hplaced.text_eq]
      by_cases hempty : text.take start = []
      · rw [if_pos hempty, hempty]
        simp [TranslationSegment.source]
      · rw [if_neg hempty]
        simp [TranslationSegment.source]
    · split
      · show word :: r'.1.filterMap TranslationSegment.asWord = word :: words
        rw [hplaced.words_eq]
      · show word :: r'.1.filterMap TranslationSegment.asWord = word :: words
        rw [hplaced.words_eq]
    · intro gap hmem
      dsimp only at hmem
      split at hmem
      · exact hplaced.literals gap (by simpa using hmem)
      · rename_i hne
        rcases List.mem_cons.1 hmem with heq | hmem
        · cases heq
          exact ⟨hne, hgap⟩
        · exact hplaced.literals gap (by simpa using hmem)

theorem exists_placeWords {text : List Char} {words : List TranslationWord} (h : Places isAlphanumeric text words)
    (hblank : ∀ word ∈ words, isBlankText word.source = false) :
    ∃ r, placeWords isAlphanumeric text words = .ok r ∧ r.2.any isAlphanumeric = false := by
  induction words generalizing text with
  | nil =>
    cases h with
    | nil hrest => exact ⟨([], text), rfl, hrest⟩
  | cons word words ih =>
    rw [List.forall_mem_cons] at hblank
    obtain ⟨start, hfind, hgap, hplaces⟩ := h.leftmost
    obtain ⟨r, hr, hrest⟩ := ih hplaces hblank.2
    exact ⟨_, placeWords_cons.2 ⟨hblank.1, start, hfind, hgap, r, hr, rfl⟩, hrest⟩

theorem places_of_placeWords {text : List Char} {words : List TranslationWord} {r : List TranslationSegment × List Char}
    (h : placeWords isAlphanumeric text words = .ok r) (hrest : r.2.any isAlphanumeric = false) :
    Places isAlphanumeric text words := by
  induction words generalizing text r with
  | nil =>
    cases h
    exact .nil hrest
  | cons word words ih =>
    obtain ⟨-, start, hfind, hgap, r', hr', rfl⟩ := placeWords_cons.1 h
    obtain ⟨rest, heq⟩ := (findText_some hfind).1
    have hdrop : text.drop (start + word.source.length) = rest := by
      rw [← List.drop_drop, ← heq, List.drop_left]
    have hplaces := ih hr' hrest
    rw [hdrop] at hplaces
    have htext : text.take start ++ (word.source ++ rest) = text := by
      rw [heq, List.take_append_drop]
    rw [← htext]
    exact .cons hgap hplaces

/-! ## The response -/

/-- What `try_from` asks of an entry of the dictionary. -/
structure TranslationWord.Accepted (word : TranslationWord) : Prop where
  source : isBlankText word.source = false
  translation : isBlankText word.translation = false
  pinyin : word.source.any isHan = true → word.pinyin ≠ none
  nonblank : ∀ pinyin, word.pinyin = some pinyin → isBlankText pinyin = false

/-- The checks of the fields; `TranslationInput` has no blank source. -/
structure FieldChecks (source : List Char) (p : TranslationPayload) : Prop where
  nonblank : isBlankText source = false
  translation : isBlankText p.translation = false
  russian : source.any isHan = true → p.translation.any isRussian = true
  words : ∀ word ∈ p.words, word.Accepted

theorem accepted_word {source translation : List Char} {pinyin : Option (List Char)} :
    (TranslationSegment.word source pinyin translation).accepted isAlphanumeric = true ↔
      isBlankText translation = false ∧ (source.any isHan = true → pinyin ≠ none) ∧
        ∀ p, pinyin = some p → isBlankText p = false := by
  cases pinyin with
  | none => simp [TranslationSegment.accepted]
  | some p =>
    simp [TranslationSegment.accepted]
    exact fun hp _ => .inr hp

theorem check_ok {v : TranslationWire} :
    v.check isAlphanumeric = .ok () ↔ isBlankText v.source = false ∧ isBlankText v.translation = false ∧
      v.segments ≠ [] ∧ (v.source.any isHan = true → v.translation.any isRussian = true) ∧
        checkSegments isAlphanumeric v.source v.segments = .ok () := by
  unfold TranslationWire.check
  by_cases hempty : v.segments = []
  · simp [hempty]
  cases hsource : isBlankText v.source <;> cases htranslation : isBlankText v.translation <;>
    cases hhan : v.source.any isHan <;> cases hrussian : v.translation.any isRussian <;> simp [hempty]

theorem tryFrom_ok {v : TranslationWire} {t : ParagraphTranslation isAlphanumeric} :
    ParagraphTranslation.tryFrom isAlphanumeric v = .ok t ↔ t.wire = v := by
  unfold ParagraphTranslation.tryFrom
  constructor
  · intro h
    split at h
    · cases h
      rfl
    · cases h
  · rintro rfl
    split
    · rfl
    · rename_i e h
      rw [t.checked] at h
      cases h

theorem exists_tryFrom {v : TranslationWire} :
    (∃ t, ParagraphTranslation.tryFrom isAlphanumeric v = .ok t) ↔ v.check isAlphanumeric = .ok () := by
  constructor
  · rintro ⟨t, h⟩
    rw [← tryFrom_ok.1 h]
    exact t.checked
  · exact fun h => ⟨⟨v, h⟩, tryFrom_ok.2 rfl⟩

/-- The segments of a response: what remains behind the last word is a literal. -/
def closed (r : List TranslationSegment × List Char) : List TranslationSegment :=
  if r.2 = [] then r.1 else r.1 ++ [.literal r.2]

theorem fromResponse_ok {parsePayload : List Char → Option TranslationPayload} {source response : List Char}
    {t : ParagraphTranslation isAlphanumeric} :
    fromResponse isAlphanumeric parsePayload source response = .ok t ↔ ∃ p r, parsePayload response = some p ∧
      placeWords isAlphanumeric source p.words = .ok r ∧ r.2.any isAlphanumeric = false ∧
        t.wire = { source, translation := p.translation, segments := closed r } := by
  unfold fromResponse
  cases hparse : parsePayload response with
  | none =>
    constructor
    · intro h
      cases h
    · rintro ⟨p, r, hp, -⟩
      cases hp
  | some p =>
    dsimp only
    rw [except_bind_ok]
    constructor
    · rintro ⟨r, hr, h⟩
      refine ⟨p, r, rfl, hr, ?_⟩
      split at h
      · cases h
      · rename_i hrest
        exact ⟨Bool.eq_false_iff.2 hrest, tryFrom_ok.1 (mapError_ok.1 h)⟩
    · rintro ⟨p', r, hp', hr, hrest, hwire⟩
      cases hp'
      refine ⟨r, hr, ?_⟩
      rw [if_neg (Bool.eq_false_iff.1 hrest)]
      exact mapError_ok.2 (tryFrom_ok.2 hwire)

section
variable {text : List Char} {words : List TranslationWord} {r : List TranslationSegment × List Char}

theorem Placed.flatten_closed (h : Placed isAlphanumeric text words r) :
    ((closed r).map TranslationSegment.source).flatten = text := by
  rw [← h.text_eq]
  unfold closed
  split
  · rename_i hempty
    rw [hempty, List.append_nil]
  · simp [TranslationSegment.source]

theorem Placed.mem_closed (h : Placed isAlphanumeric text words r) (hrest : r.2.any isAlphanumeric = false)
    {segment : TranslationSegment} (hsegment : segment ∈ closed r) :
    (∃ word ∈ words, segment = .word word.source word.pinyin word.translation) ∨
      ∃ gap, segment = .literal gap ∧ gap ≠ [] ∧ gap.any isAlphanumeric = false := by
  have hin : segment ∈ r.1 → (∃ word ∈ words, segment = .word word.source word.pinyin word.translation) ∨
      ∃ gap, segment = .literal gap ∧ gap ≠ [] ∧ gap.any isAlphanumeric = false := by
    intro hmem
    cases segment with
    | word source pinyin translation =>
      refine .inl ⟨⟨source, pinyin, translation⟩, ?_, rfl⟩
      rw [← h.words_eq]
      exact List.mem_filterMap.2 ⟨_, hmem, rfl⟩
    | literal gap => exact .inr ⟨gap, rfl, h.literals gap hmem⟩
  unfold closed at hsegment
  split at hsegment
  · exact hin hsegment
  · rename_i hne
    rcases List.mem_append.1 hsegment with hmem | hmem
    · exact hin hmem
    · exact .inr ⟨r.2, List.mem_singleton.1 hmem, hne, hrest⟩

theorem Placed.mem_words (h : Placed isAlphanumeric text words r) {word : TranslationWord} (hword : word ∈ words) :
    .word word.source word.pinyin word.translation ∈ closed r := by
  rw [← h.words_eq] at hword
  obtain ⟨segment, hsegment, hasword⟩ := List.mem_filterMap.1 hword
  have hmem : .word word.source word.pinyin word.translation ∈ r.1 := by
    cases segment with
    | word source pinyin translation =>
      cases hasword
      exact hsegment
    | literal gap => cases hasword
  unfold closed
  split
  · exact hmem
  · exact List.mem_append_left _ hmem

theorem ne_nil_of_nonblank {s : List Char} (h : isBlankText s = false) : s ≠ [] := by
  rintro rfl
  cases h

/-- The checks of the wire are the checks of the fields. -/
theorem Placed.check_iff (h : Placed isAlphanumeric text words r) (hrest : r.2.any isAlphanumeric = false)
    {translation : List Char} :
    TranslationWire.check isAlphanumeric { source := text, translation, segments := closed r } = .ok () ↔
      FieldChecks text { translation, words } := by
  rw [check_ok, checkSegments_ok]
  constructor
  · rintro ⟨hsource, htranslation, -, hrussian, -, haccepted⟩
    refine ⟨hsource, htranslation, hrussian, fun word hword => ?_⟩
    obtain ⟨hblank, hpinyin, hnonblank⟩ := accepted_word.1 (haccepted _ (h.mem_words hword)).2
    exact ⟨h.nonblank word hword, hblank, hpinyin, hnonblank⟩
  · rintro ⟨hsource, htranslation, hrussian, hwords⟩
    refine ⟨hsource, htranslation, ?_, hrussian, h.flatten_closed, ?_⟩
    · intro hempty
      refine ne_nil_of_nonblank hsource ?_
      rw [← h.flatten_closed]
      dsimp only at hempty
      rw [hempty]
      rfl
    · intro segment hsegment
      rcases h.mem_closed hrest hsegment with ⟨word, hword, rfl⟩ | ⟨gap, rfl, hne, hgap⟩
      · obtain ⟨hblank, hword', hpinyin, hnonblank⟩ := hwords word hword
        exact ⟨ne_nil_of_nonblank hblank, accepted_word.2 ⟨hword', hpinyin, hnonblank⟩⟩
      · refine ⟨hne, ?_⟩
        show (!gap.any isAlphanumeric) = true
        rw [hgap]
        rfl

end

/-- A response is taken exactly if its words can be placed at all. -/
theorem exists_fromResponse {parsePayload : List Char → Option TranslationPayload} {source response : List Char} :
    (∃ t, fromResponse isAlphanumeric parsePayload source response = .ok t) ↔
      ∃ p, parsePayload response = some p ∧ Places isAlphanumeric source p.words ∧ FieldChecks source p := by
  constructor
  · rintro ⟨t, h⟩
    obtain ⟨p, r, hp, hr, hrest, hwire⟩ := fromResponse_ok.1 h
    refine ⟨p, hp, places_of_placeWords hr hrest, ((placeWords_placed hr).check_iff hrest).1 ?_⟩
    rw [← hwire]
    exact t.checked
  · rintro ⟨p, hp, hplaces, hfields⟩
    obtain ⟨r, hr, hrest⟩ := exists_placeWords hplaces fun word hword => (hfields.words word hword).source
    exact ⟨⟨_, ((placeWords_placed hr).check_iff hrest).2 hfields⟩, fromResponse_ok.2 ⟨p, r, hp, hr, hrest, rfl⟩⟩

/-! ## Reading a translation back -/

theorem TranslationSegment.ofJson_toJson (segment : TranslationSegment) :
    TranslationSegment.ofJson segment.toJson = some segment := by
  cases segment with
  | word source pinyin translation => cases pinyin <;> rfl
  | literal source => rfl

theorem TranslationWire.ofJson_toJson (v : TranslationWire) : TranslationWire.ofJson v.toJson = some v := by
  have hsegments : (v.segments.map TranslationSegment.toJson).mapM TranslationSegment.ofJson = some v.segments := by
    rw [List.mapM_map]
    induction v.segments with
    | nil => rfl
    | cons segment segments ih =>
      rw [List.mapM_cons, ih, Function.comp_apply, TranslationSegment.ofJson_toJson]
      rfl
  show (Option.map (fun segments => TranslationWire.mk v.source v.translation segments) _) = some v
  rw [hsegments]
  rfl

theorem ParagraphTranslation.ofJson_toJson (t : ParagraphTranslation isAlphanumeric) :
    ParagraphTranslation.ofJson isAlphanumeric t.wire.toJson = some (.ok t) := by
  unfold ParagraphTranslation.ofJson
  rw [TranslationWire.ofJson_toJson, Option.map_some, tryFrom_ok.2 rfl]

/-! ## Segmentation -/

/-- The alphanumeric character at every such position of the source lies in exactly one word. -/
def CoveredOnce (isAlphanumeric : Char → Bool) (source : List Char) (segments : List TranslationSegment) : Prop :=
  ∀ i c, source[i]? = some c → isAlphanumeric c = true → ∃! k, Holds (segments.map TranslationSegment.source) k i ∧
    ∃ word pinyin translation, segments[k]? = some (.word word pinyin translation) ∧
      word[i - blockStart (segments.map TranslationSegment.source) k]? = some c

theorem coveredOnce_of_literals {source : List Char} {segments : List TranslationSegment}
    (hsource : (segments.map TranslationSegment.source).flatten = source)
    (hliterals : ∀ gap, .literal gap ∈ segments → gap.any isAlphanumeric = false) :
    CoveredOnce isAlphanumeric source segments := by
  rintro i c hat hc
  rw [← hsource] at hat
  obtain ⟨k, b, hholds, hget, hbat⟩ := exists_holds hat
  refine ⟨k, ⟨hholds, ?_⟩, fun k' h => h.1.unique hholds⟩
  rw [List.getElem?_map, Option.map_eq_some_iff] at hget
  obtain ⟨segment, hsegment, rfl⟩ := hget
  cases segment with
  | word word pinyin translation => exact ⟨word, pinyin, translation, hsegment, hbat⟩
  | literal gap =>
    have hgap := hliterals gap (List.mem_of_getElem? hsegment)
    exact absurd hc (List.any_eq_false.1 hgap c (List.mem_of_getElem? hbat))

theorem ParagraphTranslation.checked_segments (t : ParagraphTranslation isAlphanumeric) :
    (t.wire.segments.map TranslationSegment.source).flatten = t.wire.source ∧
      ∀ segment ∈ t.wire.segments, segment.source ≠ [] ∧ segment.accepted isAlphanumeric = true :=
  checkSegments_ok.1 (check_ok.1 t.checked).2.2.2.2

theorem ParagraphTranslation.literal_of_mem (t : ParagraphTranslation isAlphanumeric) {gap : List Char}
    (h : .literal gap ∈ t.wire.segments) : gap.any isAlphanumeric = false := by
  have haccepted : (!gap.any isAlphanumeric) = true := (t.checked_segments.2 _ h).2
  simpa using haccepted

/-- The pinyin of a word with a Han character is there, and is not blank. -/
theorem ParagraphTranslation.pinyin_of_mem (t : ParagraphTranslation isAlphanumeric) {word translation : List Char}
    {pinyin : Option (List Char)} (h : .word word pinyin translation ∈ t.wire.segments)
    (hhan : word.any isHan = true) : ∃ p, pinyin = some p ∧ isBlankText p = false := by
  obtain ⟨-, hpinyin, hnonblank⟩ := accepted_word.1 (t.checked_segments.2 _ h).2
  obtain ⟨p, rfl⟩ := Option.ne_none_iff_exists'.1 (hpinyin hhan)
  exact ⟨p, rfl, hnonblank p rfl⟩

end

theorem fromResponse_segments (isAlphanumeric : Char → Bool) (parsePayload : List Char → Option TranslationPayload)
    (source response : List Char) :
    ((∃ t, fromResponse isAlphanumeric parsePayload source response = .ok t) ↔
      ∃ p, parsePayload response = some p ∧ Places isAlphanumeric source p.words ∧ FieldChecks source p) ∧
    ∀ t, fromResponse isAlphanumeric parsePayload source response = .ok t →
      (t.wire.segments.map TranslationSegment.source).flatten = source ∧
      CoveredOnce isAlphanumeric source t.wire.segments ∧
      (∀ gap, .literal gap ∈ t.wire.segments → gap.any isAlphanumeric = false) ∧
      (∀ word pinyin translation, .word word pinyin translation ∈ t.wire.segments → word.any isHan = true →
        ∃ p, pinyin = some p ∧ isBlankText p = false) ∧
      ParagraphTranslation.ofJson isAlphanumeric t.wire.toJson = some (.ok t) := by
  refine ⟨exists_fromResponse, fun t h => ?_⟩
  obtain ⟨p, r, -, -, -, hwire⟩ := fromResponse_ok.1 h
  have hsource : (t.wire.segments.map TranslationSegment.source).flatten = source := by
    rw [t.checked_segments.1, hwire]
  exact ⟨hsource, coveredOnce_of_literals hsource fun _ => t.literal_of_mem, fun _ => t.literal_of_mem,
    fun _ _ _ => t.pinyin_of_mem, t.ofJson_toJson⟩

/-- The response `\x7b"translation":"да","words":[\x7b"source":"ok","pinyin":null,"translation":"да"\x7d]\x7d`. -/
def okResponse : List Char :=
  "\x7b\"translation\":\"да\",\"words\":[\x7b\"source\":\"ok\",\"pinyin\":null,\"translation\":\"да\"\x7d]\x7d".toList

def okPayload : TranslationPayload :=
  { translation := "да".toList, words := [{ source := "ok".toList, pinyin := none, translation := "да".toList }] }

theorem fromResponse_segments_ok : ∃ t,
    fromResponse Char.isAlphanum (fun r => if r = okResponse then some okPayload else none) "ok.".toList okResponse =
      .ok t ∧ (t.wire.segments.map TranslationSegment.source).flatten = "ok.".toList := by
  have h := fromResponse_segments Char.isAlphanum (fun r => if r = okResponse then some okPayload else none)
    "ok.".toList okResponse
  have hplaces : Places Char.isAlphanum ([] ++ ("ok".toList ++ ['.'])) okPayload.words :=
    @Places.cons Char.isAlphanum [] ['.'] ⟨"ok".toList, none, "да".toList⟩ [] rfl (.nil (by decide))
  have hfields : FieldChecks "ok.".toList okPayload := by
    refine ⟨by decide, by decide, by decide, fun word hword => ?_⟩
    cases List.mem_singleton.1 hword
    exact ⟨by decide, by decide, by decide, fun p hp => by cases hp⟩
  obtain ⟨t, ht⟩ := h.1.2 ⟨okPayload, if_pos rfl, hplaces, hfields⟩
  exact ⟨t, ht, (h.2 t ht).1⟩

end Inoreader
