import Inoreader.Client.AnnotationFrames

/-!
# What the annotations mark

The words of a paragraph cut its text in one way, its leaves in another one. Both are compared by position: the cut
leaves put every letter in the span of the word that has its position, and so do the segments.
-/

namespace Inoreader
namespace Annotations
open Lib Forest

/-- The ids of the words that an element marks. -/
def Element.ids (e : Element) : List Nat := e.word.toList

/-! ## Positions -/

/-- The id of the word that has the position `p`. -/
def idAt (ranges : List Range) (p : Nat) : List Nat :=
  ((ranges.find? fun r => r.start ≤ p && p < r.stop).map (·.id)).toList

def marksFrom (f : Nat → List Nat) (p : Nat) (d : JsString) : List (UInt16 × List Nat) :=
  (d.zipIdx p).map fun x => (x.1, f x.2)

section
variable {f g : Nat → List Nat} {p low : Nat} {d d' : JsString} {r : Range} {rs : List Range}

theorem marksFrom_append : marksFrom f p (d ++ d') = marksFrom f p d ++ marksFrom f (p + d.length) d' := by
  rw [marksFrom, List.zipIdx_append, List.map_append]
  rfl

theorem marksFrom_congr (h : ∀ i, p ≤ i → i < p + d.length → f i = g i) : marksFrom f p d = marksFrom g p d := by
  refine List.map_congr_left fun x hx => ?_
  obtain ⟨hp, hlt, -⟩ := List.mem_zipIdx hx
  rw [h x.2 hp (by omega)]

theorem marksFrom_const {ids : List Nat} (h : ∀ i, p ≤ i → i < p + d.length → f i = ids) :
    marksFrom f p d = d.map (·, ids) := by
  rw [marksFrom_congr (g := fun _ => ids) h]
  unfold marksFrom
  rw [show (fun x : UInt16 × Nat => (x.1, ids)) = (·, ids) ∘ Prod.fst from rfl, ← List.map_map, List.zipIdx_map_fst]

theorem idAt_inside (hstart : r.start ≤ p) (hstop : p < r.stop) : idAt (r :: rs) p = [r.id] := by
  rw [idAt, List.find?_cons_of_pos (by simp [hstart, hstop])]
  rfl

theorem idAt_outside (h : p < r.start ∨ r.stop ≤ p) : idAt (r :: rs) p = idAt rs p := by
  rw [idAt, List.find?_cons_of_neg (by simp; omega)]
  rfl

theorem idAt_before (hrs : Ascending low rs) (h : p < low) : idAt rs p = [] := by
  induction rs generalizing low with
  | nil => rfl
  | cons r rs ih =>
    obtain ⟨hlow, hstop, hrest⟩ := hrs
    rw [idAt_outside (.inl (by omega)), ih hrest (by omega)]

end

section
variable {glossary : List TranslatedWord} {t : Nodes}

theorem letterMarks_text (d : JsString) (r : Nodes) :
    letterMarks Element.ids [] (.text d r) = d.map (·, []) ++ letterMarks Element.ids [] r := rfl

theorem letterMarks_element {e : Element} (he : e.word = none) (c r : Nodes) :
    letterMarks Element.ids [] (.element e c r) =
      letterMarks Element.ids [] c ++ letterMarks Element.ids [] r := by
  rw [letterMarks, Element.ids, he]
  rfl

theorem letterMarks_plain (ht : ∀ e ∈ t.elements, e.word = none) :
    letterMarks Element.ids [] t = t.content.map (·, []) := by
  induction t with
  | nil => rfl
  | text d r ih => rw [letterMarks_text, ih ht, content, List.map_append]
  | element e c r ihc ihr =>
    rw [elements, List.forall_mem_cons, List.forall_mem_append] at ht
    rw [letterMarks_element ht.1, ihc ht.2.1, ihr ht.2.2, content, List.map_append]

theorem letterMarks_wordSpan (id : Nat) (d : JsString) (r : Nodes) :
    letterMarks Element.ids [] (.element (wordSpan glossary id) (.text d .nil) r) =
      d.map (·, [id]) ++ letterMarks Element.ids [] r := by
  rw [letterMarks, letterMarks, letterMarks, List.append_nil]
  rfl

theorem length_slice (s : JsString) {start stop : Nat} (hstop : stop ≤ s.length) :
    (slice s start stop).length = stop - start := by
  rw [slice, List.length_drop, List.length_take, Nat.min_eq_left hstop]

/-- A cut leaf has every letter in the span of the word at its position. -/
theorem letterMarks_cutLeaf {base low cursor : Nat} {d : JsString} {rs : List Range} {r : Nodes}
    (hrs : Ascending low rs) (hcursor : cursor = 0 ∨ base + cursor ≤ low) :
    letterMarks Element.ids [] (cutLeaf glossary base d cursor rs r) =
      marksFrom (idAt rs) (base + cursor) (d.drop cursor) ++ letterMarks Element.ids [] r := by
  induction rs generalizing low cursor with
  | nil =>
    rw [cutLeaf, letterMarks_text, marksFrom_const (f := idAt []) fun _ _ _ => rfl]
  | cons range rs ih =>
    have hrs' := hrs
    obtain ⟨hlow, hnonempty, hrest⟩ := hrs'
    unfold cutLeaf
    dsimp only
    split
    · -- the leaf has no position of the range
      rw [ih hrest (by omega)]
      congr 1
      refine marksFrom_congr fun i hi hlt => (idAt_outside ?_).symm
      rw [List.length_drop] at hlt
      omega
    · rename_i hmeets
      obtain ⟨hstart, hstop, hend⟩ := cursor_le hrs hcursor hmeets
      have hlength : min (base + d.length) range.stop - base ≤ d.length := by omega
      rw [letterMarks_text, letterMarks_wordSpan, ih hrest (.inr hend), ← List.append_assoc, ← List.append_assoc]
      congr 1
      rw [← slice_append_drop d hstart, ← slice_append_drop d hstop, marksFrom_append, marksFrom_append,
        length_slice d (Nat.le_trans hstop hlength), length_slice d hlength, ← List.append_assoc]
      congr 1
      · congr 1
        · refine (marksFrom_const fun i hi hlt => ?_).symm
          rw [length_slice d (Nat.le_trans hstop hlength)] at hlt
          rw [idAt_outside (.inl (by omega)), idAt_before hrest (by omega)]
        · refine (marksFrom_const fun i hi hlt => ?_).symm
          rw [length_slice d hlength] at hlt
          exact idAt_inside (by omega) (by omega)
      · have hposition : base + cursor + (max base range.start - base - cursor) +
            (min (base + d.length) range.stop - base - (max base range.start - base)) =
            base + (min (base + d.length) range.stop - base) := by omega
        rw [hposition]
        refine marksFrom_congr fun i hi hlt => (idAt_outside ?_).symm
        rw [List.length_drop] at hlt
        omega

theorem letterMarks_cutLeaves {rs : List Range} (hrs : Ascending 0 rs) (ht : ∀ e ∈ t.elements, e.word = none)
    (base : Nat) :
    letterMarks Element.ids [] (cutLeaves glossary rs base t) = marksFrom (idAt rs) base t.content := by
  induction t generalizing base with
  | nil => rfl
  | text d r ih => rw [cutLeaves, letterMarks_cutLeaf hrs (.inl rfl), ih ht, content, marksFrom_append]; rfl
  | element e c r ihc ihr =>
    rw [elements, List.forall_mem_cons, List.forall_mem_append] at ht
    rw [cutLeaves, letterMarks_element ht.1, ihc ht.2.1, ihr ht.2.2, content, marksFrom_append]

end

/-! ## Pieces -/

/-- The text of a document in paragraphs and what is between them. -/
structure Block where
  paragraph : Bool
  text : JsString
deriving DecidableEq, Repr

def blocks : Nodes → List Block
  | .nil => []
  | .text d r => ⟨false, d⟩ :: blocks r
  | .element e c r => if isParagraph e c then ⟨true, c.content⟩ :: blocks r else blocks c ++ blocks r

/-- A piece of the text of an annotated document. -/
inductive Piece
  | plain (text : JsString)
  | word (id : Nat) (word : TranslatedWord)
deriving DecidableEq, Repr

def Piece.text : Piece → JsString
  | .plain text => text
  | .word _ w => w.source

def Piece.ids : Piece → List Nat
  | .plain _ => []
  | .word id _ => [id]

def Piece.word? : Piece → Option TranslatedWord
  | .plain _ => none
  | .word _ w => some w

/-- The letters of a piece, each in the span of the word of the piece. -/
def Piece.marks (piece : Piece) : List (UInt16 × List Nat) := piece.text.map (·, piece.ids)

def words (pieces : List Piece) : List TranslatedWord := pieces.filterMap Piece.word?

/-- The segments of a paragraph whose first word has the number `ordinal`. -/
def segmentPieces (ordinal : Nat) : List TranslationSegment → List Piece
  | [] => []
  | .word w :: segments => .word ordinal w :: segmentPieces (ordinal + 1) segments
  | .literal source :: segments => .plain source :: segmentPieces ordinal segments

def blockPieces (results : JsString → Option ParagraphTranslation) (ordinal : Nat) (block : Block) : List Piece :=
  if block.paragraph then
    match results block.text with
    | none => [.plain block.text]
    | some result => segmentPieces ordinal result.segments
  else [.plain block.text]

/-- The pieces that the translations make of a document. -/
def translate (results : JsString → Option ParagraphTranslation) (ordinal : Nat) : List Block → List Piece
  | [] => []
  | block :: rest =>
    let pieces := blockPieces results ordinal block
    pieces ++ translate results (ordinal + (words pieces).length) rest

/-- A translation of the text of a paragraph. -/
structure ParagraphTranslation.Matches (result : ParagraphTranslation) (source : JsString) : Prop where
  source_eq : result.source = source
  segments_eq : result.segments.flatMap (·.source) = source
  nonempty : ∀ segment ∈ result.segments, segment.source ≠ []

section
variable {results : JsString → Option ParagraphTranslation} {glossary : List TranslatedWord} {t : Nodes}

theorem words_append (ps qs : List Piece) : words (ps ++ qs) = words ps ++ words qs := List.filterMap_append

theorem words_segmentPieces (ordinal : Nat) (segments : List TranslationSegment) :
    words (segmentPieces ordinal segments) = segments.filterMap (·.word?) := by
  induction segments generalizing ordinal with
  | nil => rfl
  | cons segment segments ih =>
    cases segment with
    | word w => exact congrArg (w :: ·) (ih _)
    | literal source => exact ih _

theorem text_segmentPieces (ordinal : Nat) (segments : List TranslationSegment) :
    (segmentPieces ordinal segments).flatMap Piece.text = segments.flatMap (·.source) := by
  induction segments generalizing ordinal with
  | nil => rfl
  | cons segment segments ih =>
    cases segment with
    | word w => exact congrArg (w.source ++ ·) (ih _)
    | literal source => exact congrArg (source ++ ·) (ih _)

theorem ids_segmentPieces (ordinal : Nat) (segments : List TranslationSegment) :
    (segmentPieces ordinal segments).flatMap Piece.ids =
      List.range' ordinal (words (segmentPieces ordinal segments)).length := by
  induction segments generalizing ordinal with
  | nil => rfl
  | cons segment segments ih =>
    cases segment with
    | word w => exact congrArg (ordinal :: ·) (ih _)
    | literal source => exact ih _

/-- The words are numbered in the order of the document. -/
theorem ids_translate (ordinal : Nat) (bs : List Block) :
    (translate results ordinal bs).flatMap Piece.ids =
      List.range' ordinal (words (translate results ordinal bs)).length := by
  induction bs generalizing ordinal with
  | nil => rfl
  | cons block bs ih =>
    have hblock : (blockPieces results ordinal block).flatMap Piece.ids =
        List.range' ordinal (words (blockPieces results ordinal block)).length := by
      unfold blockPieces
      split
      · split
        · rfl
        · exact ids_segmentPieces _ _
      · rfl
    rw [translate, List.flatMap_append, words_append, List.length_append, hblock, ih]
    exact List.range'_append_1

theorem translate_append (ordinal : Nat) (as bs : List Block) : translate results ordinal (as ++ bs) =
    translate results ordinal as ++ translate results (ordinal + (words (translate results ordinal as)).length) bs := by
  induction as generalizing ordinal with
  | nil => rfl
  | cons block as ih =>
    simp only [List.cons_append, translate, ih, List.append_assoc, words_append, List.length_append, Nat.add_assoc]

/-! ## The loop over the paragraphs -/

theorem segmentRanges_isOk (offset ordinal : Nat) {segments : List TranslationSegment} :
    (∃ rs, segmentRanges offset ordinal segments = .ok rs) ↔ ∀ segment ∈ segments, segment.source ≠ [] := by
  induction segments generalizing offset ordinal with
  | nil => exact iff_of_true ⟨[], rfl⟩ (List.forall_mem_nil _)
  | cons segment segments ih =>
    rw [List.forall_mem_cons]
    unfold segmentRanges
    split
    · rename_i hempty
      refine iff_of_false ?_ fun h => h.1 (List.isEmpty_iff.1 hempty)
      rintro ⟨_, h⟩
      cases h
    · rename_i hnonempty
      have hsource : segment.source ≠ [] := fun h => hnonempty (List.isEmpty_iff.2 h)
      cases segment with
      | word w =>
        rw [← ih (offset + w.source.length) (ordinal + 1)]
        simp only [except_map_ok]
        constructor
        · rintro ⟨_, rs, h, -⟩
          exact ⟨hsource, rs, h⟩
        · rintro ⟨-, rs, h⟩
          exact ⟨_, rs, h, rfl⟩
      | literal source =>
        rw [← ih (offset + source.length) ordinal]
        exact ⟨fun h => ⟨hsource, h⟩, fun h => h.2⟩

theorem translationRanges_isOk {result : ParagraphTranslation} {source : JsString} (ordinal : Nat) :
    (∃ rs, translationRanges result source ordinal = .ok rs) ↔ result.Matches source := by
  constructor
  · rintro ⟨rs, h⟩
    obtain ⟨hsource, hsegments, hrs⟩ := translationRanges_ok h
    exact ⟨hsource, hsegments, (segmentRanges_isOk 0 ordinal).1 ⟨rs, hrs⟩⟩
  · rintro ⟨hsource, hsegments, hnonempty⟩
    obtain ⟨rs, hrs⟩ := (segmentRanges_isOk 0 ordinal).2 hnonempty
    refine ⟨rs, ?_⟩
    rw [translationRanges, if_neg (not_or.2 ⟨not_not.2 hsource, not_not.2 hsegments⟩), hrs]

/-- The segments have every letter in the span of the word at its position. -/
theorem marksFrom_segmentRanges {offset ordinal : Nat} {segments : List TranslationSegment} {rs : List Range}
    (h : segmentRanges offset ordinal segments = .ok rs) :
    marksFrom (idAt rs) offset (segments.flatMap (·.source)) = (segmentPieces ordinal segments).flatMap Piece.marks := by
  induction segments generalizing offset ordinal rs with
  | nil => rfl
  | cons segment segments ih =>
    unfold segmentRanges at h
    split at h
    · cases h
    · rw [List.flatMap_cons, marksFrom_append]
      cases segment with
      | word w =>
        obtain ⟨rs', hrs', rfl⟩ := except_map_ok.1 h
        rw [segmentPieces, List.flatMap_cons, ← ih hrs']
        congr 1
        · exact marksFrom_const fun i hi hlt => idAt_inside hi hlt
        · exact marksFrom_congr fun i hi _ => idAt_outside (.inr hi)
      | literal source =>
        rw [segmentPieces, List.flatMap_cons, ← ih h]
        congr 1
        exact marksFrom_const fun i _ hlt => idAt_before (segmentRanges_ascending h _ (Nat.le_refl _)) hlt

theorem annotateParagraphs_error (message : String) (t : Nodes) :
    annotateParagraphs results (.error message) t = (t, .error message) := by
  cases t <;> rfl

theorem annotateParagraphs_text (d : JsString) (r : Nodes) : annotateParagraphs results (.ok glossary) (.text d r) =
    (.text d (annotateParagraphs results (.ok glossary) r).1, (annotateParagraphs results (.ok glossary) r).2) := rfl

theorem annotateParagraphs_paragraph {e : Element} {c r : Nodes} (h : isParagraph e c = true) :
    annotateParagraphs results (.ok glossary) (.element e c r) =
      (.element { e with translatable := true } (annotateParagraph results glossary c).1
        (annotateParagraphs results (annotateParagraph results glossary c).2 r).1,
        (annotateParagraphs results (annotateParagraph results glossary c).2 r).2) := by
  rw [annotateParagraphs, if_pos h]

theorem annotateParagraphs_other {e : Element} {c r : Nodes} (h : isParagraph e c = false) :
    annotateParagraphs results (.ok glossary) (.element e c r) =
      (.element e (annotateParagraphs results (.ok glossary) c).1
        (annotateParagraphs results (annotateParagraphs results (.ok glossary) c).2 r).1,
        (annotateParagraphs results (annotateParagraphs results (.ok glossary) c).2 r).2) := by
  rw [annotateParagraphs, if_neg (by rw [h]; exact Bool.false_ne_true)]

/-- Every paragraph with a translation matches it. -/
def Matched (results : JsString → Option ParagraphTranslation) (bs : List Block) : Prop :=
  ∀ block ∈ bs, block.paragraph = true → ∀ result, results block.text = some result → result.Matches block.text

theorem annotateParagraph_isOk (glossary : List TranslatedWord) : (∃ glossary', (annotateParagraph results glossary t).2 = .ok glossary') ↔
    ∀ result, results t.content = some result → result.Matches t.content := by
  unfold annotateParagraph
  split
  · rename_i hnone
    refine iff_of_true ⟨_, rfl⟩ fun result h => ?_
    rw [hnone] at h
    cases h
  · rename_i result hresult
    rw [hresult]
    simp only [Option.some.injEq, forall_eq']
    rw [← translationRanges_isOk glossary.length]
    split
    · rename_i message herror
      rw [herror]
      constructor <;>
      · rintro ⟨_, h⟩
        cases h
    · rename_i rs hrs
      exact iff_of_true ⟨_, rfl⟩ ⟨rs, hrs⟩

/-- A paragraph that matches its translation. -/
theorem annotateParagraph_ok (glossary : List TranslatedWord) (ht : ∀ e ∈ t.elements, e.word = none)
    (hmatches : ∀ result, results t.content = some result → result.Matches t.content) :
    (annotateParagraph results glossary t).2 =
        .ok (glossary ++ words (blockPieces results glossary.length ⟨true, t.content⟩)) ∧
      letterMarks Element.ids [] (annotateParagraph results glossary t).1 =
        (blockPieces results glossary.length ⟨true, t.content⟩).flatMap Piece.marks := by
  unfold annotateParagraph blockPieces
  rw [if_pos rfl]
  cases hresult : results t.content with
  | none =>
    refine ⟨congrArg Except.ok (List.append_nil glossary).symm, ?_⟩
    rw [List.flatMap_singleton, letterMarks_plain ht]
    rfl
  | some result =>
    obtain ⟨rs, hrs⟩ := (translationRanges_isOk glossary.length).2 (hmatches result hresult)
    obtain ⟨-, hsegments, hranges⟩ := translationRanges_ok hrs
    simp only [hrs]
    refine ⟨by rw [words_segmentPieces], ?_⟩
    rw [letterMarks_cutLeaves (segmentRanges_ascending hranges 0 (Nat.le_refl 0)) ht, ← hsegments,
      marksFrom_segmentRanges hranges]

theorem annotateParagraphs_isOk (glossary : List TranslatedWord) : (∃ glossary', (annotateParagraphs results (.ok glossary) t).2 = .ok glossary') ↔
    Matched results (blocks t) := by
  induction t generalizing glossary with
  | nil => exact iff_of_true ⟨_, rfl⟩ (List.forall_mem_nil _)
  | text d r ih =>
    rw [annotateParagraphs_text, Matched, blocks, List.forall_mem_cons, ih]
    exact ⟨fun h => ⟨fun hfalse => absurd hfalse Bool.false_ne_true, h⟩, fun h => h.2⟩
  | element e c r ihc ihr =>
    cases hparagraph : isParagraph e c with
    | true =>
      rw [annotateParagraphs_paragraph hparagraph, Matched, blocks, if_pos hparagraph, List.forall_mem_cons, ← Matched]
      cases hstate : (annotateParagraph results glossary c).2 with
      | error message =>
        rw [annotateParagraphs_error]
        refine iff_of_false ?_ fun h => ?_
        · rintro ⟨_, h⟩
          cases h
        obtain ⟨glossary', hok⟩ := (annotateParagraph_isOk glossary).2 (h.1 rfl)
        rw [hstate] at hok
        cases hok
      | ok glossary' =>
        rw [ihr]
        exact ⟨fun h => ⟨fun _ => (annotateParagraph_isOk glossary).1 ⟨glossary', hstate⟩, h⟩, fun h => h.2⟩
    | false =>
      rw [annotateParagraphs_other hparagraph, Matched, blocks, if_neg (by rw [hparagraph]; exact Bool.false_ne_true),
        List.forall_mem_append, ← Matched, ← Matched]
      cases hstate : (annotateParagraphs results (.ok glossary) c).2 with
      | error message =>
        rw [annotateParagraphs_error]
        refine iff_of_false ?_ fun h => ?_
        · rintro ⟨_, h⟩
          cases h
        obtain ⟨glossary', hok⟩ := (ihc glossary).2 h.1
        rw [hstate] at hok
        cases hok
      | ok glossary' =>
        rw [ihr]
        exact ⟨fun h => ⟨(ihc glossary).1 ⟨glossary', hstate⟩, h⟩, fun h => h.2⟩

/-- The loop puts the words of the translations into spans, and nothing else. -/
theorem annotateParagraphs_ok (glossary : List TranslatedWord) (ht : ∀ e ∈ t.elements, e.word = none) (hmatches : Matched results (blocks t)) :
    (annotateParagraphs results (.ok glossary) t).2 =
        .ok (glossary ++ words (translate results glossary.length (blocks t))) ∧
      letterMarks Element.ids [] (annotateParagraphs results (.ok glossary) t).1 =
        (translate results glossary.length (blocks t)).flatMap Piece.marks := by
  induction t generalizing glossary with
  | nil => exact ⟨congrArg Except.ok (List.append_nil glossary).symm, rfl⟩
  | text d r ih =>
    obtain ⟨hstate, hmarks⟩ := ih glossary ht fun block h => hmatches block (List.mem_cons_of_mem _ h)
    rw [annotateParagraphs_text]
    exact ⟨hstate, congrArg (d.map (·, []) ++ ·) hmarks⟩
  | element e c r ihc ihr =>
    rw [elements, List.forall_mem_cons, List.forall_mem_append] at ht
    cases hparagraph : isParagraph e c with
    | true =>
      rw [Matched, blocks, if_pos hparagraph, List.forall_mem_cons] at hmatches
      obtain ⟨hstate, hmarks⟩ := annotateParagraph_ok glossary ht.2.1 (hmatches.1 rfl)
      obtain ⟨hstate', hmarks'⟩ :=
        ihr (glossary ++ words (blockPieces results glossary.length ⟨true, c.content⟩)) ht.2.2 hmatches.2
      rw [List.length_append] at hstate' hmarks'
      rw [annotateParagraphs_paragraph hparagraph, hstate, blocks, if_pos hparagraph, translate]
      refine ⟨?_, ?_⟩
      · rw [hstate', words_append, List.append_assoc]
      · refine (letterMarks_element (e := { e with translatable := true }) ht.1 _ _).trans ?_
        rw [hmarks, hmarks', List.flatMap_append]
    | false =>
      have hother : ¬ isParagraph e c = true := by rw [hparagraph]; exact Bool.false_ne_true
      rw [Matched, blocks, if_neg hother, List.forall_mem_append] at hmatches
      obtain ⟨hstate, hmarks⟩ := ihc glossary ht.2.1 hmatches.1
      obtain ⟨hstate', hmarks'⟩ :=
        ihr (glossary ++ words (translate results glossary.length (blocks c))) ht.2.2 hmatches.2
      rw [List.length_append] at hstate' hmarks'
      rw [annotateParagraphs_other hparagraph, hstate, blocks, if_neg hother, translate_append]
      refine ⟨?_, ?_⟩
      · rw [hstate', words_append, List.append_assoc]
      · refine (letterMarks_element ht.1 _ _).trans ?_
        rw [hmarks, hmarks', List.flatMap_append]

/-! ## The prepared document -/

theorem word_wrapOrphans (kept : Bool) (ht : ∀ e ∈ t.elements, e.word = none) :
    ∀ e ∈ (wrapOrphans kept t).elements, e.word = none := by
  induction t generalizing kept with
  | nil => exact ht
  | text d r ih =>
    unfold wrapOrphans
    split
    · exact ih kept ht
    · rw [elements, List.forall_mem_cons, List.forall_mem_append]
      exact ⟨rfl, List.forall_mem_nil _, ih kept ht⟩
  | element e c r ihc ihr =>
    rw [elements, List.forall_mem_cons, List.forall_mem_append] at ht
    rw [wrapOrphans, elements, List.forall_mem_cons, List.forall_mem_append]
    exact ⟨ht.1, ihc _ ht.2.1, ihr _ ht.2.2⟩

theorem word_wrapArticle {kept : Bool} (ht : ∀ e ∈ t.elements, e.word = none) {t' : Nodes}
    (h : wrapArticle kept t = some t') : ∀ e ∈ t'.elements, e.word = none := by
  induction t generalizing kept t' with
  | nil => cases h
  | text d r ih =>
    obtain ⟨r', hr, rfl⟩ := Option.map_eq_some_iff.1 h
    rw [elements]
    exact ih ht hr
  | element e c r ihc ihr =>
    rw [elements, List.forall_mem_cons, List.forall_mem_append] at ht
    unfold wrapArticle at h
    split at h
    · cases h
      rw [elements, List.forall_mem_cons, List.forall_mem_append]
      exact ⟨ht.1, word_wrapOrphans _ ht.2.1, ht.2.2⟩
    · split at h
      · rename_i c' hc
        cases h
        rw [elements, List.forall_mem_cons, List.forall_mem_append]
        exact ⟨ht.1, ihc ht.2.1 hc, ht.2.2⟩
      · obtain ⟨r', hr, rfl⟩ := Option.map_eq_some_iff.1 h
        rw [elements, List.forall_mem_cons, List.forall_mem_append]
        exact ⟨ht.1, ht.2.1, ihr ht.2.2 hr⟩

variable {outside : Bool}

theorem word_prepared (h : ∀ e ∈ t.elements, e.Original) : ∀ e ∈ (prepared outside t).elements, e.word = none := by
  have hwords : ∀ e ∈ (markParagraphs (clearAnnotations t)).elements, e.word = none := by
    intro e he
    obtain ⟨e', he', -, hsame⟩ := mem_markParagraphs he
    rw [clearAnnotations_original h, elements_normalize] at he'
    exact hsame.trans (Option.not_isSome_iff_eq_none.1 (by simp [(Bool.or_eq_false_iff.1 (h e' he').unwrapped).1]))
  unfold prepared wrapScope
  cases hscope : wrapArticle outside (markParagraphs (clearAnnotations t)) with
  | none => exact word_wrapOrphans outside hwords
  | some t' => exact word_wrapArticle hwords hscope

/-- The pieces of the text are its blocks. -/
theorem text_translate {ordinal : Nat} {bs : List Block} (h : Matched results bs) :
    (translate results ordinal bs).flatMap Piece.text = bs.flatMap (·.text) := by
  induction bs generalizing ordinal with
  | nil => rfl
  | cons block bs ih =>
    rw [Matched, List.forall_mem_cons] at h
    have hblock : (blockPieces results ordinal block).flatMap Piece.text = block.text := by
      unfold blockPieces
      split
      · rename_i hparagraph
        split
        · exact List.flatMap_singleton ..
        · rename_i result hresult
          exact (text_segmentPieces _ _).trans (h.1 hparagraph result hresult).segments_eq
      · exact List.flatMap_singleton ..
    rw [translate, List.flatMap_append, List.flatMap_cons, hblock, ih h.2]

theorem text_blocks (t : Nodes) : (blocks t).flatMap (·.text) = t.content := by
  induction t with
  | nil => rfl
  | text d r ih => exact congrArg (d ++ ·) ih
  | element e c r ihc ihr =>
    unfold blocks
    split
    · exact congrArg (c.content ++ ·) ihr
    · rw [List.flatMap_append, ihc, ihr, content]

/-- The letters of the spans of a word. -/
theorem filter_marks {pre post : List Piece} {id : Nat} {w : TranslatedWord}
    (hids : ((pre ++ .word id w :: post).flatMap Piece.ids).Nodup) :
    (((pre ++ .word id w :: post).flatMap Piece.marks).filter fun x => decide (id ∈ x.2)).map Prod.fst = w.source := by
  have hnone : ∀ ps : List Piece, id ∉ ps.flatMap Piece.ids →
      (ps.flatMap Piece.marks).filter (fun x => decide (id ∈ x.2)) = [] := by
    intro ps hid
    rw [List.filter_eq_nil_iff]
    intro x hx hmem
    obtain ⟨piece, hpiece, hmarks⟩ := List.mem_flatMap.1 hx
    obtain ⟨u, -, rfl⟩ := List.mem_map.1 hmarks
    exact hid (List.mem_flatMap.2 ⟨piece, hpiece, of_decide_eq_true hmem⟩)
  rw [List.flatMap_append, List.flatMap_cons, List.nodup_append] at hids
  obtain ⟨-, hword, hpre⟩ := hids
  have hpost : id ∉ post.flatMap Piece.ids := (List.nodup_cons.1 hword).1
  have hself : ((Piece.word id w).marks).filter (fun x => decide (id ∈ x.2)) = (Piece.word id w).marks :=
    List.filter_eq_self.2 fun x hx => by
      obtain ⟨u, -, rfl⟩ := List.mem_map.1 hx
      exact decide_eq_true List.mem_cons_self
  rw [List.flatMap_append, List.flatMap_cons, List.filter_append, List.filter_append, hself, hnone post hpost,
    hnone pre fun hmem => hpre id hmem id List.mem_cons_self rfl, List.nil_append, List.append_nil, Piece.marks,
    List.map_map]
  exact List.map_id _

theorem length_ids (ps : List Piece) : (ps.flatMap Piece.ids).length = (words ps).length := by
  induction ps with
  | nil => rfl
  | cons piece ps ih =>
    cases piece with
    | plain text => exact ih
    | word id w => exact congrArg (· + 1) ih

/-- A number of a word is the number of words before it. -/
theorem id_of_ids {pre post : List Piece} {id n : Nat} {w : TranslatedWord}
    (hids : (pre ++ .word id w :: post).flatMap Piece.ids = List.range n) : id = (words pre).length := by
  have hlookup : ((pre ++ .word id w :: post).flatMap Piece.ids)[(words pre).length]? = some id := by
    rw [List.flatMap_append, ← length_ids, List.getElem?_append_right (Nat.le_refl _), Nat.sub_self]
    rfl
  rw [hids] at hlookup
  obtain ⟨hlt, hget⟩ := List.getElem?_eq_some_iff.1 hlookup
  rw [← hget, List.getElem_range]

/-- What `annotate` does with a document without annotations. It keeps the text and the elements, but for the mark of the
paragraphs, a second annotation finds the same, and clearing gives the document back with its texts joined. It succeeds
if every translation matches its paragraph. Then the pieces of the text are the segments of the translations and what is
between them, a letter lies in the span of the word of its piece and in no other one, and the words are numbered by
their places in the glossary. -/
theorem annotate_exact (outside : Bool) (results : JsString → Option ParagraphTranslation)
    (h : ∀ e ∈ t.elements, e.Original) :
    (annotate outside results t).1.content = t.content ∧
    ((annotate outside results t).1.elements.filter fun e => !e.wrapper).map Element.bare = t.elements ∧
    annotate outside results (annotate outside results t).1 = annotate outside results t ∧
    clearAnnotations (annotate outside results t).1 = t.normalize ∧
    ((∃ glossary, (annotate outside results t).2 = .ok glossary) ↔ Matched results (blocks (prepared outside t))) ∧
    (Matched results (blocks (prepared outside t)) →
      ∃ pieces, pieces = translate results 0 (blocks (prepared outside t)) ∧ pieces.flatMap Piece.text = t.content ∧
        (annotate outside results t).2 = .ok (words pieces) ∧
        letterMarks Element.ids [] (annotate outside results t).1 = pieces.flatMap Piece.marks ∧
        pieces.flatMap Piece.ids = List.range (words pieces).length ∧
        ∀ pre id w post, pieces = pre ++ .word id w :: post → (words pieces)[id]? = some w ∧
          textIn (fun e => id ∈ e.ids) (annotate outside results t).1 = w.source) := by
  refine ⟨content_annotate h, elements_annotate outside results h, annotate_annotate h, clearAnnotations_annotate h,
    annotateParagraphs_isOk [], fun hmatches => ⟨_, rfl, ?_, ?_⟩⟩
  · -- the passes before the loop keep the text
    have hcontent : (prepared outside t).content = t.content := by
      rw [← content_stripped, prepared, stripped_wrapScope, stripped_markParagraphs, content_stripped,
        clearAnnotations_original h, content_normalize]
    rw [text_translate hmatches, text_blocks, hcontent]
  · obtain ⟨hstate, hmarks⟩ := annotateParagraphs_ok [] (word_prepared h) hmatches
    rw [List.nil_append, List.length_nil] at hstate
    rw [List.length_nil] at hmarks
    have hids : (translate results 0 (blocks (prepared outside t))).flatMap Piece.ids = List.range _ :=
      (ids_translate 0 _).trans List.range_eq_range'.symm
    refine ⟨hstate, hmarks, hids, fun pre id w post hpieces => ⟨?_, ?_⟩⟩
    · -- as many words stand before the word as its number says
      rw [hpieces] at hids ⊢
      rw [words_append, id_of_ids hids, List.getElem?_append_right (Nat.le_refl _), Nat.sub_self]
      rfl
    · rw [textIn_eq List.not_mem_nil, annotate, hmarks]
      rw [hpieces] at hids ⊢
      exact filter_marks (hids ▸ List.nodup_range)

end

/-! ## A paragraph of two letters -/

def sampleParagraph : Nodes := .element { tag := "p" } (.text [0x61, 0x62] .nil) .nil

def sampleWord : TranslatedWord := ⟨[0x61], none, [0x78]⟩

def sampleResults (source : JsString) : Option ParagraphTranslation :=
  if source = [0x61, 0x62] then some ⟨[0x61, 0x62], [0x78], [.word sampleWord, .literal [0x62]]⟩ else none

/-- The word of the paragraph is in its span. -/
theorem annotate_exact_sample :
    (annotate false sampleResults sampleParagraph).1.content = [0x61, 0x62] ∧
      ∃ glossary, (annotate false sampleResults sampleParagraph).2 = .ok glossary ∧ glossary[0]? = some sampleWord ∧
        textIn (fun e => 0 ∈ e.ids) (annotate false sampleResults sampleParagraph).1 = [0x61] := by
  have hparagraph : ∀ e ∈ sampleParagraph.elements, e.Original := by
    intro e he
    cases List.mem_singleton.1 he
    exact ⟨rfl, List.not_mem_nil, rfl⟩
  obtain ⟨hcontent, -, -, -, hok, hmarks⟩ := annotate_exact false sampleResults hparagraph
  obtain ⟨pieces, hpieces, -, hstate, -, -, hwords⟩ := hmarks (hok.1 ⟨[sampleWord], rfl⟩)
  obtain ⟨hword, htext⟩ := hwords [] 0 sampleWord [.plain [0x62]] hpieces
  exact ⟨hcontent, words pieces, hstate, hword, htext⟩

/-- A paragraph is marked. -/
theorem paragraph_marked : (annotate false (fun _ => none) sampleParagraph).1.elements.filter (fun e => !e.wrapper) ≠
    sampleParagraph.elements := by
  decide

end Annotations
end Inoreader
