import Inoreader.Client.Annotations
import Inoreader.Lib.Except

/-!
# What the annotations leave alone

Seen through the spans that it puts around text and the mark of the paragraphs, an annotated document is the document
from before. The ranges of the words of a paragraph follow one another, so the loop over the leaves neither loses nor
repeats text, however the leaves and the words cut it.
-/

namespace Inoreader
namespace Annotations
open Lib Forest

/-- The spans that `annotate` makes. -/
def Element.wrapper (e : Element) : Bool := e.word.isSome || e.fragment

def Element.bare (e : Element) : Element := { e with translatable := false }

/-- The document without the annotations, letter by letter. -/
def stripped (t : Nodes) : Nodes := t.spread Element.wrapper Element.bare

/-- Ranges that follow one another from `low` on. -/
def Ascending (low : Nat) : List Range → Prop
  | [] => True
  | r :: rs => low ≤ r.start ∧ r.start < r.stop ∧ Ascending r.stop rs

section
variable {results : JsString → Option ParagraphTranslation} {glossary : List TranslatedWord} {t : Nodes}

@[simp] theorem stripped_nil : stripped .nil = .nil := rfl

@[simp] theorem stripped_text (d : JsString) (r : Nodes) : stripped (.text d r) = letters d (stripped r) := rfl

theorem stripped_element {e : Element} (he : e.wrapper = false) (c r : Nodes) :
    stripped (.element e c r) = .element e.bare (stripped c) (stripped r) :=
  if_neg (by rw [he]; exact Bool.false_ne_true)

theorem stripped_wrapper {e : Element} (he : e.wrapper = true) (c r : Nodes) :
    stripped (.element e c r) = (stripped c).append (stripped r) :=
  if_pos he

/-- An element counts only by what it is apart from its mark. -/
theorem stripped_congr {e e' : Element} {c c' r r' : Nodes} (hwrapper : e.wrapper = e'.wrapper) (hbare : e.bare = e'.bare)
    (hc : stripped c = stripped c') (hr : stripped r = stripped r') :
    stripped (.element e c r) = stripped (.element e' c' r') := by
  cases he : e'.wrapper with
  | true => rw [stripped_wrapper (hwrapper.trans he), stripped_wrapper he, hc, hr]
  | false => rw [stripped_element (hwrapper.trans he), stripped_element he, hbare, hc, hr]

/-- A text in a span counts as the text. -/
theorem stripped_span {e : Element} (he : e.wrapper = true) (d : JsString) (r : Nodes) :
    stripped (.element e (.text d .nil) r) = letters d (stripped r) := by
  rw [stripped_wrapper he, ← stripped_text, stripped, stripped, ← spread_append]
  rfl

theorem stripped_markParagraphs (t : Nodes) : stripped (markParagraphs t) = stripped t := by
  induction t with
  | nil => rfl
  | text d r ih => rw [markParagraphs, stripped_text, stripped_text, ih]
  | element e c r ihc ihr => exact stripped_congr rfl rfl ihc ihr

theorem stripped_wrapOrphans (kept : Bool) (t : Nodes) : stripped (wrapOrphans kept t) = stripped t := by
  induction t generalizing kept with
  | nil => rfl
  | text d r ih =>
    unfold wrapOrphans
    split
    · rw [stripped_text, stripped_text, ih]
    · rw [stripped_span rfl, stripped_text, ih]
  | element e c r ihc ihr => exact stripped_congr rfl rfl (ihc _) (ihr _)

theorem stripped_wrapArticle {kept : Bool} {t t' : Nodes} (h : wrapArticle kept t = some t') :
    stripped t' = stripped t := by
  induction t generalizing kept t' with
  | nil => cases h
  | text d r ih =>
    obtain ⟨r', hr, rfl⟩ := Option.map_eq_some_iff.1 h
    rw [stripped_text, stripped_text, ih hr]
  | element e c r ihc ihr =>
    unfold wrapArticle at h
    split at h
    · cases h
      exact stripped_congr rfl rfl (stripped_wrapOrphans _ c) rfl
    · split at h
      · rename_i c' hc
        cases h
        exact stripped_congr rfl rfl (ihc hc) rfl
      · obtain ⟨r', hr, rfl⟩ := Option.map_eq_some_iff.1 h
        exact stripped_congr rfl rfl rfl (ihr hr)

theorem stripped_wrapScope (outside : Bool) (t : Nodes) : stripped (wrapScope outside t) = stripped t := by
  unfold wrapScope
  cases h : wrapArticle outside t with
  | none => exact stripped_wrapOrphans outside t
  | some t' => exact stripped_wrapArticle h

theorem content_stripped (t : Nodes) : (stripped t).content = t.content := content_spread t

/-! ## Paragraphs have no paragraphs in them -/

/-- What `querySelectorAll` of `paragraphs` asks for. -/
def Element.queried (e : Element) : Bool := e.inSelector || e.fragment

def Unnested : Nodes → Prop
  | .nil => True
  | .text _ r => Unnested r
  | .element e c r =>
    (isParagraph e c = true → ∀ d ∈ c.elements, d.queried = false) ∧ Unnested c ∧ Unnested r

/-- The paragraphs are marked. -/
def ParagraphsMarked : Nodes → Prop
  | .nil => True
  | .text _ r => ParagraphsMarked r
  | .element e c r => (isParagraph e c = true → e.translatable = true) ∧ ParagraphsMarked c ∧ ParagraphsMarked r

/-- `querySelector` of the filter of `paragraphs`. -/
def holdsBlock (t : Nodes) : Bool := t.elements.any fun d => d.inSelector || d.tag = "pre"

theorem isParagraph_congr {e : Element} {c c' : Nodes} (hblock : holdsBlock c' = holdsBlock c)
    (hcontent : c'.content = c.content) : isParagraph e c' = isParagraph e c := by
  unfold isParagraph
  rw [← holdsBlock, ← holdsBlock, hblock, hcontent]

theorem not_inSelector_of_paragraph {e : Element} {c : Nodes} (h : isParagraph e c = true) {d : Element}
    (hd : d ∈ c.elements) : d.inSelector = false := by
  unfold isParagraph at h
  simp only [Bool.and_eq_true, Bool.not_eq_true', List.any_eq_false] at h
  have hnone := h.1.2 d hd
  rw [Bool.not_eq_true, Bool.or_eq_false_iff] at hnone
  exact hnone.1

theorem holdsBlock_element (e : Element) (c r : Nodes) :
    holdsBlock (.element e c r) = ((e.inSelector || e.tag = "pre") || (holdsBlock c || holdsBlock r)) := by
  rw [holdsBlock, elements, List.any_cons, List.any_append]
  rfl

theorem holdsBlock_markParagraphs (t : Nodes) : holdsBlock (markParagraphs t) = holdsBlock t := by
  induction t with
  | nil => rfl
  | text d r ih => exact ih
  | element e c r ihc ihr =>
    rw [markParagraphs, holdsBlock_element, holdsBlock_element, ihc, ihr]
    rfl

theorem content_markParagraphs (t : Nodes) : (markParagraphs t).content = t.content := by
  rw [← content_stripped, stripped_markParagraphs, content_stripped]

theorem paragraphsMarked (t : Nodes) : ParagraphsMarked (markParagraphs t) := by
  induction t with
  | nil => trivial
  | text d r ih => exact ih
  | element e c r ihc ihr =>
    refine ⟨fun h => ?_, ihc, ihr⟩
    rw [isParagraph_congr (holdsBlock_markParagraphs c) (content_markParagraphs c)] at h
    have h' : isParagraph e c = true := h
    exact Bool.or_eq_true_iff.2 (.inr h')

theorem wrapOrphans_kept (t : Nodes) : wrapOrphans true t = t := by
  induction t with
  | nil => rfl
  | text d r ih => rw [wrapOrphans, Bool.true_or, if_pos rfl, ih]
  | element e c r ihc ihr => rw [wrapOrphans, Bool.true_or, ihc, ihr]

theorem wrapArticle_kept {t t' : Nodes} (h : wrapArticle true t = some t') : t' = t := by
  induction t generalizing t' with
  | nil => cases h
  | text d r ih =>
    obtain ⟨r', hr, rfl⟩ := Option.map_eq_some_iff.1 h
    rw [ih hr]
  | element e c r ihc ihr =>
    unfold wrapArticle at h
    rw [Bool.true_or, wrapOrphans_kept] at h
    split at h
    · cases h
      rfl
    · split at h
      · rename_i c' hc
        cases h
        rw [ihc hc]
      · obtain ⟨r', hr, rfl⟩ := Option.map_eq_some_iff.1 h
        rw [ihr hr]

theorem holdsBlock_wrapOrphans (kept : Bool) (t : Nodes) : holdsBlock (wrapOrphans kept t) = holdsBlock t := by
  induction t generalizing kept with
  | nil => rfl
  | text d r ih =>
    unfold wrapOrphans
    split
    · exact ih kept
    · rw [holdsBlock_element, ih]
      rfl
  | element e c r ihc ihr => rw [wrapOrphans, holdsBlock_element, holdsBlock_element, ihc, ihr]

theorem holdsBlock_wrapArticle {kept : Bool} {t t' : Nodes} (h : wrapArticle kept t = some t') :
    holdsBlock t' = holdsBlock t := by
  induction t generalizing kept t' with
  | nil => cases h
  | text d r ih =>
    obtain ⟨r', hr, rfl⟩ := Option.map_eq_some_iff.1 h
    show holdsBlock r' = holdsBlock r
    exact ih hr
  | element e c r ihc ihr =>
    unfold wrapArticle at h
    split at h
    · cases h
      rw [holdsBlock_element, holdsBlock_element, holdsBlock_wrapOrphans]
    · split at h
      · rename_i c' hc
        cases h
        rw [holdsBlock_element, holdsBlock_element, ihc hc]
      · obtain ⟨r', hr, rfl⟩ := Option.map_eq_some_iff.1 h
        rw [holdsBlock_element, holdsBlock_element, ihr hr]

section
variable {t : Nodes}

theorem unnested_of_unwrapped (ht : ∀ e ∈ t.elements, e.fragment = false) : Unnested t := by
  induction t with
  | nil => trivial
  | text d r ih => exact ih ht
  | element e c r ihc ihr =>
    rw [elements, List.forall_mem_cons, List.forall_mem_append] at ht
    refine ⟨fun h d hd => ?_, ihc ht.2.1, ihr ht.2.2⟩
    rw [Element.queried, not_inSelector_of_paragraph h hd, ht.2.1 d hd]
    rfl

theorem unnested_wrapOrphans (kept : Bool) (ht : ∀ e ∈ t.elements, e.fragment = false) (hmarked : ParagraphsMarked t) :
    Unnested (wrapOrphans kept t) := by
  induction t generalizing kept with
  | nil => trivial
  | text d r ih =>
    unfold wrapOrphans
    split
    · exact ih kept ht hmarked
    · exact ⟨fun _ _ hd => absurd hd List.not_mem_nil, trivial, ih kept ht hmarked⟩
  | element e c r ihc ihr =>
    rw [elements, List.forall_mem_cons, List.forall_mem_append] at ht
    obtain ⟨hparagraph, hc, hr⟩ := hmarked
    refine ⟨fun h d hd => ?_, ihc _ ht.2.1 hc, ihr _ ht.2.2 hr⟩
    -- a paragraph keeps its text
    have hcontent : (wrapOrphans (kept || e.keepsText) c).content = c.content := by
      rw [← content_stripped, stripped_wrapOrphans, content_stripped]
    have hmark := hparagraph (isParagraph_congr (holdsBlock_wrapOrphans _ c) hcontent ▸ h)
    rw [Element.keepsText, hmark, Bool.or_true, Bool.or_true, wrapOrphans_kept] at hd h
    rw [Element.queried, not_inSelector_of_paragraph h hd, ht.2.1 d hd]
    rfl

theorem unnested_wrapArticle {kept : Bool} (ht : ∀ e ∈ t.elements, e.fragment = false) (hmarked : ParagraphsMarked t)
    {t' : Nodes} (h : wrapArticle kept t = some t') : Unnested t' := by
  induction t generalizing kept t' with
  | nil => cases h
  | text d r ih =>
    obtain ⟨r', hr, rfl⟩ := Option.map_eq_some_iff.1 h
    show Unnested r'
    exact ih ht hmarked hr
  | element e c r ihc ihr =>
    have hunnested := unnested_wrapOrphans kept ht hmarked
    have hsame := unnested_of_unwrapped ht
    rw [elements, List.forall_mem_cons, List.forall_mem_append] at ht
    unfold wrapArticle at h
    split at h
    · cases h
      exact ⟨hunnested.1, hunnested.2.1, hsame.2.2⟩
    · split at h
      · rename_i c' hc
        cases h
        refine ⟨fun hparagraph d hd => ?_, ihc ht.2.1 hmarked.2.1 hc, hsame.2.2⟩
        have hcontent : c'.content = c.content := by
          rw [← content_stripped, stripped_wrapArticle hc, content_stripped]
        have hmark := hmarked.1 (isParagraph_congr (holdsBlock_wrapArticle hc) hcontent ▸ hparagraph)
        rw [Element.keepsText, hmark, Bool.or_true, Bool.or_true] at hc
        cases wrapArticle_kept hc
        rw [Element.queried, not_inSelector_of_paragraph hparagraph hd, ht.2.1 d hd]
        rfl
      · obtain ⟨r', hr, rfl⟩ := Option.map_eq_some_iff.1 h
        exact ⟨hsame.1, hsame.2.1, ihr ht.2.2 hmarked.2.2 hr⟩

end

/-! ## The leaves of a paragraph -/

theorem slice_append_drop (s : JsString) {start stop : Nat} (h : start ≤ stop) :
    slice s start stop ++ s.drop stop = s.drop start := by
  conv_rhs => rw [← List.take_append_drop stop s, List.drop_append]
  rcases Nat.le_total stop s.length with hstop | hstop
  · rw [List.length_take, Nat.min_eq_left hstop, Nat.sub_eq_zero_of_le h, List.drop_zero, slice]
  · rw [List.drop_of_length_le hstop, List.drop_nil, slice]

/-- A range that meets the leaf begins behind the cursor. -/
theorem cursor_le {base cursor low length : Nat} {r : Range} {rs : List Range} (hrs : Ascending low (r :: rs))
    (hcursor : cursor = 0 ∨ base + cursor ≤ low) (hmeets : ¬ max base r.start ≥ min (base + length) r.stop) :
    cursor ≤ max base r.start - base ∧ max base r.start - base ≤ min (base + length) r.stop - base ∧
      base + (min (base + length) r.stop - base) ≤ r.stop := by
  obtain ⟨hlow, -, -⟩ := hrs
  omega

theorem stripped_cutLeaf {base low cursor : Nat} {d : JsString} {rs : List Range} {r : Nodes} (hrs : Ascending low rs)
    (hcursor : cursor = 0 ∨ base + cursor ≤ low) :
    stripped (cutLeaf glossary base d cursor rs r) = letters (d.drop cursor) (stripped r) := by
  induction rs generalizing low cursor with
  | nil => rfl
  | cons range rs ih =>
    unfold cutLeaf
    dsimp only
    split
    · refine ih hrs.2.2 ?_
      obtain ⟨hlow, hnonempty, -⟩ := hrs
      omega
    · rename_i hmeets
      obtain ⟨hstart, hstop, hend⟩ := cursor_le hrs hcursor hmeets
      rw [stripped_text, stripped_span rfl, ih hrs.2.2 (.inr hend), ← letters_append, ← letters_append,
        List.append_assoc, slice_append_drop d hstop, slice_append_drop d hstart]

theorem stripped_cutLeaves {rs : List Range} (hrs : Ascending 0 rs) (base : Nat) (t : Nodes) :
    stripped (cutLeaves glossary rs base t) = stripped t := by
  induction t generalizing base with
  | nil => rfl
  | text d r ih => rw [cutLeaves, stripped_cutLeaf hrs (.inl rfl), ih, List.drop_zero, stripped_text]
  | element e c r ihc ihr => exact stripped_congr rfl rfl (ihc _) (ihr _)

theorem segmentRanges_ascending {offset ordinal : Nat} {segments : List TranslationSegment} {rs : List Range}
    (h : segmentRanges offset ordinal segments = .ok rs) : ∀ low ≤ offset, Ascending low rs := by
  induction segments generalizing offset ordinal rs with
  | nil =>
    cases h
    exact fun _ _ => trivial
  | cons segment segments ih =>
    intro low hlow
    unfold segmentRanges at h
    split at h
    · cases h
    · rename_i hnonempty
      cases segment with
      | word w =>
        obtain ⟨rs', hrs', rfl⟩ := except_map_ok.1 h
        have hlength : 0 < w.source.length := by
          rw [List.length_pos_iff]
          simpa [TranslationSegment.source] using hnonempty
        exact ⟨hlow, by simpa using hlength, ih hrs' _ (Nat.le_refl _)⟩
      | literal source => exact ih h _ (Nat.le_trans hlow (Nat.le_add_right _ _))

theorem translationRanges_ok {result : ParagraphTranslation} {source : JsString} {ordinal : Nat} {rs : List Range}
    (h : translationRanges result source ordinal = .ok rs) :
    result.source = source ∧ result.segments.flatMap (·.source) = source ∧
      segmentRanges 0 ordinal result.segments = .ok rs := by
  unfold translationRanges at h
  split at h
  · cases h
  · rename_i hmatches
    rw [not_or, not_not, not_not] at hmatches
    exact ⟨hmatches.1, hmatches.2, h⟩

theorem stripped_annotateParagraph (t : Nodes) : stripped (annotateParagraph results glossary t).1 = stripped t := by
  unfold annotateParagraph
  split
  · rfl
  · split
    · rfl
    · rename_i rs hrs
      exact stripped_cutLeaves (segmentRanges_ascending (translationRanges_ok hrs).2.2 0 (Nat.le_refl 0)) 0 t

theorem stripped_annotateParagraphs (state : State) (t : Nodes) :
    stripped (annotateParagraphs results state t).1 = stripped t := by
  induction t generalizing state with
  | nil => cases state <;> rfl
  | text d r ih =>
    cases state with
    | error message => rfl
    | ok glossary => exact congrArg (letters d) (ih _)
  | element e c r ihc ihr =>
    cases state with
    | error message => rfl
    | ok glossary =>
      unfold annotateParagraphs
      split
      · exact stripped_congr rfl rfl (stripped_annotateParagraph c) (ihr _)
      · exact stripped_congr rfl rfl (ihc _) (ihr _)

/-! ## Documents without annotations -/

/-- An element of the article. -/
structure Element.Original (e : Element) : Prop where
  unmarked : e.translatable = false
  unselected : "paragraph-selected" ∉ e.classes
  unwrapped : e.wrapper = false

variable {outside : Bool}

theorem clearAnnotations_eq (t : Nodes) :
    clearAnnotations t = ((t.unwrap Element.wrapper).relabel Element.unmark).normalize := by
  have hfragment : ∀ e : Element, e.unmark.fragment = e.fragment := fun e => by
    unfold Element.unmark
    split <;> rfl
  rw [clearAnnotations, unwrap_relabel_unwrap hfragment]
  rfl

/-- Without the class of the selected paragraph the elements lose their mark only. -/
theorem unmark_eq_bare {e : Element} (h : "paragraph-selected" ∉ e.classes) : e.unmark = e.bare := by
  have hclasses : e.classes.filter (· ≠ "paragraph-selected") = e.classes :=
    List.filter_eq_self.2 fun c hc => decide_eq_true fun hsame => h (hsame ▸ hc)
  unfold Element.unmark
  split
  · rw [hclasses]
    rfl
  · rename_i hmark
    rw [Bool.not_eq_true] at hmark
    rw [Element.bare, ← hmark]

theorem clearAnnotations_original (h : ∀ e ∈ t.elements, e.Original) : clearAnnotations t = t.normalize := by
  have hlabels : t.relabel Element.unmark = t.relabel fun e => e := relabel_congr fun e he => by
    rw [unmark_eq_bare (h e he).unselected, Element.bare, ← (h e he).unmarked]
  rw [clearAnnotations_eq, unwrap_of_forall fun e he => (h e he).unwrapped, hlabels, relabel_id]

theorem elements_stripped (t : Nodes) :
    (stripped t).elements = (t.elements.filter fun e => !e.wrapper).map Element.bare := elements_spread t

theorem elements_stripped_original (h : ∀ e ∈ t.elements, e.Original) : (stripped t).elements = t.elements := by
  have hbare : ∀ e ∈ t.elements, e.bare = e := fun e he => by
    rw [Element.bare, ← (h e he).unmarked]
  rw [elements_stripped, List.filter_eq_self.2 fun e he => by rw [(h e he).unwrapped]; rfl, List.map_congr_left hbare,
    List.map_id']

theorem mem_markParagraphs {e : Element} (he : e ∈ (markParagraphs t).elements) : ∃ e' ∈ t.elements,
    e.fragment = e'.fragment ∧ e.word = e'.word := by
  induction t with
  | nil => cases he
  | text d r ih => exact ih he
  | element e' c r ihc ihr =>
    rw [markParagraphs, elements, List.mem_cons, List.mem_append] at he
    rcases he with rfl | hc | hr
    · exact ⟨e', List.mem_cons_self, rfl, rfl⟩
    · obtain ⟨d, hd, hsame⟩ := ihc hc
      exact ⟨d, List.mem_cons_of_mem _ (List.mem_append_left _ hd), hsame⟩
    · obtain ⟨d, hd, hsame⟩ := ihr hr
      exact ⟨d, List.mem_cons_of_mem _ (List.mem_append_right _ hd), hsame⟩

/-- The loop over the paragraphs of the prepared document visits all of them. -/
theorem unnested_prepared (h : ∀ e ∈ t.elements, e.Original) : Unnested (prepared outside t) := by
  have hfragments : ∀ e ∈ (markParagraphs (clearAnnotations t)).elements, e.fragment = false := by
    intro e he
    obtain ⟨e', he', hsame, -⟩ := mem_markParagraphs he
    rw [clearAnnotations_original h, elements_normalize] at he'
    exact hsame.trans (Bool.or_eq_false_iff.1 (h e' he').unwrapped).2
  unfold prepared wrapScope
  cases hscope : wrapArticle outside (markParagraphs (clearAnnotations t)) with
  | none => exact unnested_wrapOrphans outside hfragments (paragraphsMarked _)
  | some t' => exact unnested_wrapArticle hfragments (paragraphsMarked _) hscope

theorem stripped_annotate (h : ∀ e ∈ t.elements, e.Original) :
    stripped (annotate outside results t).1 = stripped t := by
  calc
    stripped (annotate outside results t).1 = stripped (prepared outside t) := stripped_annotateParagraphs _ _
    _ = stripped (clearAnnotations t) := (stripped_wrapScope _ _).trans (stripped_markParagraphs _)
    _ = stripped t.normalize := by rw [clearAnnotations_original h]
    _ = stripped t := spread_normalize t

theorem content_annotate (h : ∀ e ∈ t.elements, e.Original) : (annotate outside results t).1.content = t.content := by
  rw [← content_spread (annotate outside results t).1, ← content_spread t]
  exact congrArg content (stripped_annotate h)

theorem elements_annotate (outside : Bool) (results : JsString → Option ParagraphTranslation)
    (h : ∀ e ∈ t.elements, e.Original) :
    ((annotate outside results t).1.elements.filter fun e => !e.wrapper).map Element.bare = t.elements := by
  rw [← elements_stripped, stripped_annotate h, elements_stripped_original h]

theorem clearAnnotations_annotate (h : ∀ e ∈ t.elements, e.Original) :
    clearAnnotations (annotate outside results t).1 = t.normalize := by
  have hlabels : ((annotate outside results t).1.unwrap Element.wrapper).relabel Element.unmark =
      ((annotate outside results t).1.unwrap Element.wrapper).relabel Element.bare := relabel_congr fun e he => by
    rw [elements_unwrap] at he
    have hbare : e.bare ∈ t.elements :=
      elements_annotate outside results h ▸ List.mem_map_of_mem he
    exact unmark_eq_bare (h _ hbare).unselected
  calc
    clearAnnotations (annotate outside results t).1 = (stripped (annotate outside results t).1).normalize := by
      rw [clearAnnotations_eq, hlabels, stripped, normalize_spread]
    _ = (stripped t).normalize := by rw [stripped_annotate h]
    _ = clearAnnotations t := by
      rw [stripped, normalize_spread, clearAnnotations_eq, unwrap_of_forall fun e he => (h e he).unwrapped,
        relabel_congr fun e he => unmark_eq_bare (h e he).unselected]
    _ = t.normalize := clearAnnotations_original h

/-- A second annotation finds the document that the first one found. -/
theorem annotate_annotate (h : ∀ e ∈ t.elements, e.Original) :
    annotate outside results (annotate outside results t).1 = annotate outside results t := by
  have hclear : clearAnnotations (annotate outside results t).1 = clearAnnotations t :=
    (clearAnnotations_annotate h).trans (clearAnnotations_original h).symm
  rw [annotate, prepared, hclear]
  rfl

end
end Annotations
end Inoreader
