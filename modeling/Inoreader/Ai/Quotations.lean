import Inoreader.Ai.Review
import Inoreader.Ai.SegmentGrammar
import Inoreader.Client.ChatMarkdown

/-!
# Quotations, from the response to the client

What `CompletedGeneration` publishes is the rendered segments with blank lines between them. The client splits it
into lines again: a text segment has no quoted line, a quotation is one run of them, and the blank lines keep the
runs apart.
-/

namespace Inoreader
open Lib Lib.JsonText

/-! ## RendersTo contents -/

/-- The segments of an envelope and what they are rendered to. -/
structure RendersTo (article : List Char) (segments : List Segment) (content : List Char) : Prop where
  rendered : ∃ rendered, (segments.mapM fun s => renderSegment s article) = .ok rendered ∧
    content = ['\n', '\n'].intercalate rendered

open VerifiedSegments in
theorem CompletedGeneration.new_ok {envelope article : List Char} {limit : Nat} {g : CompletedGeneration}
    (h : CompletedGeneration.new envelope article limit = .ok g) :
    g.envelope = envelope ∧ ∃ segments, EnvelopeText envelope segments ∧ RendersTo article segments g.content := by
  obtain ⟨⟨parser, returned⟩, hpush, h⟩ := except_bind_ok.1 h
  obtain ⟨content, hfinish, h⟩ := except_bind_ok.1 h
  cases h
  have hsynced : Synced (VerifiedSegments.new article limit) := rfl
  obtain ⟨hsteps, -⟩ := push_ok hsynced hpush
  have hok : scannedOutcome envelope article limit = .ok content := except_bind_ok.2 ⟨parser, hsteps, hfinish⟩
  obtain ⟨segments, rendered, htext, hne, hrender⟩ := envelope_of_outcome hok
  rw [outcome_of_envelope htext hne hrender] at hok
  exact ⟨rfl, segments, htext, ⟨rendered, hrender, (Except.ok.inj hok).symm⟩⟩

/-! ## Rendered lines -/

/-- A line of a text is a line of `str::lines` up to a carriage return at its end. -/
theorem quoted_line {cs acc l : List Char} (hl : l ∈ (cs.splitOn '\n').modifyHead (acc.reverse ++ ·))
    (hquote : l.head? = some '>') : ∃ l' ∈ textLines acc cs, l'.head? = some '>' := by
  induction cs generalizing acc with
  | nil =>
    rw [List.splitOn_nil] at hl
    cases List.mem_singleton.1 (by simpa using hl : l ∈ [acc.reverse])
    have hne : acc ≠ [] := by
      rintro rfl
      cases hquote
    exact ⟨acc.reverse, by simp [textLines, hne], hquote⟩
  | cons c cs ih =>
    rw [List.splitOn_cons_eq_if_modifyHead] at hl
    by_cases hc : c = '\n'
    · subst hc
      simp only [beq_self_eq_true, if_true, List.modifyHead_cons, List.append_nil, List.mem_cons] at hl
      simp only [textLines, if_true]
      rcases hl with rfl | hl
      · refine ⟨_, List.mem_cons_self, ?_⟩
        split
        · rename_i hcr
          cases acc with
          | nil => cases hcr
          | cons d acc =>
            cases acc with
            | nil =>
              cases hcr
              cases hquote
            | cons e acc => simpa [List.head?_append] using hquote
        · exact hquote
      · have hl' : l ∈ (cs.splitOn '\n').modifyHead (([] : List Char).reverse ++ ·) := by
          cases hcs : cs.splitOn '\n' with
          | nil => exact absurd hcs (List.splitOn_ne_nil _ _)
          | cons x xs => simpa [hcs] using hl
        obtain ⟨l', hl', hq⟩ := ih hl'
        exact ⟨l', List.mem_cons_of_mem _ hl', hq⟩
    · have hbeq : (c == '\n') = false := by simpa using hc
      rw [hbeq] at hl
      simp only [textLines, hc, if_false]
      have hl' : l ∈ (cs.splitOn '\n').modifyHead ((c :: acc).reverse ++ ·) := by
        cases hcs : cs.splitOn '\n' with
        | nil => exact absurd hcs (List.splitOn_ne_nil _ _)
        | cons x xs => simpa [hcs] using hl
      exact ih hl'

/-- A text segment has no quoted line. -/
theorem text_lines {content : List Char} (h : (textLines [] content).any quotesLine = false) :
    ∀ l ∈ content.splitOn '\n', isQuoteLine l = false := by
  intro l hl
  by_contra hquote
  have hhead : l.head? = some '>' := by simpa [isQuoteLine] using hquote
  have hl' : l ∈ (content.splitOn '\n').modifyHead (([] : List Char).reverse ++ ·) := by
    cases hcs : content.splitOn '\n' with
    | nil => exact absurd hcs (List.splitOn_ne_nil _ _)
    | cons x xs => simpa [hcs] using hl
  obtain ⟨line, hline, hq⟩ := quoted_line hl' hhead
  have hnot := List.any_eq_false.1 h line hline
  cases line with
  | nil => cases hq
  | cons c line =>
    cases hq
    exact hnot rfl

theorem not_mem_splitOn {cs l : List Char} (h : l ∈ cs.splitOn '\n') : '\n' ∉ l := by
  induction cs generalizing l with
  | nil =>
    cases List.mem_singleton.1 (by simpa using h : l ∈ [[]])
    exact List.not_mem_nil
  | cons c cs ih =>
    rw [List.splitOn_cons_eq_if_modifyHead] at h
    by_cases hc : c = '\n'
    · subst hc
      simp only [beq_self_eq_true, if_true, List.mem_cons] at h
      rcases h with rfl | h
      · exact List.not_mem_nil
      · exact ih h
    · have hbeq : (c == '\n') = false := by simpa using hc
      rw [hbeq] at h
      cases hcs : cs.splitOn '\n' with
      | nil => exact absurd hcs (List.splitOn_ne_nil _ _)
      | cons x xs =>
        rw [hcs] at h ih
        rcases List.mem_cons.1 h with rfl | h
        · have hx := ih List.mem_cons_self
          simp [hx, Ne.symm hc]
        · exact ih (List.mem_cons_of_mem _ h)

/-! ## What the client makes of them -/

def Segment.isQuote (s : Segment) : Bool := s.kind == "quote".toList

/-- The contents of the quote segments. -/
def quoteContents (segments : List Segment) : List (List Char) := (segments.filter Segment.isQuote).map Segment.content

theorem renderSegment_cases {segment : Segment} {article rendered : List Char}
    (h : renderSegment segment article = .ok rendered) :
    (segment.kind ≠ "quote".toList ∧ rendered = segment.content ∧ ∀ l ∈ rendered.splitOn '\n', isQuoteLine l = false) ∨
      (segment.kind = "quote".toList ∧ segment.content <:+: article ∧
        rendered.splitOn '\n' = (segment.content.splitOn '\n').map ('>' :: ' ' :: ·)) := by
  unfold renderSegment at h
  split at h
  · cases h
  · split at h
    · rename_i hkind
      split at h
      · cases h
      · rename_i hlines
        cases h
        refine .inl ⟨?_, rfl, text_lines (Bool.eq_false_iff.2 hlines)⟩
        rw [hkind]
        decide
    · split at h
      · rename_i hkind
        split at h
        · cases h
        · rename_i hinfix
          cases h
          refine .inr ⟨hkind, not_not.1 hinfix, List.splitOn_intercalate '\n' ?_ ?_⟩
          · intro l hl
            obtain ⟨line, hline, rfl⟩ := List.mem_map.1 hl
            have hnot := not_mem_splitOn hline
            simp [hnot]
          · simp [List.splitOn_ne_nil]
      · cases h

/-- Lines of a text may open or close fences. -/
theorem quoteRuns_text {lines : List (List Char)} (h : ∀ l ∈ lines, isQuoteLine l = false) (fence : Bool) :
    ∃ fence', ∀ rest, quoteRuns fence [] (lines ++ rest) = quoteRuns fence' [] rest := by
  induction lines generalizing fence with
  | nil => exact ⟨fence, fun _ => rfl⟩
  | cons line lines ih =>
    have hquote := h line List.mem_cons_self
    have hlines : ∀ l ∈ lines, isQuoteLine l = false := fun l hl => h l (List.mem_cons_of_mem _ hl)
    cases fence with
    | true =>
      by_cases hfence : isFence line = true
      · obtain ⟨fence', hrest⟩ := ih hlines false
        exact ⟨fence', fun rest => by simpa [quoteRuns, hfence] using hrest rest⟩
      · obtain ⟨fence', hrest⟩ := ih hlines true
        exact ⟨fence', fun rest => by simpa [quoteRuns, hfence] using hrest rest⟩
    | false =>
      by_cases hfence : isFence line = true
      · obtain ⟨fence', hrest⟩ := ih hlines true
        exact ⟨fence', fun rest => by simpa [quoteRuns, hfence, endRun] using hrest rest⟩
      · obtain ⟨fence', hrest⟩ := ih hlines false
        exact ⟨fence', fun rest => by simpa [quoteRuns, hfence, hquote, endRun] using hrest rest⟩

theorem unquote_mark (line : List Char) : unquote ('>' :: ' ' :: line) = line := rfl

/-- A quotation, up to a line that is not quoted. -/
theorem quoteRuns_segment {content : List Char} {rest : List (List Char)} (hrest : ∀ l ∈ rest.head?, isQuoteLine l = false)
    (fence : Bool) :
    quoteRuns fence [] ((content.splitOn '\n').map ('>' :: ' ' :: ·) ++ rest) =
      if fence then quoteRuns true [] rest else content :: quoteRuns false [] rest := by
  have hquoted : ∀ l ∈ (content.splitOn '\n').map ('>' :: ' ' :: ·), isQuoteLine l = true := by
    intro l hl
    obtain ⟨line, -, rfl⟩ := List.mem_map.1 hl
    rfl
  cases fence with
  | true => exact quoteRuns_append_code (fun l hl => not_fence_of_quote (hquoted l hl)) rest
  | false =>
    have hmap : ((content.splitOn '\n').map ('>' :: ' ' :: ·)).map unquote = content.splitOn '\n' := by
      rw [List.map_map]
      exact List.map_id _
    rw [quoteRuns_append_quote hquoted, List.nil_append, hmap, quoteRuns_end_run hrest, endRun,
      if_neg (List.splitOn_ne_nil _ _), List.intercalate_splitOn]
    rfl

theorem splitOn_blank (x rest : List Char) :
    (x ++ '\n' :: '\n' :: rest).splitOn '\n' = x.splitOn '\n' ++ [] :: rest.splitOn '\n' := by
  rw [List.splitOn_append_cons_self, ← List.nil_append ('\n' :: rest), List.splitOn_append_cons_self, List.splitOn_nil]
  rfl

theorem quoteRuns_blank (fence : Bool) (rest : List (List Char)) :
    quoteRuns fence [] ([] :: rest) = quoteRuns fence [] rest := by
  cases fence <;> rfl

/-- The runs of quoted lines are quote segments, each of them once and in their order. -/
theorem quoteRuns_rendered {article : List Char} {segments : List Segment} {rendered : List (List Char)}
    (h : (segments.mapM fun s => renderSegment s article) = .ok rendered) (fence : Bool) :
    (quoteRuns fence [] ((['\n', '\n'].intercalate rendered).splitOn '\n')).Sublist (quoteContents segments) := by
  replace h := mapM_ok.1 h
  induction h generalizing fence with
  | nil =>
    cases fence with
    | true => exact List.nil_sublist _
    | false => exact List.nil_sublist _
  | @cons segment x segments rendered hx hrest ih =>
    -- what follows the segment: nothing, or a blank line and the other segments
    have htail : ∃ tail : List (List Char), (['\n', '\n'].intercalate (x :: rendered)).splitOn '\n' = x.splitOn '\n' ++ tail ∧
        (∀ l ∈ tail.head?, isQuoteLine l = false) ∧ ∀ fence, (quoteRuns fence [] tail).Sublist (quoteContents segments) := by
      cases rendered with
      | nil =>
        refine ⟨[], by simp, (fun l hl => by cases hl), fun fence => ?_⟩
        cases fence with
        | true => exact List.nil_sublist _
        | false => exact List.nil_sublist _
      | cons y ys =>
        refine ⟨[] :: (['\n', '\n'].intercalate (y :: ys)).splitOn '\n', ?_, ?_, ?_⟩
        · rw [List.intercalate_cons_cons, List.append_assoc]
          exact splitOn_blank x _
        · intro l hl
          cases hl
          rfl
        · intro fence
          rw [quoteRuns_blank]
          exact ih fence
    obtain ⟨tail, hlines, hhead, htail⟩ := htail
    rw [hlines]
    rcases renderSegment_cases hx with ⟨hkind, -, htext⟩ | ⟨hkind, -, hquote⟩
    · obtain ⟨fence', hruns⟩ := quoteRuns_text htext fence
      have hcontents : quoteContents (segment :: segments) = quoteContents segments := by
        have hnot : ¬ segment.isQuote = true := fun h => hkind (eq_of_beq h)
        unfold quoteContents
        rw [List.filter_cons_of_neg hnot]
      rw [hruns, hcontents]
      exact htail fence'
    · have hcontents : quoteContents (segment :: segments) = segment.content :: quoteContents segments := by
        have his : segment.isQuote = true := beq_iff_eq.2 hkind
        unfold quoteContents
        rw [List.filter_cons_of_pos his, List.map_cons]
      rw [hquote, quoteRuns_segment hhead, hcontents]
      cases fence with
      | true => exact (htail true).trans (List.sublist_cons_self _ _)
      | false => exact (htail false).cons_cons _

theorem RendersTo.quotes {article content : List Char} {segments : List Segment} (h : RendersTo article segments content)
    (fuel : Nat) :
    (quotations (ChatMarkdown fuel content)).Sublist (quoteContents segments) ∧
      ∀ q ∈ quoteContents segments, q <:+: article := by
  obtain ⟨rendered, hrender, rfl⟩ := h.rendered
  refine ⟨(quotations_runs fuel _).sublist.trans (quoteRuns_rendered hrender false), ?_⟩
  intro q hq
  obtain ⟨segment, hsegment, rfl⟩ := List.mem_map.1 hq
  obtain ⟨hmem, hkind⟩ := List.mem_filter.1 hsegment
  obtain ⟨x, -, hx⟩ := (forall₂_mem (mapM_ok.1 hrender)).1 segment hmem
  rcases renderSegment_cases hx with ⟨hother, -⟩ | ⟨-, hinfix, -⟩
  · exact absurd (eq_of_beq hkind) hother
  · exact hinfix

/-! ## Serialised segments -/

theorem hex4_control {n : Nat} (h : n < 32) :
    hex4 '0' '0' (hexChar (n / 16)) (hexChar (n % 16)) = some n ∧ isHigh n = false ∧ isLow n = false := by
  have hall : ∀ n < 32, hex4 '0' '0' (hexChar (n / 16)) (hexChar (n % 16)) = some n ∧ isHigh n = false ∧ isLow n = false := by
    decide
  exact hall n h

theorem charText_escape (c : Char) : CharText (escapeChar c) c := by
  unfold escapeChar
  split
  · rename_i h
    rw [h]
    exact .escape rfl
  · rename_i hquote
    split
    · rename_i h
      rw [h]
      exact .escape rfl
    · rename_i hslash
      split
      · rename_i h
        rw [h]
        exact .escape rfl
      · split
        · rename_i h
          rw [h]
          exact .escape rfl
        · split
          · rename_i h
            rw [h]
            exact .escape rfl
          · split
            · rename_i h
              rw [h]
              exact .escape rfl
            · split
              · rename_i h
                rw [h]
                exact .escape rfl
              · split
                · rename_i h
                  obtain ⟨hhex, hhigh, hlow⟩ := hex4_control h
                  have htext := CharText.unicode hhex hhigh hlow
                  rwa [Char.ofNat_toNat] at htext
                · rename_i h
                  refine .plain ?_
                  simp [isPlain, hquote, hslash, not_lt.1 h]

theorem stringText_json (value : List Char) : StringText (stringJson value) value := by
  refine ⟨value.flatMap escapeChar, rfl, ?_⟩
  induction value with
  | nil => exact .nil
  | cons c value ih => exact .cons (charText_escape c) ih

theorem segmentText_json (s : Segment) : SegmentText (segmentJson s) s := by
  have hmember : ∀ key value, MemberText StringText (stringJson key ++ ':' :: stringJson value) (key, value) :=
    fun key value => ⟨_, [], [], _, rfl, stringText_json key, space_nil, space_nil, stringText_json value⟩
  refine .inr ⟨stringJson "content".toList ++ ':' :: (stringJson s.content ++ ',' ::
    (stringJson "kind".toList ++ ':' :: stringJson s.kind)), ?_, .inr ?_⟩
  · simp [segmentJson]
  · have hlast := ItemsText.one space_nil (hmember "kind".toList s.kind) space_nil
    have hboth := ItemsText.cons space_nil (hmember "content".toList s.content) space_nil hlast
    simpa using hboth

theorem itemsText_json {segments : List Segment} (hne : segments ≠ []) :
    ItemsText SegmentText ([','].intercalate (segments.map segmentJson)) segments := by
  induction segments with
  | nil => exact absurd rfl hne
  | cons s segments ih =>
    cases segments with
    | nil =>
      have hone := ItemsText.one space_nil (segmentText_json s) space_nil
      simpa using hone
    | cons s' segments =>
      have hcons := ItemsText.cons space_nil (segmentText_json s) space_nil (ih (List.cons_ne_nil _ _))
      simpa [List.intercalate_cons_cons] using hcons

/-- What is serialised is read back. -/
theorem envelopeText_json (segments : List Segment) : EnvelopeText (envelopeJson segments) segments := by
  have harray : ArrayText SegmentText ('[' :: ([','].intercalate (segments.map segmentJson) ++ [']'])) segments := by
    refine ⟨_, rfl, ?_⟩
    by_cases hne : segments = []
    · rw [hne]
      exact .inl ⟨rfl, space_nil⟩
    · exact .inr (itemsText_json hne)
  have hmember : MemberText (ArrayText SegmentText) (stringJson "segments".toList ++ ':' :: '[' ::
      ([','].intercalate (segments.map segmentJson) ++ [']'])) ("segments".toList, segments) :=
    ⟨_, [], [], _, rfl, stringText_json "segments".toList, space_nil, space_nil, harray⟩
  have hitems := ItemsText.one space_nil hmember space_nil
  refine ⟨[], envelopeJson segments, [], by simp, space_nil, space_nil, _, ?_, .inr hitems⟩
  simp [envelopeJson]

/-! ## The generations -/

/-- The segments of an envelope. -/
def segmentsOf (envelope : List Char) : List Segment := (readDocument readEnvelope envelope).getD []

/-- The segments of a draft after a review. -/
def reviewedSegments (parseReview : List Char → Option Review) (response draft title : List Char) : List Segment :=
  ((CompletedGeneration.reviewChanges parseReview response >>= correctedSegments (segmentsOf draft) title).toOption).getD []

/-- A generation of the article and the segments it is made of. -/
inductive CompletedGeneration.Made (parseReview : List Char → Option Review) (article : List Char) :
    CompletedGeneration → List Segment → Prop
  | generated {envelope : List Char} {limit : Nat} {g : CompletedGeneration}
    (h : CompletedGeneration.new envelope article limit = .ok g) : Made parseReview article g (segmentsOf envelope)
  | reviewed {response draft title : List Char} {limit : Nat} {g : CompletedGeneration}
    (h : CompletedGeneration.reviewed parseReview response draft title article limit = .ok g) :
    Made parseReview article g (reviewedSegments parseReview response draft title)
  | titled {title : List Char} {limit : Nat} {g g' : CompletedGeneration} {segments : List Segment}
    (hg : Made parseReview article g segments) (h : g.withSourceTitle title article limit = .ok g') :
    Made parseReview article g'
      (if title = [] then segments else { kind := "text".toList, content := titleText title } :: segmentsOf g.envelope)

theorem segmentsOf_text {envelope : List Char} {segments : List Segment} (h : EnvelopeText envelope segments) :
    segmentsOf envelope = segments := by
  unfold segmentsOf
  rw [readEnvelope_complete h]
  rfl

theorem CompletedGeneration.new_renders {envelope article : List Char} {limit : Nat} {g : CompletedGeneration}
    (h : CompletedGeneration.new envelope article limit = .ok g) : RendersTo article (segmentsOf envelope) g.content := by
  obtain ⟨-, segments, htext, hrenders⟩ := CompletedGeneration.new_ok h
  rw [segmentsOf_text htext]
  exact hrenders

theorem CompletedGeneration.new_json {article : List Char} {limit : Nat} {g : CompletedGeneration} {segments : List Segment}
    (h : CompletedGeneration.new (envelopeJson segments) article limit = .ok g) : RendersTo article segments g.content := by
  have hrenders := CompletedGeneration.new_renders h
  rwa [segmentsOf_text (envelopeText_json segments)] at hrenders

theorem CompletedGeneration.reviewed_renders {parseReview : List Char → Option Review}
    {response draft title article : List Char} {limit : Nat} {g : CompletedGeneration}
    (h : CompletedGeneration.reviewed parseReview response draft title article limit = .ok g) :
    RendersTo article (reviewedSegments parseReview response draft title) g.content := by
  unfold CompletedGeneration.reviewed at h
  split at h
  · cases h
  · obtain ⟨_, -, h⟩ := except_bind_ok.1 h
    split at h
    · cases h
    · rename_i drafted hdraft
      obtain ⟨changes, hchanges, h⟩ := except_bind_ok.1 h
      obtain ⟨segments, hsegments, h⟩ := except_bind_ok.1 h
      obtain ⟨result, hresult, h⟩ := except_bind_ok.1 h
      cases h
      have hof : segmentsOf draft = drafted := by
        unfold segmentsOf
        rw [hdraft]
        rfl
      have heq : reviewedSegments parseReview response draft title = segments := by
        unfold reviewedSegments
        rw [hof, hchanges]
        show ((correctedSegments drafted title changes).toOption).getD [] = segments
        rw [hsegments]
        rfl
      have hrenders := CompletedGeneration.new_json hresult
      rw [heq]
      exact ⟨hrenders.rendered⟩

theorem CompletedGeneration.Made.renders {parseReview : List Char → Option Review} {article : List Char}
    {g : CompletedGeneration} {segments : List Segment} (h : CompletedGeneration.Made parseReview article g segments) :
    RendersTo article segments g.content := by
  induction h with
  | generated h => exact CompletedGeneration.new_renders h
  | reviewed h => exact CompletedGeneration.reviewed_renders h
  | @titled title limit g g' segments _ h ih =>
    unfold CompletedGeneration.withSourceTitle at h
    split at h
    · rename_i htitle
      cases h
      rw [if_pos htitle]
      exact ih
    · rename_i htitle
      rw [if_neg htitle]
      split at h
      · cases h
      · rename_i segments' hread
        have hof : segmentsOf g.envelope = segments' := by
          unfold segmentsOf
          rw [hread]
          rfl
        rw [hof]
        exact CompletedGeneration.new_json h

/-- Whatever the draft, the review and the title: the quotations that the client forms are quote segments of what was
published, each once and in their order, and they occur in the article. -/
theorem quotations_genuine (parseReview : List Char → Option Review) {article : List Char} {g : CompletedGeneration}
    {segments : List Segment} (h : CompletedGeneration.Made parseReview article g segments) (fuel : Nat) :
    (quotations (ChatMarkdown fuel g.content)).Sublist (quoteContents segments) ∧
      ∀ q ∈ quotations (ChatMarkdown fuel g.content), q <:+: article := by
  obtain ⟨hsublist, hgenuine⟩ := h.renders.quotes fuel
  exact ⟨hsublist, fun q hq => hgenuine q (hsublist.subset hq)⟩

/-- A quotation of two lines, published under the title. -/
theorem quotations_genuine_titled :
    quotations (ChatMarkdown 10 "**T**\n\n> a\n> b\n\nc".toList) = ["a\nb".toList] ∧
    ∀ q ∈ quotations (ChatMarkdown 10 "**T**\n\n> a\n> b\n\nc".toList), q <:+: "xa\nb".toList := by
  have hnew : CompletedGeneration.new sampleResponse.flatten "xa\nb".toList 100 =
      .ok { envelope := sampleResponse.flatten, content := "> a\n> b\n\nc".toList } := by decide +kernel
  have htitled : ∃ g', CompletedGeneration.withSourceTitle
      { envelope := sampleResponse.flatten, content := "> a\n> b\n\nc".toList } "T".toList "xa\nb".toList 200 = .ok g' ∧
      g'.content = "**T**\n\n> a\n> b\n\nc".toList := by
    refine ⟨{ envelope := envelopeJson ({ kind := "text".toList, content := titleText "T".toList } ::
      segmentsOf sampleResponse.flatten), content := "**T**\n\n> a\n> b\n\nc".toList }, ?_, rfl⟩
    decide +kernel
  obtain ⟨g', hg', hcontent⟩ := htitled
  have hgenuine := (quotations_genuine (fun _ => none) (.titled (.generated hnew) hg') 10).2
  rw [hcontent] at hgenuine
  exact ⟨by decide +kernel, hgenuine⟩

end Inoreader
