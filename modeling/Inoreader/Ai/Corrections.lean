import Inoreader.Ai.Quotations
import Inoreader.Lib.Splice

/-!
# Corrections

What a review does to a draft, stated without its loops: every change is anchored at the one place where its text
occurs, the places are apart, and all of them are replaced at once.
-/

namespace Inoreader
open Lib Lib.JsonText

/-! ## The anchor of a change -/

theorem infix_iff_drop {α : Type} {l l' : List α} : l <:+: l' ↔ ∃ j, l <+: l'.drop j := by
  constructor
  · rintro ⟨s, t, rfl⟩
    exact ⟨s.length, t, by simp⟩
  · rintro ⟨j, hj⟩
    exact hj.isInfix.trans (List.drop_suffix j l').isInfix

/-- The change applies at one place: its text occurs there and nowhere else in the segment, which is not the title. -/
def Change.Anchors (segments : List Segment) (title : List Char) (change : Change) (e : Edit) : Prop :=
  ∃ segment, segments[change.segment]? = some segment ∧ segment.content ≠ titleText title ∧ change.before ≠ [] ∧
    change.reason.all isWhiteSpace = false ∧ change.before ≠ change.after ∧
    (∀ i, change.before <+: segment.content.drop i ↔ i = e.start) ∧
    e.segment = change.segment ∧ e.stop = e.start + change.before.length ∧ e.after = change.after

theorem editOf_ok {segments : List Segment} {title : List Char} {change : Change} {e : Edit} :
    editOf segments title change = .ok e ↔ change.Anchors segments title e := by
  unfold editOf Change.Anchors
  cases hsegment : segments[change.segment]? with
  | none =>
    constructor
    · intro h
      cases h
    · rintro ⟨segment, h, -⟩
      cases h
  | some segment =>
    dsimp only
    by_cases hbad : segment.content = titleText title ∨ change.before = [] ∨ change.reason.all isWhiteSpace = true ∨
        change.before = change.after
    · rw [if_pos hbad]
      constructor
      · intro h
        cases h
      · rintro ⟨_, hs, htitle, hbefore, hreason, hchange, -⟩
        cases hs
        rcases hbad with h | h | h | h
        · exact absurd h htitle
        · exact absurd h hbefore
        · rw [h] at hreason
          cases hreason
        · exact absurd h hchange
    · rw [if_neg hbad]
      simp only [not_or, Bool.not_eq_true] at hbad
      obtain ⟨htitle, hbefore, hreason, hchange⟩ := hbad
      cases hfind : findText change.before segment.content with
      | none =>
        constructor
        · intro h
          cases h
        · rintro ⟨_, hs, -, -, -, -, hoccurs, -⟩
          cases hs
          exact absurd ((hoccurs e.start).2 rfl) (findText_none hbefore hfind e.start)
      | some start =>
        obtain ⟨hat, hfirst⟩ := findText_some hfind
        dsimp only
        by_cases hagain : change.before <:+: segment.content.drop (start + 1)
        · rw [if_pos hagain]
          constructor
          · intro h
            cases h
          · rintro ⟨_, hs, -, -, -, -, hoccurs, -⟩
            cases hs
            obtain ⟨j, hj⟩ := infix_iff_drop.1 hagain
            rw [List.drop_drop] at hj
            have h₁ := (hoccurs _).1 hj
            have h₂ := (hoccurs _).1 hat
            omega
        · rw [if_neg hagain]
          constructor
          · intro h
            cases h
            refine ⟨segment, rfl, htitle, hbefore, hreason, hchange, fun i => ⟨fun hi => ?_, ?_⟩, rfl, rfl, rfl⟩
            · rcases Nat.lt_trichotomy i start with hlt | heq | hgt
              · exact absurd hi (hfirst i hlt)
              · exact heq
              · refine absurd (infix_iff_drop.2 ⟨i - (start + 1), ?_⟩) hagain
                rw [List.drop_drop, show start + 1 + (i - (start + 1)) = i by omega]
                exact hi
            · rintro rfl
              exact hat
          · rintro ⟨_, hs, -, -, -, -, hoccurs, hseg, hstop, hafter⟩
            cases hs
            have hstart : start = e.start := (hoccurs start).1 hat
            rw [hstart, ← hseg, ← hafter, ← hstop]

/-- An anchored edit lies in its segment. -/
theorem Change.Anchors.inside {segments : List Segment} {title : List Char} {change : Change} {e : Edit}
    (h : change.Anchors segments title e) :
    ∃ segment, segments[e.segment]? = some segment ∧ e.start < e.stop ∧ e.stop ≤ segment.content.length := by
  obtain ⟨segment, hsegment, -, hbefore, -, -, hoccurs, hseg, hstop, -⟩ := h
  have hlen := ((hoccurs e.start).2 rfl).length_le
  have hpos := List.length_pos_iff.2 hbefore
  rw [List.length_drop] at hlen
  exact ⟨segment, by rw [hseg, hsegment], by omega, by omega⟩

/-! ## Sorted edits -/

def Edit.splice (e : Edit) : Splice Char := { start := e.start, stop := e.stop, after := e.after }

/-- Two edits of one segment do not overlap. -/
def Edit.Apart (e e' : Edit) : Prop := e.segment = e'.segment → e.splice.Apart e'.splice

theorem Edit.Apart.symm {e e' : Edit} (h : e.Apart e') : e'.Apart e := fun heq => (h heq.symm).symm

theorem Edit.le_iff {e e' : Edit} :
    e.le e' = true ↔ e.segment < e'.segment ∨ (e.segment = e'.segment ∧ e.start ≤ e'.start) := by
  simp [Edit.le]

/-- In the order of the sort, neighbours that do not overlap are all there is to check. -/
theorem anyOverlap_false {edits : List Edit} (hsorted : edits.Pairwise fun e e' => e.le e' = true)
    (hin : ∀ e ∈ edits, e.start < e.stop) :
    anyOverlap edits = false ↔ edits.Pairwise fun e e' => e.segment = e'.segment → e.stop ≤ e'.start := by
  induction edits with
  | nil => exact ⟨fun _ => .nil, fun _ => rfl⟩
  | cons e edits ih =>
    cases edits with
    | nil => exact ⟨fun _ => List.pairwise_singleton _ _, fun _ => rfl⟩
    | cons e' rest =>
      obtain ⟨hfirst, hrest⟩ := List.pairwise_cons.1 hsorted
      have hlater := (List.pairwise_cons.1 hrest).1
      have hi := ih hrest fun e he => hin e (List.mem_cons_of_mem _ he)
      have hoverlap : e.overlaps e' = false ↔ (e.segment = e'.segment → e.stop ≤ e'.start) := by
        simp only [Edit.overlaps, Bool.and_eq_false_iff, beq_eq_false_iff_ne, decide_eq_false_iff_not, Nat.not_lt]
        by_cases hs : e.segment = e'.segment <;> simp [hs]
      rw [anyOverlap, Bool.or_eq_false_iff, hi, hoverlap, @List.pairwise_cons _ _ e (e' :: rest)]
      constructor
      · rintro ⟨hnext, hpair⟩
        refine ⟨fun f hf hseg => ?_, hpair⟩
        rcases List.mem_cons.1 hf with rfl | hf
        · exact hnext hseg
        · -- what follows the neighbour begins later still
          have h₁ := Edit.le_iff.1 (hfirst e' List.mem_cons_self)
          have h₂ := Edit.le_iff.1 (hlater f hf)
          have h₃ := hin e' (List.mem_cons_of_mem _ List.mem_cons_self)
          have hseg' : e.segment = e'.segment := by omega
          have := hnext hseg'
          omega
      · rintro ⟨hall, hpair⟩
        exact ⟨hall e' List.mem_cons_self, hpair⟩

theorem pairwise_sorted (edits : List Edit) : (edits.mergeSort Edit.le).Pairwise fun e e' => e.le e' = true := by
  refine List.pairwise_mergeSort (fun a b c hab hbc => ?_) (fun a b => ?_) edits
  · rw [Edit.le_iff] at hab hbc ⊢
    omega
  · rw [Bool.or_eq_true, Edit.le_iff, Edit.le_iff]
    omega

/-- The check on the sorted edits is the one on all pairs. -/
theorem overlap_iff {edits : List Edit} (hin : ∀ e ∈ edits, e.start < e.stop) :
    anyOverlap (edits.mergeSort Edit.le) = false ↔ edits.Pairwise Edit.Apart := by
  have hperm := List.mergeSort_perm edits Edit.le
  have hin' : ∀ e ∈ edits.mergeSort Edit.le, e.start < e.stop := fun e he => hin e (hperm.mem_iff.1 he)
  have hsorted := pairwise_sorted edits
  have hpair : (edits.mergeSort Edit.le).Pairwise Edit.Apart ↔ edits.Pairwise Edit.Apart :=
    hperm.pairwise_iff Edit.Apart.symm
  rw [anyOverlap_false hsorted hin', ← hpair]
  constructor
  · exact fun h => h.imp fun hle hseg => .inl (hle hseg)
  · intro h
    refine (hsorted.and h).imp_of_mem fun {e e'} he he' hboth hseg => ?_
    obtain ⟨hle, hapart⟩ := hboth
    have hle' := Edit.le_iff.1 hle
    have hlt := hin' e' he'
    have hap := hapart hseg
    unfold Splice.Apart Edit.splice at hap
    dsimp only at hap
    omega

/-! ## The corrected segments -/

/-- The segments with all edits made at once. -/
def substituted (segments : List Segment) (edits : List Edit) : List Segment :=
  segments.mapIdx fun k s =>
    { s with content := Splice.substitute ((edits.filter (·.segment = k)).map Edit.splice) 0 s.content }

theorem getElem?_applied (segments : List Segment) (edits : List Edit) (k : Nat) :
    (edits.reverse.foldl Edit.apply segments)[k]? = segments[k]?.map fun s =>
      { s with content := ((edits.filter (·.segment = k)).map Edit.splice).foldr Splice.apply s.content } := by
  rw [List.foldl_reverse]
  induction edits with
  | nil => simp
  | cons e edits ih =>
    rw [List.foldr_cons, Edit.apply, List.getElem?_modify, ih]
    by_cases hk : e.segment = k
    · simp [hk, Edit.splice, Splice.apply, Function.comp_def]
    · simp [hk]

/-- The loop over the sorted edits, from the back, makes the simultaneous substitution. -/
theorem applied_eq {segments : List Segment} {edits : List Edit}
    (hin : ∀ e ∈ edits, ∃ segment, segments[e.segment]? = some segment ∧ e.start < e.stop ∧
      e.stop ≤ segment.content.length)
    (hapart : edits.Pairwise Edit.Apart) :
    (edits.mergeSort Edit.le).reverse.foldl Edit.apply segments = substituted segments edits := by
  have hperm := List.mergeSort_perm edits Edit.le
  have hlt : ∀ e ∈ edits, e.start < e.stop := fun e he => (hin e he).elim fun _ h => h.2.1
  have hlt' : ∀ e ∈ edits.mergeSort Edit.le, e.start < e.stop := fun e he => hlt e (hperm.mem_iff.1 he)
  have hordered := (anyOverlap_false (pairwise_sorted edits) hlt').1 ((overlap_iff hlt).2 hapart)
  refine List.ext_getElem? fun k => ?_
  rw [getElem?_applied, substituted, List.getElem?_mapIdx]
  cases hsegment : segments[k]? with
  | none => rfl
  | some segment =>
    simp only [Option.map_some]
    -- the edits of this segment, in order and as they were listed
    have hmine : ∀ e ∈ (edits.mergeSort Edit.le).filter (·.segment = k),
        e.start < e.stop ∧ e.stop ≤ segment.content.length := by
      intro e he
      obtain ⟨hmem, hk⟩ := List.mem_filter.1 he
      obtain ⟨s, hs, hbounds⟩ := hin e (hperm.mem_iff.1 hmem)
      rw [of_decide_eq_true hk, hsegment] at hs
      cases hs
      exact hbounds
    have hsplices : ((edits.mergeSort Edit.le).filter (·.segment = k)).Pairwise fun e e' => e.stop ≤ e'.start := by
      refine (hordered.filter _).imp_of_mem fun {e e'} he he' h => h ?_
      rw [of_decide_eq_true (List.mem_filter.1 he).2, of_decide_eq_true (List.mem_filter.1 he').2]
    have hfold := Splice.foldr_apply (l := segment.content)
      (List.pairwise_map.2 (hsplices.imp fun h => h) :
        (((edits.mergeSort Edit.le).filter (·.segment = k)).map Edit.splice).Pairwise fun e e' => e.stop ≤ e'.start)
      (List.forall_mem_map.2 hmine)
    rw [hfold]
    congr 2
    refine Splice.substitute_perm ((hperm.filter _).map _) (List.pairwise_map.2 (hsplices.imp fun h => .inl h))
      (List.forall_mem_map.2 fun e he => (hmine e he).1)

/-- A segment in which nothing is edited stays as it is. -/
theorem getElem?_substituted {segments : List Segment} {edits : List Edit} {k : Nat}
    (h : ∀ e ∈ edits, e.segment ≠ k) : (substituted segments edits)[k]? = segments[k]? := by
  have hnone : edits.filter (fun e => decide (e.segment = k)) = [] :=
    List.filter_eq_nil_iff.2 fun e he => by simpa using h e he
  rw [substituted, List.getElem?_mapIdx, hnone, List.map_nil]
  cases segments[k]? with
  | none => rfl
  | some segment => simp [Splice.substitute_nil]

/-- The order of the edits does not matter. -/
theorem substituted_perm {segments : List Segment} {edits edits' : List Edit} (hperm : edits.Perm edits')
    (hlt : ∀ e ∈ edits, e.start < e.stop) (hapart : edits.Pairwise Edit.Apart) :
    substituted segments edits = substituted segments edits' := by
  refine List.ext_getElem? fun k => ?_
  rw [substituted, substituted, List.getElem?_mapIdx, List.getElem?_mapIdx]
  cases segments[k]? with
  | none => rfl
  | some segment =>
    have hmine : ((edits.filter (·.segment = k)).map Edit.splice).Pairwise Splice.Apart := by
      refine List.pairwise_map.2 ((hapart.filter _).imp_of_mem fun {e e'} he he' h => h ?_)
      rw [of_decide_eq_true (List.mem_filter.1 he).2, of_decide_eq_true (List.mem_filter.1 he').2]
    have heq : Splice.substitute ((edits.filter (·.segment = k)).map Edit.splice) 0 segment.content =
        Splice.substitute ((edits'.filter (·.segment = k)).map Edit.splice) 0 segment.content :=
      Splice.substitute_perm ((hperm.filter _).map _) hmine
        (List.forall_mem_map.2 fun e he => hlt e (List.mem_filter.1 he).1)
    simp only [Option.map_some, heq]

theorem anchored_inside {segments : List Segment} {title : List Char} {changes : List Change} {edits : List Edit}
    (h : List.Forall₂ (Change.Anchors segments title) changes edits) : ∀ e ∈ edits, ∃ segment,
      segments[e.segment]? = some segment ∧ e.start < e.stop ∧ e.stop ≤ segment.content.length := by
  intro e he
  obtain ⟨change, -, hanchors⟩ := (forall₂_mem h).2 e he
  exact hanchors.inside

theorem correctedSegments_ok {segments corrected : List Segment} {title : List Char} {changes : List Change} :
    correctedSegments segments title changes = .ok corrected ↔
      ∃ edits, List.Forall₂ (Change.Anchors segments title) changes edits ∧ edits.Pairwise Edit.Apart ∧
        corrected = (substituted segments edits).filter (·.content ≠ []) := by
  unfold correctedSegments
  rw [except_bind_ok]
  simp only [mapM_ok, editOf_ok]
  constructor
  · rintro ⟨edits, hanchors, h⟩
    have hin := anchored_inside hanchors
    have hlt : ∀ e ∈ edits, e.start < e.stop := fun e he => (hin e he).elim fun _ h => h.2.1
    split at h
    · cases h
    · rename_i hoverlap
      have hapart := (overlap_iff hlt).1 (Bool.not_eq_true _ ▸ hoverlap)
      rw [except_pure_ok] at h
      exact ⟨edits, hanchors, hapart, by rw [← h, applied_eq hin hapart]⟩
  · rintro ⟨edits, hanchors, hapart, rfl⟩
    have hin := anchored_inside hanchors
    have hlt : ∀ e ∈ edits, e.start < e.stop := fun e he => (hin e he).elim fun _ h => h.2.1
    refine ⟨edits, hanchors, ?_⟩
    rw [(overlap_iff hlt).2 hapart, if_neg Bool.false_ne_true, applied_eq hin hapart]
    rfl

/-- A permutation of the changes has the same edits in another order. -/
theorem anchored_perm {segments : List Segment} {title : List Char} {changes changes' : List Change}
    {edits : List Edit} (hperm : changes'.Perm changes) (h : List.Forall₂ (Change.Anchors segments title) changes edits) :
    ∃ edits', List.Forall₂ (Change.Anchors segments title) changes' edits' ∧ edits'.Perm edits := by
  obtain ⟨edits', hanchors, hedits⟩ := List.perm_comp_forall₂ hperm h
  exact ⟨edits', hanchors, hedits⟩

/-! ## Reviews -/

theorem reviewed_ok {parseReview : List Char → Option Review} {draft title source response : List Char} {limit : Nat}
    {d g : CompletedGeneration} {changes : List Change} (hdraft : CompletedGeneration.new draft source limit = .ok d)
    (hparse : parseReview response = some (.corrections changes)) :
    CompletedGeneration.reviewed parseReview response draft title source limit = .ok g ↔
      byteLength response ≤ limit ∧ changes ≠ [] ∧ ∃ edits,
        List.Forall₂ (Change.Anchors (segmentsOf draft) title) changes edits ∧ edits.Pairwise Edit.Apart ∧
        ∃ result, CompletedGeneration.new
          (envelopeJson ((substituted (segmentsOf draft) edits).filter (·.content ≠ []))) source limit = .ok result ∧
          g = { result with envelope := response } := by
  obtain ⟨-, segments, htext, -⟩ := CompletedGeneration.new_ok hdraft
  have hread : readDocument readEnvelope draft = some (segmentsOf draft) := by
    rw [segmentsOf_text htext]
    exact readEnvelope_complete htext
  unfold CompletedGeneration.reviewed CompletedGeneration.reviewChanges
  simp only [hdraft, hread, hparse]
  by_cases hlimit : limit < byteLength response
  · rw [if_pos hlimit]
    constructor
    · intro h
      cases h
    · rintro ⟨hle, -⟩
      omega
  · rw [if_neg hlimit]
    by_cases hchanges : changes = []
    · rw [if_pos hchanges]
      constructor
      · intro h
        cases h
      · rintro ⟨-, hne, -⟩
        exact absurd hchanges hne
    · rw [if_neg hchanges]
      simp only [except_bind_ok, except_pure_ok, correctedSegments_ok]
      constructor
      · rintro ⟨_, -, _, hc, _, ⟨edits, hanchors, hapart, rfl⟩, result, hresult, rfl⟩
        cases hc
        exact ⟨by omega, hchanges, edits, hanchors, hapart, result, hresult, rfl⟩
      · rintro ⟨-, -, edits, hanchors, hapart, result, hresult, rfl⟩
        exact ⟨d, rfl, changes, rfl, _, ⟨edits, hanchors, hapart, rfl⟩, result, hresult, rfl⟩

/-- The draft is valid, and these are the changes of the review: when `reviewed` succeeds, what it publishes, and that
the order of the changes does not matter. -/
theorem review_substitutes (parseReview : List Char → Option Review) {draft title source response : List Char} {limit : Nat}
    {d : CompletedGeneration} {changes : List Change} (hdraft : CompletedGeneration.new draft source limit = .ok d)
    (hparse : parseReview response = some (.corrections changes)) :
    ((∃ g, CompletedGeneration.reviewed parseReview response draft title source limit = .ok g) ↔
      byteLength response ≤ limit ∧ changes ≠ [] ∧ ∃ edits,
        List.Forall₂ (Change.Anchors (segmentsOf draft) title) changes edits ∧ edits.Pairwise Edit.Apart ∧
        ∃ g, CompletedGeneration.new (envelopeJson ((substituted (segmentsOf draft) edits).filter (·.content ≠ [])))
          source limit = .ok g) ∧
    ∀ g, CompletedGeneration.reviewed parseReview response draft title source limit = .ok g →
      g.envelope = response ∧
      (∃ edits, List.Forall₂ (Change.Anchors (segmentsOf draft) title) changes edits ∧ edits.Pairwise Edit.Apart ∧
        RendersTo source ((substituted (segmentsOf draft) edits).filter (·.content ≠ [])) g.content ∧
        ∀ k segment, (segmentsOf draft)[k]? = some segment →
          (∀ change ∈ changes, change.segment ≠ k) ∨ segment.content = titleText title →
          (substituted (segmentsOf draft) edits)[k]? = some segment) ∧
      ∀ response' changes', changes'.Perm changes → parseReview response' = some (.corrections changes') →
        byteLength response' ≤ limit →
        ∃ g', CompletedGeneration.reviewed parseReview response' draft title source limit = .ok g' ∧
          g'.content = g.content := by
  refine ⟨?_, fun g hg => ?_⟩
  · constructor
    · rintro ⟨g, hg⟩
      obtain ⟨hlimit, hne, edits, hanchors, hapart, result, hresult, -⟩ := (reviewed_ok hdraft hparse).1 hg
      exact ⟨hlimit, hne, edits, hanchors, hapart, result, hresult⟩
    · rintro ⟨hlimit, hne, edits, hanchors, hapart, result, hresult⟩
      exact ⟨_, (reviewed_ok hdraft hparse).2 ⟨hlimit, hne, edits, hanchors, hapart, result, hresult, rfl⟩⟩
  · obtain ⟨-, hne, edits, hanchors, hapart, result, hresult, rfl⟩ := (reviewed_ok hdraft hparse).1 hg
    refine ⟨rfl, ⟨edits, hanchors, hapart, ⟨(CompletedGeneration.new_json hresult).rendered⟩, ?_⟩, ?_⟩
    · intro k segment hsegment hkept
      rw [getElem?_substituted, hsegment]
      intro e he hk
      obtain ⟨change, hchange, s, hs, htitle, -, -, -, -, hseg, -⟩ := (forall₂_mem hanchors).2 e he
      rcases hkept with hnone | heq
      · exact hnone change hchange (hseg ▸ hk)
      · rw [← hseg, hk, hsegment] at hs
        cases hs
        exact htitle heq
    · intro response' changes' hperm hparse' hlimit'
      obtain ⟨edits', hanchors', hedits⟩ := anchored_perm hperm hanchors
      have hne' : changes' ≠ [] := fun h => hne (List.Perm.eq_nil (h ▸ hperm.symm))
      have hlt : ∀ e ∈ edits', e.start < e.stop :=
        fun e he => (anchored_inside hanchors' e he).elim fun _ h => h.2.1
      have hapart' : edits'.Pairwise Edit.Apart := (hedits.pairwise_iff Edit.Apart.symm).2 hapart
      rw [← substituted_perm hedits hlt hapart'] at hresult
      exact ⟨_, (reviewed_ok hdraft hparse').2 ⟨hlimit', hne', edits', hanchors', hapart', result, hresult, rfl⟩, rfl⟩

private def sampleSegments : List Segment :=
  [{ kind := "text".toList, content := "Stores 12 GB. It is optional.".toList }]

private def sampleChanges : List Change :=
  [{ segment := 0, before := " It is optional.".toList, after := [], reason := "r".toList },
    { segment := 0, before := "12".toList, after := "14".toList, reason := "r".toList }]

/-- Two changes of one segment, listed from the back. -/
theorem review_substitutes_sample :
    ∃ g, CompletedGeneration.reviewed (fun _ => some (.corrections sampleChanges)) [] (envelopeJson sampleSegments) [] []
      100 = .ok g ∧ g.envelope = [] := by
  have hdraft : CompletedGeneration.new (envelopeJson sampleSegments) [] 100 =
      .ok { envelope := envelopeJson sampleSegments, content := "Stores 12 GB. It is optional.".toList } := by
    decide +kernel
  have hreview := @review_substitutes (fun _ => some (.corrections sampleChanges)) _ [] [] [] _ _ _ hdraft rfl
  have hsegments : segmentsOf (envelopeJson sampleSegments) = sampleSegments := segmentsOf_text (envelopeText_json _)
  have hanchors : List.Forall₂ (Change.Anchors sampleSegments []) sampleChanges
      [⟨0, 13, 29, []⟩, ⟨0, 7, 9, "14".toList⟩] :=
    .cons (editOf_ok.1 (by decide +kernel)) (.cons (editOf_ok.1 (by decide +kernel)) .nil)
  have hapart : [(⟨0, 13, 29, []⟩ : Edit), ⟨0, 7, 9, "14".toList⟩].Pairwise Edit.Apart := by
    simp [Edit.Apart, Splice.Apart, Edit.splice]
  have hnew : CompletedGeneration.new (envelopeJson ((substituted sampleSegments
      [⟨0, 13, 29, []⟩, ⟨0, 7, 9, "14".toList⟩]).filter (·.content ≠ []))) [] 100 =
      .ok { envelope := envelopeJson [{ kind := "text".toList, content := "Stores 14 GB.".toList }]
            content := "Stores 14 GB.".toList } := by decide +kernel
  rw [hsegments] at hreview
  obtain ⟨g, hg⟩ := hreview.1.2 ⟨by decide, by decide, _, hanchors, hapart, _, hnew⟩
  exact ⟨g, hg, (hreview.2 g hg).1⟩

end Inoreader
