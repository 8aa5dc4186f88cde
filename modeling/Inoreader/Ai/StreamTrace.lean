import Inoreader.Ai.Stream

/-!
# What a stream publishes

The contents that `generate` publishes extend one another, and the last of them is the content it returns: what it returns
is what one check of the whole response that it keeps would return. The response is kept however the stream ends, within
its limit.
-/

namespace Inoreader
open Lib

namespace VerifiedSegments
variable {article text : List Char} {limit : Nat} {p p' : VerifiedSegments}

/-- The scanner after it has seen its response. -/
structure Scanned (article : List Char) (limit : Nat) (p : VerifiedSegments) : Prop where
  reached : steps p.raw (extend p.raw (new article limit)) = .ok p
  bounded : byteLength p.raw ≤ limit

theorem Scanned.new : Scanned article limit (new article limit) := ⟨rfl, Nat.zero_le _⟩

theorem Scanned.synced (h : Scanned article limit p) : p.Synced := by
  obtain ⟨-, hcursor⟩ := steps_grows h.reached
  rw [Synced, hcursor]
  exact Nat.zero_add _

theorem Scanned.limit_eq (h : Scanned article limit p) : p.limit = limit := (steps_grows h.reached).1.limit

theorem push_bounded {returned : Option (List Char)} (h : p.push text = .ok (p', returned)) :
    byteLength p.raw + byteLength text ≤ p.limit := by
  unfold push at h
  split at h
  · cases h
  · rename_i hlimit
    exact not_lt.1 hlimit

theorem push_none (h : p.push text = .ok (p', none)) : p'.content = p.content := by
  unfold push at h
  split at h
  · cases h
  · obtain ⟨⟨t, changed⟩, ht, h⟩ := except_bind_ok.1 h
    obtain ⟨-, -, hsame, -⟩ := scan_grows ht
    cases changed with
    | true => cases h
    | false =>
      cases h
      exact hsame rfl

theorem Scanned.push {returned : Option (List Char)} (hp : Scanned article limit p)
    (h : p.push text = .ok (p', returned)) : Scanned article limit p' ∧ p'.raw = p.raw ++ text := by
  obtain ⟨hsteps, -, hgrows, -⟩ := push_ok hp.synced h
  have hraw : p'.raw = p.raw ++ text := hgrows.raw
  have hbound := push_bounded h
  rw [hp.limit_eq] at hbound
  have hlen : (extend p.raw (VerifiedSegments.new article limit)).cursor + p.raw.length ≤
      (extend p.raw (VerifiedSegments.new article limit)).raw.length := by
    show 0 + p.raw.length ≤ p.raw.length
    omega
  have hall : steps (p.raw ++ text) (extend (p.raw ++ text) (VerifiedSegments.new article limit)) = .ok p' := by
    have hextend : extend (p.raw ++ text) (VerifiedSegments.new article limit) =
        extend text (extend p.raw (VerifiedSegments.new article limit)) := rfl
    rw [steps_append, hextend, steps_extend hlen, hp.reached]
    exact hsteps
  refine ⟨⟨?_, ?_⟩, hraw⟩
  · rw [hraw]
    exact hall
  · rw [hraw, byteLength_append]
    exact hbound

theorem finish_content {content : List Char} (h : p.finish = .ok content) : content = p.content := by
  unfold finish at h
  split at h
  · cases h
  · split at h
    · cases h
    · obtain ⟨-, -, h⟩ := except_bind_ok.1 h
      cases h
      rfl

/-- The pieces of a response finish as the response does. -/
theorem Scanned.finish {content : List Char} (hp : Scanned article limit p) (h : p.finish = .ok content) :
    CompletedGeneration.new p.raw article limit = .ok ⟨p.raw, content⟩ := by
  have hlimit : byteLength (VerifiedSegments.new article limit).raw + byteLength p.raw ≤ (VerifiedSegments.new article limit).limit := by
    show 0 + byteLength p.raw ≤ limit
    rw [Nat.zero_add]
    exact hp.bounded
  have hpush : ((VerifiedSegments.new article limit).push p.raw).map Prod.fst = .ok p :=
    (push_steps Scanned.new.synced hlimit).trans hp.reached
  obtain ⟨⟨p', returned⟩, hfst, rfl⟩ := except_map_ok.1 hpush
  unfold CompletedGeneration.new
  rw [hfst]
  have hok : (do
      let content ← p'.finish
      pure { envelope := p'.raw, content } : Except AiError CompletedGeneration) = .ok ⟨p'.raw, content⟩ := by
    rw [h]
    rfl
  exact hok

end VerifiedSegments

namespace ProviderStream

def publishes : ProgressCall → Option (List Char)
  | .publish content => some content
  | _ => none

def records : ProgressCall → Option Usage
  | .usage usage => some usage
  | _ => none

/-- What holds of the calls while a stream is read, and where it fails. -/
structure Traced (input : GenerationInput) (s : State) : Prop where
  unanswered : ∀ raw system, ProgressCall.response raw system ∉ s.calls
  extending : (s.calls.filterMap publishes).Pairwise (· <+: ·)
  silent : input.reviewDraft.isSome = true → s.calls.filterMap publishes = []
  consistent : ∀ usage ∈ s.calls.filterMap records,
    usage.promptCacheHitTokens + usage.promptCacheMissTokens = usage.promptTokens
  bounded : byteLength s.envelope ≤ input.maxResponseBytes ∧ byteLength s.reviewRaw ≤ input.maxResponseBytes

/-- What holds between the lines of a stream; `opening` is the content before it. -/
structure Streaming (input : GenerationInput) (opening : List Char) (s : State) : Prop extends Traced input s where
  scanned : s.parser.Scanned input.articleText input.maxResponseBytes
  kept : s.envelope = s.parser.raw
  last : (s.calls.filterMap publishes).getLast?.getD opening = s.parser.content
  below : ∀ content ∈ s.calls.filterMap publishes, content <+: s.parser.content
  usage : (s.calls.filterMap records).getLast? = s.usage

variable {parseValue : List Char → Option Lib.Json} {parseReview : List Char → Option Review} {input : GenerationInput}
  {opening : List Char} {s s' : State}

/-- A line keeps what holds between the lines. -/
abbrev KeepsStream {α : Type} (input : GenerationInput) (opening : List Char) (m : StreamM α) : Prop :=
  m.Keeps (Streaming input opening) (Traced input)

theorem weak (s : State) (h : Streaming input opening s) : Traced input s := h.toTraced

/-- What the scanner, the calls and the response do not see. -/
theorem keeps_update {f : State → State}
    (h : ∀ s, (f s).parser = s.parser ∧ (f s).envelope = s.envelope ∧ (f s).reviewRaw = s.reviewRaw ∧
      (f s).calls = s.calls ∧ (f s).usage = s.usage) : KeepsStream input opening (update f) := by
  intro s hs
  constructor
  · intro a s' h'
    cases h'
    obtain ⟨hparser, henvelope, hreview, hcalls, husage⟩ := h s
    refine ⟨⟨?_, ?_, ?_, ?_, ?_⟩, ?_, ?_, ?_, ?_, ?_⟩
    · rw [hcalls]; exact hs.unanswered
    · rw [hcalls]; exact hs.extending
    · rw [hcalls]; exact hs.silent
    · rw [hcalls]; exact hs.consistent
    · rw [henvelope, hreview]; exact hs.bounded
    · rw [hparser]; exact hs.scanned
    · rw [henvelope, hparser]; exact hs.kept
    · rw [hcalls, hparser]; exact hs.last
    · rw [hcalls, hparser]; exact hs.below
    · rw [hcalls, husage]; exact hs.usage
  · intro e s' h'
    cases h'

theorem usageOf_ok {value : Lib.Json} {usage : Usage} (h : usageOf value = .ok usage) :
    usage.promptCacheHitTokens + usage.promptCacheMissTokens = usage.promptTokens := by
  cases hprompt : (value.get "prompt_tokens").bind Lib.Json.asU64 with
  | none =>
    rw [usageOf, hprompt] at h
    cases h
  | some prompt =>
    simp only [usageOf, hprompt] at h
    split at h
    · cases h
    · split at h
      · cases h
      · rename_i hsum
        split at h
        · cases h
        · cases h
          exact not_not.1 hsum

theorem published_append (calls : List ProgressCall) (c : ProgressCall) :
    (calls ++ [c]).filterMap publishes = calls.filterMap publishes ++ (publishes c).toList := by
  rw [List.filterMap_append]
  cases c <;> rfl

theorem recorded_append (calls : List ProgressCall) (c : ProgressCall) :
    (calls ++ [c]).filterMap records = calls.filterMap records ++ (records c).toList := by
  rw [List.filterMap_append]
  cases c <;> rfl

theorem unanswered_append {calls : List ProgressCall} {c : ProgressCall}
    (hcalls : ∀ raw system, ProgressCall.response raw system ∉ calls) (hc : ∀ raw system, c ≠ .response raw system)
    (raw system : List Char) : ProgressCall.response raw system ∉ calls ++ [c] := by
  simp only [List.mem_append, List.mem_singleton, not_or]
  exact ⟨hcalls raw system, fun h => hc raw system h.symm⟩

theorem keeps_processUsage (event : Lib.Json) : KeepsStream input opening (processUsage event) := by
  unfold processUsage
  split
  · exact .pure ()
  · split
    · exact .pure ()
    · refine .ofExcept_bind weak fun usage husage => ?_
      intro s hs
      constructor
      · intro a s' h
        cases h
        have hpublished : (s.calls ++ [ProgressCall.usage usage]).filterMap publishes = s.calls.filterMap publishes :=
          (published_append s.calls _).trans (List.append_nil _)
        have hrecorded : (s.calls ++ [ProgressCall.usage usage]).filterMap records = s.calls.filterMap records ++ [usage] :=
          recorded_append s.calls _
        refine ⟨⟨unanswered_append hs.unanswered (fun _ _ h => by cases h), ?_, ?_, ?_, hs.bounded⟩, hs.scanned, hs.kept,
          ?_, ?_, ?_⟩
        · exact hpublished ▸ hs.extending
        · exact fun hdraft => hpublished.trans (hs.silent hdraft)
        · intro u hu
          rw [hrecorded, List.mem_append, List.mem_singleton] at hu
          rcases hu with hu | rfl
          · exact hs.consistent u hu
          · exact usageOf_ok husage
        · exact (congrArg (fun l => l.getLast?.getD opening) hpublished).trans hs.last
        · exact hpublished ▸ hs.below
        · exact (congrArg List.getLast? hrecorded).trans List.getLast?_concat
      · intro e s' h
        cases h

/-- A text for the scanner, where no review is asked for. -/
theorem keeps_push (text : List Char) (hdraft : input.reviewDraft.isSome = false) : KeepsStream input opening (do
    match ← pushText text with
    | some content => call (.publish content)
    | none => pure ()) := by
  intro s hs
  have hbounded : byteLength (if s.parser.limit < byteLength s.parser.raw + byteLength text then s.parser.raw
      else s.parser.raw ++ text) ≤ input.maxResponseBytes := by
    split
    · exact hs.scanned.bounded
    · rename_i hlimit
      rw [hs.scanned.limit_eq] at hlimit
      rw [VerifiedSegments.byteLength_append]
      omega
  cases hpush : s.parser.push text with
  | error e =>
    have hrun : pushText text s = (.error e, { s with
        envelope := if s.parser.limit < byteLength s.parser.raw + byteLength text then s.parser.raw
          else s.parser.raw ++ text }) := by
      simp only [pushText, hpush]
    rw [Proc.bind_error hrun]
    constructor
    · intro a s' h
      cases h
    · intro e' s' h
      cases h
      exact ⟨hs.unanswered, hs.extending, hs.silent, hs.consistent, hbounded, hs.bounded.2⟩
  | ok r =>
    obtain ⟨parser, returned⟩ := r
    obtain ⟨hscanned, hraw⟩ := hs.scanned.push hpush
    obtain ⟨-, -, hgrows, hreturned⟩ := VerifiedSegments.push_ok hs.scanned.synced hpush
    have hrun : pushText text s = (.ok returned, { s with parser, envelope := parser.raw }) := by
      have hlimit : ¬ s.parser.limit < byteLength s.parser.raw + byteLength text :=
        not_lt.2 (VerifiedSegments.push_bounded hpush)
      simp only [pushText, hpush, if_neg hlimit, hraw]
    have hgrown : s.parser.content <+: parser.content := hgrows.content
    rw [Proc.bind_ok hrun]
    cases returned with
    | none =>
      have hcontent : parser.content = s.parser.content := VerifiedSegments.push_none hpush
      constructor
      · intro a s' h
        cases h
        exact ⟨⟨hs.unanswered, hs.extending, hs.silent, hs.consistent, hscanned.bounded, hs.bounded.2⟩, hscanned, rfl,
          hs.last.trans hcontent.symm, fun c hc => (hs.below c hc).trans hgrown, hs.usage⟩
      · intro e s' h
        cases h
    | some content =>
      obtain rfl : content = parser.content := hreturned content rfl
      constructor
      · intro a s' h
        cases h
        have hpublished : (s.calls ++ [ProgressCall.publish parser.content]).filterMap publishes =
          s.calls.filterMap publishes ++ [parser.content] := published_append s.calls _
        have hrecorded : (s.calls ++ [ProgressCall.publish parser.content]).filterMap records = s.calls.filterMap records :=
          (recorded_append s.calls _).trans (List.append_nil _)
        refine ⟨⟨unanswered_append hs.unanswered (fun _ _ h => by cases h), ?_, ?_, ?_, hscanned.bounded, hs.bounded.2⟩,
          hscanned, rfl, ?_, ?_, ?_⟩
        · show List.Pairwise _ ((s.calls ++ [ProgressCall.publish parser.content]).filterMap publishes)
          rw [hpublished, List.pairwise_append]
          refine ⟨hs.extending, List.pairwise_singleton _ _, ?_⟩
          intro c hc d hd
          rw [List.mem_singleton.1 hd]
          exact (hs.below c hc).trans hgrown
        · intro hsome
          rw [hdraft] at hsome
          cases hsome
        · exact hrecorded ▸ hs.consistent
        · show ((s.calls ++ [ProgressCall.publish parser.content]).filterMap publishes).getLast?.getD opening = _
          rw [hpublished, List.getLast?_concat, Option.getD_some]
        · intro c hc
          have hc' : c ∈ (s.calls ++ [ProgressCall.publish parser.content]).filterMap publishes := hc
          rw [hpublished, List.mem_append, List.mem_singleton] at hc'
          rcases hc' with hc' | rfl
          · exact (hs.below c hc').trans hgrown
          · exact List.prefix_rfl
        · exact (congrArg List.getLast? hrecorded).trans hs.usage
      · intro e s' h
        cases h

theorem keeps_processContent (text : List Char) : KeepsStream input opening (processContent input text) := by
  unfold processContent
  split
  · refine .get_bind fun s hs => ?_
    by_cases hfits : byteLength s.reviewRaw + byteLength text ≤ input.maxResponseBytes
    · rw [Proc.require, if_pos hfits]
      constructor
      · intro a s' h
        cases h
        refine ⟨⟨hs.unanswered, hs.extending, hs.silent, hs.consistent, hs.bounded.1, ?_⟩, hs.scanned, hs.kept, hs.last,
          hs.below, hs.usage⟩
        show byteLength (s.reviewRaw ++ text) ≤ _
        rw [VerifiedSegments.byteLength_append]
        exact hfits
      · intro e s' h
        cases h
    · rw [Proc.require, if_neg hfits]
      constructor
      · intro a s' h
        cases h
      · intro e s' h
        cases h
        exact hs.toTraced
  · rename_i hdraft
    exact keeps_push text (Bool.eq_false_iff.2 hdraft)

theorem keeps_processChoice (choice : Lib.Json) : KeepsStream input opening (processChoice input choice) := by
  refine .bind ?_ fun _ => ?_
  · unfold processReason
    split
    · exact keeps_update fun s => ⟨rfl, rfl, rfl, rfl, rfl⟩
    · exact .pure ()
  · split
    · exact keeps_processContent _
    · exact .pure ()

theorem keeps_processChoices (choices : List Lib.Json) : KeepsStream input opening (processChoices input choices) := by
  induction choices with
  | nil => exact .pure ()
  | cons choice choices ih => exact .bind (keeps_processChoice choice) fun _ => ih

theorem keeps_processEvent (event : Lib.Json) : KeepsStream input opening (processEvent input event) := by
  unfold processEvent
  split
  · exact .throw weak _
  · refine .bind (keeps_processUsage event) fun _ => ?_
    split
    · exact .throw weak _
    · exact keeps_processChoices _

theorem keeps_processData : KeepsStream input opening (processData parseValue input) := by
  unfold processData
  refine .bind .get fun s => ?_
  split
  · exact .pure ()
  · split
    · exact keeps_update fun s => ⟨rfl, rfl, rfl, rfl, rfl⟩
    · split
      · exact .throw weak _
      · split
        · exact .throw weak _
        · exact .bind (keeps_update fun s => ⟨rfl, rfl, rfl, rfl, rfl⟩) fun _ => keeps_processEvent _

/-- A line of the stream keeps what holds between the lines. -/
theorem keeps_processLine (line : List UInt8) : KeepsStream input opening (processLine parseValue input line) := by
  unfold processLine
  split
  · exact .throw weak _
  · dsimp only
    split
    · exact keeps_update fun s => ⟨rfl, rfl, rfl, rfl, rfl⟩
    · split
      · exact keeps_processData
      · exact .pure ()

theorem keeps_stream (chunks : List (List UInt8)) : KeepsStream input opening (stream parseValue input chunks) := by
  unfold stream
  exact .bind (LineFeed.feed_keeps keeps_processLine chunks) fun _ => .bind .get fun _ => .require weak

/-- Before the response nothing is published; the scanner has seen the start of the discussion. -/
theorem openParser_scanned {parser : VerifiedSegments} (h : openParser input = .ok parser) :
    parser.Scanned input.articleText input.maxResponseBytes := by
  unfold openParser at h
  split at h
  · cases h
    exact .new
  · obtain ⟨⟨parser', returned⟩, hpush, rfl⟩ := except_map_ok.1 h
    exact (VerifiedSegments.Scanned.new.push hpush).1

theorem reviewed_envelope {response draft title source : List Char} {limit : Nat} {g : CompletedGeneration}
    (h : CompletedGeneration.reviewed parseReview response draft title source limit = .ok g) : g.envelope = response := by
  unfold CompletedGeneration.reviewed at h
  split at h
  · cases h
  · obtain ⟨d, -, h⟩ := except_bind_ok.1 h
    split at h
    · cases h
    · obtain ⟨changes, -, h⟩ := except_bind_ok.1 h
      obtain ⟨segments, -, h⟩ := except_bind_ok.1 h
      obtain ⟨result, -, h⟩ := except_bind_ok.1 h
      cases h
      rfl

/-- What `generate` calls and returns. -/
structure Faithful (parseReview : List Char → Option Review) (input : GenerationInput) (opening : List Char)
    (calls : List ProgressCall) (raw : List Char) (result : Except AiError (CompletedGeneration × Usage)) : Prop where
  unanswered : ∀ raw system, ProgressCall.response raw system ∉ calls
  bounded : byteLength raw ≤ input.maxResponseBytes
  extending : (calls.filterMap publishes).Pairwise (· <+: ·)
  consistent : ∀ usage ∈ calls.filterMap records,
    usage.promptCacheHitTokens + usage.promptCacheMissTokens = usage.promptTokens
  recorded : ∀ g usage, result = .ok (g, usage) → (calls.filterMap records).getLast? = some usage ∧ g.envelope = raw
  checked : input.reviewDraft = none → ∀ g usage, result = .ok (g, usage) →
    CompletedGeneration.new raw input.articleText input.maxResponseBytes = .ok g ∧
      (calls.filterMap publishes).getLast?.getD opening = g.content
  reviewed : ∀ draft, input.reviewDraft = some draft → calls.filterMap publishes = [] ∧
    ∀ g usage, result = .ok (g, usage) →
      CompletedGeneration.reviewed parseReview raw draft input.articleTitle input.articleText input.maxResponseBytes = .ok g

theorem Traced.faithful {e : AiError} (h : Traced input s) :
    Faithful parseReview input opening s.calls (retained input s) (.error e) where
  unanswered := h.unanswered
  bounded := by
    unfold retained
    split
    · exact h.bounded.2
    · exact h.bounded.1
  extending := h.extending
  consistent := h.consistent
  recorded := fun _ _ hresult => by cases hresult
  checked := fun _ _ _ hresult => by cases hresult
  reviewed := fun draft hdraft => ⟨h.silent (by rw [hdraft]; rfl), fun _ _ hresult => by cases hresult⟩

theorem Streaming.faithful (h : Streaming input opening s) :
    Faithful parseReview input opening s.calls (retained input s) (completed parseReview input s) := by
  cases hresult : completed parseReview input s with
  | error e => exact h.toTraced.faithful
  | ok r =>
    obtain ⟨g, usage⟩ := r
    have hbase : Faithful parseReview input opening s.calls (retained input s) (.error .protocol) := h.toTraced.faithful
    unfold completed at hresult
    split at hresult
    · cases hresult
    · cases hdraft : input.reviewDraft with
      | some draft =>
        simp only [hdraft] at hresult
        have hretained : retained input s = s.reviewRaw := by rw [retained, hdraft]; rfl
        cases husage : s.usage with
        | none =>
          rw [husage] at hresult
          cases hresult
        | some usage' =>
          rw [husage] at hresult
          obtain ⟨g', hg, heq⟩ := except_map_ok.1 hresult
          cases heq
          rw [hretained] at hbase ⊢
          refine { hbase with recorded := ?_, checked := ?_, reviewed := ?_ }
          · rintro _ _ ⟨⟩
            exact ⟨h.usage.trans husage, reviewed_envelope hg⟩
          · intro hnone
            rw [hdraft] at hnone
            cases hnone
          · intro draft' hsome
            rw [hdraft] at hsome
            cases hsome
            refine ⟨h.silent (by rw [hdraft]; rfl), ?_⟩
            rintro _ _ ⟨⟩
            exact hg
      | none =>
        simp only [hdraft] at hresult
        have hretained : retained input s = s.envelope := by rw [retained, hdraft]; rfl
        cases hfinish : s.parser.finish with
        | error e =>
          rw [hfinish] at hresult
          cases hresult
        | ok content =>
          rw [hfinish] at hresult
          cases husage : s.usage with
          | none =>
            rw [husage] at hresult
            cases hresult
          | some usage' =>
            rw [husage] at hresult
            cases hresult
            rw [hretained] at hbase ⊢
            refine { hbase with recorded := ?_, checked := ?_, reviewed := ?_ }
            · rintro _ _ ⟨⟩
              exact ⟨h.usage.trans husage, rfl⟩
            · rintro - _ _ ⟨⟩
              rw [h.kept]
              exact ⟨h.scanned.finish hfinish, h.last.trans (VerifiedSegments.finish_content hfinish).symm⟩
            · intro draft hsome
              rw [hdraft] at hsome
              cases hsome

/-- Whatever the provider sends, in whatever chunks: the response is kept once and last, within its limit, also where the
stream fails; what is published only grows and ends with the content that is returned, which is the content that one check
of the kept response gives. -/
theorem generate_faithful {parser : VerifiedSegments} (hopen : openParser input = .ok parser) (chunks : List (List UInt8)) :
    ∃ calls raw, (generate parseValue parseReview input chunks).1 = calls ++ [.response raw input.system] ∧
      Faithful parseReview input parser.content calls raw (generate parseValue parseReview input chunks).2 := by
  let start : State :=
    { parser, envelope := parser.raw, reviewRaw := [], data := [], done := false, stopped := false
      outputLimit := false, usage := none, calls := [] }
  have hscanned := openParser_scanned hopen
  have hstart : Streaming input parser.content start := {
    unanswered := fun _ _ h => absurd h List.not_mem_nil
    extending := List.Pairwise.nil
    silent := fun _ => rfl
    consistent := fun _ h => absurd h List.not_mem_nil
    bounded := ⟨hscanned.bounded, Nat.zero_le _⟩
    scanned := hscanned
    kept := rfl
    last := rfl
    below := fun _ h => absurd h List.not_mem_nil
    usage := rfl }
  obtain ⟨hok, herror⟩ := @keeps_stream parseValue _ _ chunks start hstart
  have hrun : generate parseValue parseReview input chunks =
      ((stream parseValue input chunks start).2.calls ++
        [.response (retained input (stream parseValue input chunks start).2) input.system],
      (stream parseValue input chunks start).1.bind fun _ => completed parseReview input (stream parseValue input chunks start).2) := by
    simp only [generate, hopen]
    rcases stream parseValue input chunks start with ⟨e | _, s⟩ <;> rfl
  rw [hrun]
  rcases hstream : stream parseValue input chunks start with ⟨e | _, s⟩
  · exact ⟨s.calls, retained input s, rfl, (herror e s hstream).faithful⟩
  · exact ⟨s.calls, retained input s, rfl, (hok _ s hstream).faithful⟩

theorem Sample.generate_faithful_cut :
    ∃ calls raw, (generate Sample.parse (fun _ => none) Sample.input [Sample.bytes.take 3, Sample.bytes.drop 3]).1 =
        calls ++ [.response raw []] ∧
      Faithful (fun _ => none) Sample.input [] calls raw
        (generate Sample.parse (fun _ => none) Sample.input [Sample.bytes.take 3, Sample.bytes.drop 3]).2 :=
  @generate_faithful _ _ _ (VerifiedSegments.new [] 100) rfl _

end ProviderStream
end Inoreader
