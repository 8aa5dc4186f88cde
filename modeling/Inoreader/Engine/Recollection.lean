import Mathlib.Data.List.ReduceOption
import Inoreader.Engine.InitialPoll
import Inoreader.Lib.Except
import Inoreader.Lib.Lists

/-!
# Collecting an unchanged response

What the loop over an answer emits is compared with what is stored, item by item. Once its records are committed, the
deferred ones among them too, each item of the answer agrees with its stored record.
-/

namespace Inoreader
open Lib

/-! ## What an item emits -/

/-- What the comparison of two records looks at. -/
structure RecordContent where
  key : DedupKey
  descriptionMediaType : Option String
  feedContentHtml : Option String
  publishedAt : Option PublicationDate
  categories : Option (List String)
deriving DecidableEq, Repr

def SourceRecord.content (r : SourceRecord) : RecordContent :=
  { key := r.key, descriptionMediaType := r.descriptionMediaType, feedContentHtml := r.feedContentHtml
    publishedAt := r.publishedAt, categories := r.categories }

/-- The content of a parsed item of the source. -/
def ParsedRecord.content (parseUrl : String → Option Url) (source : SourceId) (v : ParsedRecord) : RecordContent :=
  { key := { location := articleLocation parseUrl v source, title := v.title, description := v.description }
    descriptionMediaType := v.descriptionMediaType, feedContentHtml := v.contentHtml, publishedAt := v.publishedAt
    categories := v.categories }

/-- What a Dropbox listing says about a stored record: its location, title and categories, and a missing date. -/
def SourceRecord.listed (r v : SourceRecord) : RecordContent :=
  { key := { location := v.key.location, title := v.key.title, description := r.key.description }
    descriptionMediaType := r.descriptionMediaType, feedContentHtml := r.feedContentHtml
    publishedAt := if r.publishedAt.isSome then r.publishedAt else v.publishedAt, categories := v.categories }

/-- `r` with another content, one revision later. -/
def SourceRecord.withContent (r : SourceRecord) (content : RecordContent) : SourceRecord :=
  { r with
    key := content.key, descriptionMediaType := content.descriptionMediaType
    feedContentHtml := content.feedContentHtml, publishedAt := content.publishedAt, categories := content.categories
    revision := r.revision + 1 }

/-- What an item emits about a stored record: nothing exactly if the content is the stored one, and otherwise the next
revision, for a new grouping exactly if the key or the media type is another one. -/
structure Revises (r : SourceRecord) (content : RecordContent) (out : Option PolledRecord) : Prop where
  unchanged : out = none ↔ content = r.content
  record : ∀ p, out = some p → p.record = r.withContent content
  regroup : ∀ p, out = some p →
    (p.action = .regroup ↔ content.key ≠ r.key ∨ content.descriptionMediaType ≠ r.descriptionMediaType)
  known : ∀ p, out = some p → p.action ≠ .deliver

theorem revises_polled (r : SourceRecord) (content : RecordContent) :
    Revises r content (RecordRevision.polled
      { record := r.withContent content, effect := SourceRecord.revisionEffect r (r.withContent content) }) := by
  unfold RecordRevision.polled SourceRecord.revisionEffect
  rw [show (r.withContent content).key = content.key from rfl,
    show (r.withContent content).descriptionMediaType = content.descriptionMediaType from rfl,
    show (r.withContent content).feedContentHtml = content.feedContentHtml from rfl,
    show (r.withContent content).publishedAt = content.publishedAt from rfl,
    show (r.withContent content).categories = content.categories from rfl]
  by_cases hgroup : content.key ≠ r.key ∨ content.descriptionMediaType ≠ r.descriptionMediaType
  · rw [if_pos hgroup]
    refine ⟨⟨fun h => ?_, fun h => ?_⟩, ?_, ?_, ?_⟩
    · cases h
    · rw [h] at hgroup
      exact absurd rfl (hgroup.resolve_left fun hkey => hkey rfl)
    all_goals
      rintro p hp
      cases hp
    · rfl
    · exact ⟨fun _ => hgroup, fun _ => rfl⟩
    · exact fun h => by cases h
  · rw [if_neg hgroup]
    rw [not_or, not_not, not_not] at hgroup
    obtain ⟨hkey, hmedia⟩ := hgroup
    by_cases hrest : content.feedContentHtml ≠ r.feedContentHtml ∨ content.publishedAt ≠ r.publishedAt ∨
        content.categories ≠ r.categories
    · rw [if_pos hrest]
      refine ⟨⟨fun h => ?_, fun h => ?_⟩, ?_, ?_, ?_⟩
      · cases h
      · rw [h] at hrest
        rcases hrest with h | h | h <;> exact absurd rfl h
      all_goals
        rintro p hp
        cases hp
      · rfl
      · refine ⟨fun h => ?_, fun h => ?_⟩
        · cases h
        · rcases h with h | h
          · exact absurd hkey h
          · exact absurd hmedia h
      · exact fun h => by cases h
    · rw [if_neg hrest]
      rw [not_or, not_or, not_not, not_not, not_not] at hrest
      obtain ⟨hbody, hdate, hcategories⟩ := hrest
      refine ⟨⟨fun _ => ?_, fun _ => rfl⟩, ?_, ?_, ?_⟩
      · cases content
        dsimp only at hkey hmedia hbody hdate hcategories
        subst hkey hmedia hbody hdate hcategories
        rfl
      all_goals
        rintro p hp
        cases hp

/-- A stored record that has the content is not revised. -/
theorem Revises.none {r : SourceRecord} {content : RecordContent} {out : Option PolledRecord} (h : Revises r content out)
    (hcontent : r.content = content) : out = .none :=
  h.unchanged.2 hcontent.symm

theorem content_withContent (r : SourceRecord) (content : RecordContent) : (r.withContent content).content = content := rfl

theorem revise_ok {parseUrl : String → Option Url} {r : SourceRecord} {v : ParsedRecord} {rev : RecordRevision} :
    r.revise parseUrl v = .ok rev ↔ v.upstreamId = r.upstreamId ∧
      rev = { record := r.withContent (v.content parseUrl r.sourceId),
              effect := SourceRecord.revisionEffect r (r.withContent (v.content parseUrl r.sourceId)) } := by
  unfold SourceRecord.revise
  by_cases h : v.upstreamId = r.upstreamId
  · rw [if_neg (not_not_intro h)]
    exact ⟨fun hrev => ⟨h, (Except.ok.inj hrev).symm⟩, fun hrev => by rw [hrev.2]; rfl⟩
  · rw [if_pos h]
    exact ⟨fun hrev => (by cases hrev), fun hrev => absurd hrev.1 h⟩

theorem reviseFromRecord_ok {r v : SourceRecord} {rev : RecordRevision} :
    r.reviseFromRecord v = .ok rev ↔ v.upstreamId = r.upstreamId ∧ v.sourceId = r.sourceId ∧
      rev = { record := r.withContent v.content, effect := SourceRecord.revisionEffect r (r.withContent v.content) } := by
  unfold SourceRecord.reviseFromRecord
  by_cases h : v.upstreamId = r.upstreamId ∧ v.sourceId = r.sourceId
  · rw [if_neg (by rw [not_or, not_not, not_not]; exact h)]
    exact ⟨fun hrev => ⟨h.1, h.2, (Except.ok.inj hrev).symm⟩, fun hrev => by rw [hrev.2.2]; rfl⟩
  · rw [if_pos (by rwa [← not_and_or])]
    exact ⟨fun hrev => (by cases hrev), fun hrev => absurd ⟨hrev.1, hrev.2.1⟩ h⟩

/-- The days of a stored date and of a listed one agree. -/
def SourceRecord.DaysAgree (r v : SourceRecord) : Prop :=
  ∀ old new, r.publishedAt = some old → v.publishedAt = some new → old.day = new.day

theorem reviseFromDropboxListing_ok {r v : SourceRecord} {rev : RecordRevision} :
    r.reviseFromDropboxListing v = .ok rev ↔ r.DaysAgree v ∧ v.upstreamId = r.upstreamId ∧ v.sourceId = r.sourceId ∧
      rev = { record := r.withContent (r.listed v),
              effect := SourceRecord.revisionEffect r (r.withContent (r.listed v)) } := by
  have hretain : r.reviseFromRecord (SourceRecord.reviseFromDropboxListing.retain r v) = .ok rev ↔
      v.upstreamId = r.upstreamId ∧ v.sourceId = r.sourceId ∧
        rev = { record := r.withContent (r.listed v),
                effect := SourceRecord.revisionEffect r (r.withContent (r.listed v)) } := reviseFromRecord_ok
  unfold SourceRecord.reviseFromDropboxListing
  split
  · rename_i old new hold hnew
    by_cases hday : old.day = new.day
    · rw [if_neg (not_not_intro hday), hretain]
      refine ⟨fun h => ⟨fun old' new' hold' hnew' => ?_, h⟩, fun h => h.2⟩
      rw [hold] at hold'
      rw [hnew] at hnew'
      cases hold'
      cases hnew'
      exact hday
    · rw [if_pos hday]
      refine ⟨fun h => (by cases h), fun h => absurd (h.1 old new hold hnew) hday⟩
  · rename_i hdates
    rw [hretain]
    exact ⟨fun h => ⟨fun old new hold hnew => absurd hnew (hdates old new hold), h⟩, fun h => h.2⟩

/-- A listing agrees with the record that it has made of another one. -/
theorem SourceRecord.DaysAgree.again {r v : SourceRecord} (h : r.DaysAgree v) : (r.withContent (r.listed v)).DaysAgree v := by
  intro old new hold hnew
  have hold : (if r.publishedAt.isSome then r.publishedAt else v.publishedAt) = some old := hold
  split at hold
  · exact h old new hold hnew
  · rw [hold] at hnew
    cases hnew
    rfl

theorem listed_again (r v : SourceRecord) : (r.withContent (r.listed v)).listed v = r.listed v := by
  unfold SourceRecord.listed SourceRecord.withContent
  cases hr : r.publishedAt <;> cases hv : v.publishedAt <;> simp

/-- A listing agrees with the record that was made of it. -/
theorem listed_self (v : SourceRecord) : v.DaysAgree v ∧ v.listed v = v.content := by
  constructor
  · intro old new hold hnew
    rw [hold] at hnew
    cases hnew
    rfl
  · unfold SourceRecord.listed SourceRecord.content
    rw [ite_self]

theorem fromParsed_ok {parseUrl : String → Option Url} {id : SourceRecordId} {source : SourceId} {v : ParsedRecord}
    {r : SourceRecord} (h : SourceRecord.fromParsed parseUrl id source v = .ok r) :
    r.upstreamId = v.upstreamId ∧ r.sourceId = source ∧ r.content = v.content parseUrl source ∧ r.revision = 0 := by
  unfold SourceRecord.fromParsed at h
  split at h
  · cases h
  · cases h
    exact ⟨rfl, rfl, rfl, rfl⟩

/-! ## What an answer emits -/

section
variable {α : Type} {upstream : α → String} {duplicate : String} {known known' : String → Option SourceRecord}
  {revised : SourceRecord → α → Except ModelError RecordRevision} {created : Nat → α → Except ModelError SourceRecord}

/-- One turn of the loop over an answer. -/
def outcome (known : String → Option SourceRecord) (upstream : α → String)
    (revised : SourceRecord → α → Except ModelError RecordRevision) (created : Nat → α → Except ModelError SourceRecord)
    (n : Nat) (v : α) : Except IngestError (Option PolledRecord) :=
  match known (upstream v) with
  | some existing => (Except.parse (revised existing v)).map (·.polled)
  | none => (Except.parse (created n v)).map fun record => some { record, action := .deliver }

theorem polledRecords_cons {seen : List String} {n : Nat} {v : α} {values : List α} {records : List PolledRecord} :
    polledRecords upstream duplicate known revised created seen n (v :: values) = .ok records ↔
      upstream v ∉ seen ∧ ∃ out, outcome known upstream revised created n v = .ok out ∧
        ∃ rest, polledRecords upstream duplicate known revised created (upstream v :: seen) (n + 1) values = .ok rest ∧
          out.toList ++ rest = records := by
  by_cases hseen : upstream v ∈ seen
  · rw [polledRecords, if_pos hseen]
    exact ⟨fun h => (by cases h), fun h => absurd hseen h.1⟩
  · have hturn : polledRecords upstream duplicate known revised created seen n (v :: values) =
        (outcome known upstream revised created n v >>= fun out =>
          polledRecords upstream duplicate known revised created (upstream v :: seen) (n + 1) values >>= fun rest =>
            pure (out.toList ++ rest)) := by
      rw [polledRecords, if_neg hseen]
      unfold outcome
      cases known (upstream v) <;> rfl
    rw [hturn]
    constructor
    · intro h
      obtain ⟨out, hout, h⟩ := except_bind_ok.1 h
      obtain ⟨rest, hrest, h⟩ := except_bind_ok.1 h
      exact ⟨hseen, out, hout, rest, hrest, except_pure_ok.1 h⟩
    · rintro ⟨-, out, hout, rest, hrest, h⟩
      exact except_bind_ok.2 ⟨out, hout, except_bind_ok.2 ⟨rest, hrest, except_pure_ok.2 h⟩⟩

/-- The items have different identities, and the records are what they emit. -/
theorem polledRecords_ok {seen : List String} {n : Nat} {values : List α} {records : List PolledRecord}
    (h : polledRecords upstream duplicate known revised created seen n values = .ok records) :
    (values.map upstream).Nodup ∧ (∀ v ∈ values, upstream v ∉ seen) ∧ ∃ outs,
      List.Forall₂ (fun e out => outcome known upstream revised created e.2 e.1 = .ok out) (values.zipIdx n) outs ∧
        outs.reduceOption = records := by
  induction values generalizing seen n records with
  | nil =>
    cases h
    exact ⟨List.nodup_nil, fun _ hv => absurd hv List.not_mem_nil, [], .nil, rfl⟩
  | cons v values ih =>
    obtain ⟨hseen, out, hout, rest, hrest, rfl⟩ := polledRecords_cons.1 h
    obtain ⟨hnodup, hfresh, outs, houts, rfl⟩ := ih hrest
    refine ⟨?_, ?_, out :: outs, ?_, ?_⟩
    · rw [List.map_cons, List.nodup_cons]
      refine ⟨fun hmem => ?_, hnodup⟩
      obtain ⟨v', hv', heq⟩ := List.mem_map.1 hmem
      exact hfresh v' hv' (by rw [heq]; exact List.mem_cons_self)
    · rw [List.forall_mem_cons]
      exact ⟨hseen, fun v' hv' hmem => hfresh v' hv' (List.mem_cons_of_mem _ hmem)⟩
    · rw [List.zipIdx_cons]
      exact .cons hout houts
    · cases out <;> rfl

theorem polledRecords_nothing {seen : List String} {n : Nat} {values : List α} (hnodup : (values.map upstream).Nodup)
    (hfresh : ∀ v ∈ values, upstream v ∉ seen)
    (hnone : ∀ e ∈ values.zipIdx n, outcome known upstream revised created e.2 e.1 = .ok none) :
    polledRecords upstream duplicate known revised created seen n values = .ok [] := by
  induction values generalizing seen n with
  | nil => rfl
  | cons v values ih =>
    rw [List.map_cons, List.nodup_cons] at hnodup
    rw [List.forall_mem_cons] at hfresh
    rw [List.zipIdx_cons, List.forall_mem_cons] at hnone
    refine polledRecords_cons.2 ⟨hfresh.1, none, hnone.1, [], ih hnodup.2 (fun v' hv' hmem => ?_) hnone.2, rfl⟩
    rcases List.mem_cons.1 hmem with heq | hmem
    · exact hnodup.1 (by rw [← heq]; exact List.mem_map_of_mem hv')
    · exact hfresh.2 v' hv' hmem

/-- What the records have been revised and created to stays as it is when their items come again. -/
structure Settles (source : SourceId) (upstream : α → String)
    (revised : SourceRecord → α → Except ModelError RecordRevision) (created : Nat → α → Except ModelError SourceRecord) :
    Prop where
  revises : ∀ r v rev, revised r v = .ok rev → r.upstreamId = upstream v ∧ rev.record.upstreamId = upstream v ∧
    ∃ rev', revised rev.record v = .ok rev' ∧ rev'.polled = none
  creates : ∀ n v record, created n v = .ok record → record.upstreamId = upstream v ∧
    (record.sourceId = source → ∃ rev, revised record v = .ok rev ∧ rev.polled = none)

variable {source : SourceId}

theorem outcome_some {n : Nat} {v : α} {p : PolledRecord} (hs : Settles source upstream revised created)
    (h : outcome known upstream revised created n v = .ok (some p)) : p.record.upstreamId = upstream v ∧
      (p.record.sourceId = source → ∃ rev, revised p.record v = .ok rev ∧ rev.polled = none) := by
  unfold outcome at h
  cases hknown : known (upstream v) with
  | some existing =>
    rw [hknown] at h
    obtain ⟨rev, hrev, hpolled⟩ := except_map_ok.1 h
    obtain ⟨-, hupstream, hagain⟩ := hs.revises _ _ _ (mapError_ok.1 hrev)
    have hrecord : p.record = rev.record := by
      unfold RecordRevision.polled at hpolled
      split at hpolled <;> cases hpolled <;> rfl
    rw [hrecord]
    exact ⟨hupstream, fun _ => hagain⟩
  | none =>
    rw [hknown] at h
    obtain ⟨record, hrecord, hp⟩ := except_map_ok.1 h
    cases hp
    exact hs.creates _ _ _ (mapError_ok.1 hrecord)

/-- An item that emits nothing is about a known record. -/
theorem outcome_none {created' : Nat → α → Except ModelError SourceRecord} {n m : Nat} {v : α}
    (h : outcome known upstream revised created n v = .ok none) (hknown : known' (upstream v) = known (upstream v)) :
    outcome known' upstream revised created' m v = .ok none := by
  unfold outcome at h ⊢
  rw [hknown]
  cases hv : known (upstream v) with
  | some existing =>
    rw [hv] at h
    exact h
  | none =>
    rw [hv] at h
    obtain ⟨record, -, hp⟩ := except_map_ok.1 h
    cases hp

/-- The stored records after a list of records was committed. -/
structure Stored (known known' : String → Option SourceRecord) (records : List PolledRecord) : Prop where
  committed : ∀ p ∈ records, known' p.record.upstreamId = some p.record
  other : ∀ u, (∀ p ∈ records, p.record.upstreamId ≠ u) → known' u = known u

theorem Stored.append {known'' : String → Option SourceRecord} {records records' : List PolledRecord}
    (h : Stored known known' records) (h' : Stored known' known'' records')
    (hapart : ∀ p ∈ records, ∀ p' ∈ records', p'.record.upstreamId ≠ p.record.upstreamId) :
    Stored known known'' (records ++ records') := by
  constructor
  · intro p hp
    rcases List.mem_append.1 hp with hp | hp
    · rw [h'.other _ (hapart p hp)]
      exact h.committed p hp
    · exact h'.committed p hp
  · intro u hu
    rw [h'.other u fun p hp => hu p (List.mem_append_right _ hp)]
    exact h.other u fun p hp => hu p (List.mem_append_left _ hp)

/-- The same items again, over the records that they emitted, emit nothing. -/
theorem polledRecords_again (hs : Settles source upstream revised created) {created' : Nat → α → Except ModelError SourceRecord}
    {values : List α} {records : List PolledRecord}
    (h : polledRecords upstream duplicate known revised created [] 0 values = .ok records)
    (hsource : ∀ p ∈ records, p.record.sourceId = source) (hstored : Stored known known' records) :
    polledRecords upstream duplicate known' revised created' [] 0 values = .ok [] := by
  obtain ⟨hnodup, hfresh, outs, houts, rfl⟩ := polledRecords_ok h
  refine polledRecords_nothing hnodup hfresh fun e he => ?_
  obtain ⟨out, hout, houtcome⟩ := (forall₂_mem houts).1 e he
  cases out with
  | some p =>
    have hp : p ∈ outs.reduceOption := List.reduceOption_mem_iff.2 hout
    obtain ⟨hupstream, hagain⟩ := outcome_some hs houtcome
    obtain ⟨rev, hrev, hpolled⟩ := hagain (hsource p hp)
    have hcommitted := hstored.committed p hp
    rw [hupstream] at hcommitted
    unfold outcome
    rw [hcommitted]
    exact except_map_ok.2 ⟨rev, mapError_ok.2 hrev, hpolled⟩
  | none =>
    refine outcome_none houtcome (hstored.other _ fun p hp heq => ?_)
    have hp' : some p ∈ outs := List.reduceOption_mem_iff.1 hp
    obtain ⟨e', he', houtcome'⟩ := (forall₂_mem houts).2 (some p) hp'
    have hsame : e' = e := by
      have hinj : (values.zipIdx.map fun e => upstream e.1).Nodup := by
        have hfst : (values.zipIdx.map fun e => upstream e.1) = values.map upstream := by
          rw [show (fun e : α × Nat => upstream e.1) = upstream ∘ Prod.fst from rfl, ← List.map_map, List.zipIdx_map_fst]
        rw [hfst]
        exact hnodup
      refine List.inj_on_of_nodup_map hinj he' he ?_
      rw [← heq]
      exact (outcome_some hs houtcome').1.symm
    rw [hsame, houtcome] at houtcome'
    cases houtcome'

end

/-! ## Answers -/

section
variable (P : Platform) (kind : SourceKind) (source : SourceId)

/-- `revise_from_dropbox_listing` or `revise_from_record`. -/
def reviseCollected (existing v : SourceRecord) : Except ModelError RecordRevision :=
  if kind = .builtIn .dropbox then existing.reviseFromDropboxListing v else existing.reviseFromRecord v

/-- The records that the loop makes of an answer. -/
def Response.polled (known : String → Option SourceRecord) (newRecord : Nat → SourceRecordId) :
    Response → Except IngestError (List PolledRecord)
  | .parsed values => polledRecords ParsedRecord.upstreamId "duplicate upstream identity in feed response" known
      (fun existing v => existing.revise P.parseUrl v)
      (fun n v => SourceRecord.fromParsed P.parseUrl (newRecord n) source v) [] 0 values
  | .collected values => polledRecords SourceRecord.upstreamId "duplicate upstream identity in collection" known
      (reviseCollected kind) (fun _ v => .ok v) [] 0 values

/-- The content that a collected record proposes for a stored one. -/
def SourceRecord.proposed (r v : SourceRecord) : RecordContent :=
  if kind = .builtIn .dropbox then r.listed v else v.content

/-- The items of an answer and what each emits: a new item its record, the item of a stored record what revises it. -/
def Response.Emits (known : String → Option SourceRecord) : Response → List (Option PolledRecord) → Prop
  | .parsed values, outs => List.Forall₂ (fun v out => match known v.upstreamId with
      | none => ∃ record, out = some { record, action := .deliver } ∧ record.upstreamId = v.upstreamId ∧
          record.sourceId = source ∧ record.content = v.content P.parseUrl source ∧ record.revision = 0
      | some r => Revises r (v.content P.parseUrl r.sourceId) out) values outs
  | .collected values, outs => List.Forall₂ (fun v out => match known v.upstreamId with
      | none => out = some { record := v, action := .deliver }
      | some r => Revises r (r.proposed kind v) out) values outs

end

variable {P : Platform} {kind : SourceKind} {source : SourceId} {known known' : String → Option SourceRecord}

theorem reviseCollected_ok {r v : SourceRecord} {rev : RecordRevision} (h : reviseCollected kind r v = .ok rev) :
    v.upstreamId = r.upstreamId ∧ v.sourceId = r.sourceId ∧
      rev = { record := r.withContent (r.proposed kind v),
              effect := SourceRecord.revisionEffect r (r.withContent (r.proposed kind v)) } := by
  unfold reviseCollected at h
  unfold SourceRecord.proposed
  split at h
  · rename_i hkind
    rw [if_pos hkind]
    exact (reviseFromDropboxListing_ok.1 h).2
  · rename_i hkind
    rw [if_neg hkind]
    exact reviseFromRecord_ok.1 h

theorem revise_settles (newRecord : Nat → SourceRecordId) : Settles source ParsedRecord.upstreamId
    (fun existing v => existing.revise P.parseUrl v)
    (fun n v => SourceRecord.fromParsed P.parseUrl (newRecord n) source v) := by
  constructor
  · intro r v rev hrev
    obtain ⟨hupstream, rfl⟩ := revise_ok.1 hrev
    refine ⟨hupstream.symm, hupstream.symm, _, revise_ok.2 ⟨hupstream, rfl⟩, ?_⟩
    exact (revises_polled _ _).none rfl
  · intro n v record hrecord
    obtain ⟨hupstream, -, hcontent, -⟩ := fromParsed_ok hrecord
    refine ⟨hupstream, fun hsource => ⟨_, revise_ok.2 ⟨hupstream.symm, rfl⟩, ?_⟩⟩
    refine (revises_polled _ _).none ?_
    rw [hsource]
    exact hcontent

theorem reviseCollected_settles :
    Settles source SourceRecord.upstreamId (reviseCollected kind) (fun _ v => .ok v) := by
  by_cases hkind : kind = .builtIn .dropbox
  · have hrevise : ∀ r v, reviseCollected kind r v = r.reviseFromDropboxListing v := fun r v => if_pos hkind
    constructor
    · intro r v rev hrev
      rw [hrevise] at hrev
      obtain ⟨hdays, hupstream, hsource, rfl⟩ := reviseFromDropboxListing_ok.1 hrev
      have hagain := reviseFromDropboxListing_ok.2 ⟨hdays.again, hupstream, hsource, rfl⟩
      refine ⟨hupstream.symm, hupstream.symm, _, (hrevise _ _).trans hagain, (revises_polled _ _).none ?_⟩
      rw [listed_again]
      rfl
    · intro n v record hrecord
      cases hrecord
      have hagain := reviseFromDropboxListing_ok.2 ⟨(listed_self v).1, rfl, rfl, rfl⟩
      refine ⟨rfl, fun _ => ⟨_, (hrevise _ _).trans hagain, (revises_polled _ _).none ?_⟩⟩
      rw [(listed_self v).2]
  · have hrevise : ∀ r v, reviseCollected kind r v = r.reviseFromRecord v := fun r v => if_neg hkind
    constructor
    · intro r v rev hrev
      rw [hrevise] at hrev
      obtain ⟨hupstream, hsource, rfl⟩ := reviseFromRecord_ok.1 hrev
      have hagain := (reviseFromRecord_ok (r := r.withContent v.content)).2 ⟨hupstream, hsource, rfl⟩
      exact ⟨hupstream.symm, hupstream.symm, _, (hrevise _ _).trans hagain, (revises_polled _ _).none rfl⟩
    · intro n v record hrecord
      cases hrecord
      have hagain := (reviseFromRecord_ok (r := v) (v := v)).2 ⟨rfl, rfl, rfl⟩
      exact ⟨rfl, fun _ => ⟨_, (hrevise _ _).trans hagain, (revises_polled _ _).none rfl⟩⟩

/-- The same answer again, over the records that it has made. -/
theorem Response.polled_again {newRecord newRecord' : Nat → SourceRecordId} {response : Response}
    {records : List PolledRecord} (h : response.polled P kind source known newRecord = .ok records)
    (hsource : ∀ p ∈ records, p.record.sourceId = source) (hstored : Stored known known' records) :
    response.polled P kind source known' newRecord' = .ok [] := by
  cases response with
  | parsed values => exact polledRecords_again (revise_settles newRecord) h hsource hstored
  | collected values => exact polledRecords_again reviseCollected_settles h hsource hstored

theorem forall₂_zipIdx {α β : Type} {R : α × Nat → β → Prop} {S : α → β → Prop} {xs : List α} {ys : List β} {n : Nat}
    (h : List.Forall₂ R (xs.zipIdx n) ys) (hR : ∀ e y, R e y → S e.1 y) : List.Forall₂ S xs ys := by
  have hfst := List.forall₂_map_left_iff.2 (h.imp hR)
  rwa [List.zipIdx_map_fst] at hfst

theorem Response.polled_emits {newRecord : Nat → SourceRecordId} {response : Response} {records : List PolledRecord}
    (h : response.polled P kind source known newRecord = .ok records) :
    ∃ outs, response.Emits P kind source known outs ∧ outs.reduceOption = records := by
  cases response with
  | parsed values =>
    obtain ⟨-, -, outs, houts, rfl⟩ := polledRecords_ok h
    refine ⟨outs, forall₂_zipIdx houts fun e out hout => ?_, rfl⟩
    unfold outcome at hout
    cases hknown : known e.1.upstreamId with
    | none =>
      rw [hknown] at hout
      obtain ⟨record, hrecord, rfl⟩ := except_map_ok.1 hout
      obtain ⟨hupstream, hsource, hcontent, hrevision⟩ := fromParsed_ok (mapError_ok.1 hrecord)
      exact ⟨record, rfl, hupstream, hsource, hcontent, hrevision⟩
    | some r =>
      rw [hknown] at hout
      obtain ⟨rev, hrev, rfl⟩ := except_map_ok.1 hout
      obtain ⟨-, rfl⟩ := revise_ok.1 (mapError_ok.1 hrev)
      exact revises_polled _ _
  | collected values =>
    obtain ⟨-, -, outs, houts, rfl⟩ := polledRecords_ok h
    refine ⟨outs, forall₂_zipIdx houts fun e out hout => ?_, rfl⟩
    unfold outcome at hout
    cases hknown : known e.1.upstreamId with
    | none =>
      rw [hknown] at hout
      obtain ⟨record, hrecord, rfl⟩ := except_map_ok.1 hout
      cases hrecord
      rfl
    | some r =>
      rw [hknown] at hout
      obtain ⟨rev, hrev, rfl⟩ := except_map_ok.1 hout
      obtain ⟨-, -, rfl⟩ := reviseCollected_ok (mapError_ok.1 hrev)
      exact revises_polled _ _

/-! ## The stored records after a commit -/

section
open Tx
variable {db db' : Db} {c : PollCommit}

theorem enqueueWork_identity (id : JobId) (item : WorkItem) (t : Int) :
    Keeps Db.sourceRecordIdentity (enqueueWork id item t) :=
  enqueueWork_keeps (fun _ _ _ => rfl) id item t

theorem commitRecord_identity {observedAtMs nowMs : Int} {p : PolledRecord} {u : Unit}
    (h : commitRecord observedAtMs nowMs p db = .ok (u, db')) :
    db'.sourceRecordIdentity = db.sourceRecordIdentity.insert (p.record.sourceId, p.record.upstreamId)
      { recordId := p.record.id, observedAtMs, document := p.record } := by
  unfold commitRecord at h
  obtain ⟨_, -, h⟩ := (bind_ok_of_reads (toI64_keeps _ _)).1 h
  obtain ⟨_, d, h₁, h⟩ := bind_ok.1 h
  cases h₁
  obtain ⟨_, d', h₂, h⟩ := bind_ok.1 h
  have k₂ := keeps_onlyIf (p := p.action.fansOut = true) (enqueueWork_identity (.record .fanout p.record.id p.record.revision)
    (.fanOut p.record.sourceId p.record.id none) nowMs) _ _ _ h₂
  have k₃ : db'.sourceRecordIdentity = d'.sourceRecordIdentity := by
    cases hurl : p.record.key.location.fetchUrl with
    | some url =>
      rw [hurl] at h
      exact enqueueWork_identity _ _ _ _ _ _ h
    | none =>
      rw [hurl] at h
      cases h
      rfl
  rw [k₃, k₂]

theorem commitLoop_stored {source : SourceId} {observedAtMs nowMs : Int} {ps : List PolledRecord} {u : Unit}
    (hsource : ∀ p ∈ ps, p.record.sourceId = source) (hnodup : (ps.map (·.record.upstreamId)).Nodup)
    (h : loop (fun _ p => commitRecord observedAtMs nowMs p) () ps db = .ok (u, db')) :
    Stored (db.recordByUpstream source) (db'.recordByUpstream source) ps := by
  induction ps generalizing db with
  | nil =>
    cases h
    exact ⟨fun _ hp => absurd hp List.not_mem_nil, fun _ _ => rfl⟩
  | cons p ps ih =>
    rw [List.forall_mem_cons] at hsource
    rw [List.map_cons, List.nodup_cons] at hnodup
    rw [loop] at h
    obtain ⟨_, d, h₁, h₂⟩ := bind_ok.1 h
    have hfirst : Stored (db.recordByUpstream source) (d.recordByUpstream source) [p] := by
      have hlookup : ∀ u, d.recordByUpstream source u =
          if p.record.upstreamId = u then some p.record else db.recordByUpstream source u := by
        intro u
        unfold Db.recordByUpstream
        rw [commitRecord_identity h₁, Table.lookup_insert_if, hsource.1]
        by_cases hu : p.record.upstreamId = u
        · rw [if_pos hu, if_pos (by rw [hu])]
          rfl
        · rw [if_neg hu, if_neg fun heq => hu (Prod.mk.inj heq).2.symm]
      constructor
      · intro q hq
        rw [List.mem_singleton.1 hq, hlookup, if_pos rfl]
      · intro u hu
        rw [hlookup, if_neg (hu p List.mem_cons_self)]
    refine hfirst.append (ih hsource.2 hnodup.2 h₂) fun q hq q' hq' heq => ?_
    rw [List.mem_singleton.1 hq] at heq
    exact hnodup.1 (by rw [← heq]; exact List.mem_map_of_mem hq')

theorem persistBacklog_identity : Keeps Db.sourceRecordIdentity (persistBacklog c) := by
  refine keeps_bind (keeps_require _ _) fun _ => keeps_bind (keeps_require _ _) fun _ => ?_
  refine keeps_bind (keeps_loop (fun _ entry => ?_) _ _) fun _ => keeps_loop (fun _ p => ?_) _ _
  · exact keeps_bind keeps_get fun _ => keeps_bind (keeps_require _ _) fun _ => keeps_modify fun _ => rfl
  · exact keeps_bind keeps_get fun _ => keeps_bind (keeps_modify fun _ => rfl) fun _ => keeps_require _ _

theorem persistBacklog_identities {u : Unit} (h : persistBacklog c db = .ok (u, db')) : c.identitiesOk := by
  unfold persistBacklog at h
  obtain ⟨-, h⟩ := bind_require_ok.1 h
  exact (bind_require_ok.1 h).1

theorem commitPoll_identities {lease : LeasedWork} {now : DateTime} {u : Unit}
    (h : commitPoll lease now c db = .ok (u, db')) : c.identitiesOk := by
  obtain ⟨⟨d, d', hp, -⟩, -⟩ := commitPoll_ok h
  exact persistBacklog_identities hp

theorem commitPoll_stored {lease : LeasedWork} {now : DateTime} {u : Unit}
    (h : commitPoll lease now c db = .ok (u, db')) :
    Stored (db.recordByUpstream c.sourceId) (db'.recordByUpstream c.sourceId) c.records := by
  obtain ⟨hsource, hnodup⟩ := commitPoll_identities h
  rw [List.map_append] at hnodup
  unfold commitPoll at h
  obtain ⟨_, -, h⟩ := (bind_ok_of_reads (assertLease_keeps _ _)).1 h
  obtain ⟨_, d₁, h₁, h⟩ := bind_ok.1 h
  obtain ⟨_, d₂, h₂, h⟩ := bind_ok.1 h
  obtain ⟨_, d₃, h₃, h⟩ := bind_ok.1 h
  obtain ⟨_, d₄, h₄, h⟩ := bind_ok.1 h
  obtain ⟨_, d₅, h₅, h⟩ := bind_ok.1 h
  obtain ⟨_, d₆, h₆, h⟩ := bind_ok.1 h
  have hstored := commitLoop_stored (fun p hp => hsource p (List.mem_append_left _ hp)) hnodup.of_append_left h₃
  have hbegin : Keeps Db.sourceRecordIdentity (beginPoll c) :=
    keeps_bind (keeps_require _ _) fun _ => keeps_modify fun _ => rfl
  have hcontinue : Keeps Db.sourceRecordIdentity (enqueueContinuation c (millis now)) :=
    keeps_ite (keeps_bind (keeps_orThrow _ _) fun _ => enqueueWork_identity _ _ _) (keeps_pure _)
  have k₂ : d₂.sourceRecordIdentity = db.sourceRecordIdentity :=
    (persistBacklog_identity _ _ _ h₂).trans (hbegin _ _ _ h₁)
  have k₆ : d₆.sourceRecordIdentity = d₃.sourceRecordIdentity := by
    cases h₄
    cases h₅
    have hactivity := recordSubscriptionActivity_keeps (f := Db.sourceRecordIdentity) (fun _ _ => rfl) _ _ _ _ _ _ _ _ _ h₆
    exact hactivity
  have k' : db'.sourceRecordIdentity = d₃.sourceRecordIdentity := (hcontinue _ _ _ h).trans k₆
  have hbefore : d₂.recordByUpstream c.sourceId = db.recordByUpstream c.sourceId := by
    funext u
    unfold Db.recordByUpstream
    rw [k₂]
  have hafter : db'.recordByUpstream c.sourceId = d₃.recordByUpstream c.sourceId := by
    funext u
    unfold Db.recordByUpstream
    rw [k']
  rw [← hbefore, hafter]
  exact hstored

/-- Inserting the deferred records keeps each of them as its row. -/
theorem insertLoop_lookup {ps : List PolledRecord} {k : Nat} {u : Unit}
    (h : loop (fun _ entry => insertBacklog c entry) () (ps.zipIdx k) db = .ok (u, db')) :
    (∀ p ∈ ps, ∃ row, db'.pollBacklog.lookup (c.sourceId, p.record.id) = some row ∧ row.record = p.record) ∧
      ∀ key row, db.pollBacklog.lookup key = some row → db'.pollBacklog.lookup key = some row := by
  induction ps generalizing db k with
  | nil =>
    cases h
    exact ⟨fun _ hp => absurd hp List.not_mem_nil, fun _ _ hrow => hrow⟩
  | cons p ps ih =>
    rw [List.zipIdx_cons, loop] at h
    obtain ⟨_, d, h₁, h₂⟩ := bind_ok.1 h
    obtain ⟨hnew, rfl⟩ := insertBacklog_ok h₁
    obtain ⟨hrest, hkept⟩ := ih h₂
    refine ⟨List.forall_mem_cons.2 ⟨⟨c.row (p, k), hkept _ _ ?_, rfl⟩, hrest⟩, fun key row hrow => hkept key row ?_⟩
    · rw [Table.lookup_insert_if, if_pos rfl]
    · rw [Table.lookup_insert_if, if_neg]
      · exact hrow
      · rintro rfl
        rw [hnew] at hrow
        cases hrow

/-- A record that is deferred is not taken out of the backlog by another one. -/
theorem removeLoop_apart {ps : List PolledRecord} {r : SourceRecordId} {row : BacklogRow} {u : Unit}
    (hrow : db.pollBacklog.lookup (c.sourceId, r) = some row) (hapart : ∀ p ∈ ps, p.record ≠ row.record)
    (h : loop (fun _ p => removeBacklog c p) () ps db = .ok (u, db')) : ∀ p ∈ ps, p.record.id ≠ r := by
  induction ps generalizing db with
  | nil => exact fun _ hp => absurd hp List.not_mem_nil
  | cons p ps ih =>
    rw [loop] at h
    obtain ⟨_, d, h₁, h₂⟩ := bind_ok.1 h
    rw [List.forall_mem_cons] at hapart
    have hne : p.record.id ≠ r := by
      rintro rfl
      unfold removeBacklog at h₁
      rw [bind_run, get_run] at h₁
      obtain ⟨_, d', hmodify, hrequire⟩ := bind_ok.1 h₁
      have hprior := (require_ok.1 hrequire).1
      rw [hrow, Option.all_some, decide_eq_true_eq] at hprior
      exact hapart.1 hprior.1.symm
    refine List.forall_mem_cons.2 ⟨hne, ih ?_ hapart.2 h₂⟩
    rw [removeBacklog_ok h₁]
    show (db.pollBacklog.erase (c.sourceId, p.record.id)).lookup (c.sourceId, r) = some row
    rw [Table.lookup_erase_if, if_neg fun heq => hne (Prod.mk.inj heq).2.symm]
    exact hrow

/-- The records of a commit and those that it defers have different ids. -/
theorem commitPoll_apart {lease : LeasedWork} {now : DateTime} {u : Unit}
    (h : commitPoll lease now c db = .ok (u, db')) : ∀ p ∈ c.remainder, p.record.id ∉ c.records.map (·.record.id) := by
  obtain ⟨⟨d, d', hp, -⟩, -⟩ := commitPoll_ok h
  obtain ⟨-, hnodup⟩ := persistBacklog_identities hp
  rw [List.map_append] at hnodup
  unfold persistBacklog at hp
  obtain ⟨-, hp⟩ := bind_require_ok.1 hp
  obtain ⟨-, hp⟩ := bind_require_ok.1 hp
  obtain ⟨_, d₁, hinsert, hremove⟩ := bind_ok.1 hp
  intro p hpmem hid
  obtain ⟨q, hq, hqid⟩ := List.mem_map.1 hid
  obtain ⟨row, hrow, hrecord⟩ := (insertLoop_lookup hinsert).1 p hpmem
  refine removeLoop_apart hrow (fun q' hq' heq => ?_) hremove q hq hqid
  rw [hrecord] at heq
  exact (List.nodup_append.1 hnodup).2.2 _ (List.mem_map_of_mem hq') _ (List.mem_map_of_mem hpmem) (by rw [heq])

/-- Without a pending batch there is no row. -/
theorem backlogIs_nil {source : SourceId} {limit : Nat} (h : pendingPoll source limit db = .ok (none, db)) :
    BacklogIs db source [] := by
  have hempty : db.backlog source = [] := by
    unfold pendingPoll at h
    obtain ⟨-, h⟩ := bind_require_ok.1 h
    obtain ⟨-, h⟩ := bind_require_ok.1 h
    rw [bind_run, get_run] at h
    cases hrows : db.backlog source with
    | nil => rfl
    | cons first rest =>
      simp only [hrows, List.take_succ_cons] at h
      obtain ⟨-, h⟩ := bind_require_ok.1 h
      obtain ⟨-, h⟩ := bind_require_ok.1 h
      cases h
  refine ⟨List.Pairwise.nil, fun r row => ⟨fun hrow => ?_, fun hrow => absurd hrow.1 List.not_mem_nil⟩⟩
  have hmem : row ∈ db.backlog source := by
    unfold Db.backlog
    rw [List.mem_insertionSort, List.mem_map]
    exact ⟨_, List.mem_filter.2 ⟨Table.mem_rows.2 hrow, by simp⟩, rfl⟩
  rw [hempty] at hmem
  exact absurd hmem List.not_mem_nil

end

/-! ## Runs -/

section
variable {parsers : Collectors} {limits : IngestLimits} {w w' : Collector} {remote : Remote} {lease : LeasedWork}
  {response : Response} {c : PollCommit}

/-- A run that commits the records of an answer. -/
structure Answers (P : Platform) (limits : IngestLimits) (source : SourceId) (remote : Remote) (w w' : Collector)
    (response : Response) (c : PollCommit) : Prop where
  sourceId : c.sourceId = source
  pending : pendingPoll source limits.fanoutBatch w.db = .ok (none, w.db)
  polled : ∃ definition, w.db.sources.lookup source = some definition ∧
    response.polled P definition.kind source (w.db.recordByUpstream source) remote.newRecord =
      .ok (c.records ++ c.remainder)
  commit : ∃ lease clock, commitPoll lease clock c w.db = .ok ((), w'.db)

theorem not_answered (hsame : w'.commits = w.commits) (hc : w'.commits = w.commits ++ [(some response, c)]) : False :=
  append_singleton_ne (hsame.symm.trans hc)

theorem commit_answers {response' : Response} {c' : PollCommit} {clock : DateTime} {r : Except IngestError Unit}
    (h : Collector.commit (some response') lease clock c' w.requested = (r, w'))
    (hc : w'.commits = w.commits ++ [(some response, c)]) :
    response' = response ∧ c' = c ∧ commitPoll lease clock c w.db = .ok ((), w'.db) := by
  rcases commit_cases h with ⟨rfl, -⟩ | ⟨-, hcommit, hcommits, -⟩
  · exact (not_answered rfl hc).elim
  · have heq := List.append_cancel_left (hcommits.symm.trans hc)
    cases heq
    exact ⟨rfl, rfl, hcommit⟩

theorem sourceById_ok {definition : SourceDefinition} (h : Collector.store (sourceById source) w = (.ok definition, w)) :
    w.db.sources.lookup source = some definition := by
  have h : Tx.orThrow (w.db.sources.lookup source) StoreError.notFound w.db = .ok (definition, w.db) := (store_ok h).1
  cases hlookup : w.db.sources.lookup source with
  | none =>
    rw [hlookup] at h
    cases h
  | some found =>
    rw [hlookup] at h
    cases h
    rfl

theorem fetchFeed_answers {r : Except IngestError Unit}
    (hp : pendingPoll source limits.fanoutBatch w.db = .ok (none, w.db))
    (h : fetchFeed P parsers limits lease source remote w = (r, w'))
    (hc : w'.commits = w.commits ++ [(some response, c)]) : Answers P limits source remote w w' response c := by
  unfold fetchFeed at h
  rcases Proc.bind_of_reads (store_reads (sourceById_reads source) w) h with ⟨rfl, -⟩ | ⟨definition, hdefinition, h⟩
  · exact (not_answered rfl hc).elim
  rcases Proc.bind_of_reads (m := Collector.read _) rfl h with ⟨rfl, -⟩ | ⟨validators, -, h⟩
  · exact (not_answered rfl hc).elim
  rcases Proc.bind_eq.1 h with ⟨e, he, rfl⟩ | ⟨page, w₁, hpage, h⟩
  · obtain rfl : w.requested = w' := (Prod.mk.inj he).2
    exact (not_answered rfl hc).elim
  obtain rfl : w.requested = w₁ := (Prod.mk.inj hpage).2
  rcases require_cases h with ⟨rfl, -⟩ | ⟨-, h⟩
  · exact (not_answered rfl hc).elim
  split at h
  · rcases require_cases h with ⟨rfl, -⟩ | ⟨-, h⟩
    · exact (not_answered rfl hc).elim
    refine (not_answered ?_ hc).elim
    unfold Collector.store at h
    split at h <;> rw [← (Prod.mk.inj h).2] <;> rfl
  · rcases Proc.bind_of_reads (m := Proc.ofExcept _) rfl h with ⟨rfl, -⟩ | ⟨parsed, -, h⟩
    · exact (not_answered rfl hc).elim
    rcases Proc.bind_of_reads (m := Collector.read _) rfl h with ⟨rfl, -⟩ | ⟨isInitial, -, h⟩
    · exact (not_answered rfl hc).elim
    rcases Proc.bind_of_reads (m := Collector.read _) rfl h with ⟨rfl, -⟩ | ⟨known', hknown, h⟩
    · exact (not_answered rfl hc).elim
    rcases Proc.bind_of_reads (m := Proc.ofExcept _) rfl h with ⟨rfl, -⟩ | ⟨records, hrecords, h⟩
    · exact (not_answered rfl hc).elim
    rcases require_cases h with ⟨rfl, -⟩ | ⟨-, h⟩
    · exact (not_answered rfl hc).elim
    have hknown : known' = w.db.recordByUpstream source := (Except.ok.inj (Prod.mk.inj hknown).1).symm
    obtain ⟨rfl, rfl, hcommit⟩ := commit_answers h hc
    refine ⟨rfl, hp, ⟨definition, sourceById_ok hdefinition, ?_⟩, _, _, hcommit⟩
    rw [collectedCommit_records]
    rw [hknown] at hrecords
    exact (Prod.mk.inj hrecords).1

theorem collectPages_answers {r : Except IngestError Unit}
    (hp : pendingPoll source limits.fanoutBatch w.db = .ok (none, w.db))
    (h : collectPages limits lease source remote w = (r, w'))
    (hc : w'.commits = w.commits ++ [(some response, c)]) : Answers P limits source remote w w' response c := by
  unfold collectPages at h
  rcases require_cases h with ⟨rfl, -⟩ | ⟨-, h⟩
  · exact (not_answered rfl hc).elim
  rcases Proc.bind_of_reads (store_reads (sourceById_reads source) w) h with ⟨rfl, -⟩ | ⟨definition, hdefinition, h⟩
  · exact (not_answered rfl hc).elim
  rcases Proc.bind_of_reads (m := Collector.read _) rfl h with ⟨rfl, -⟩ | ⟨isInitial, -, h⟩
  · exact (not_answered rfl hc).elim
  rcases Proc.bind_eq.1 h with ⟨e, he, rfl⟩ | ⟨collected, w₁, hcollected, h⟩
  · obtain rfl : w.requested = w' := (Prod.mk.inj he).2
    exact (not_answered rfl hc).elim
  obtain rfl : w.requested = w₁ := (Prod.mk.inj hcollected).2
  rcases require_cases h with ⟨rfl, -⟩ | ⟨-, h⟩
  · exact (not_answered rfl hc).elim
  rcases Proc.bind_of_reads (m := Collector.read _) rfl h with ⟨rfl, -⟩ | ⟨known, hknown, h⟩
  · exact (not_answered rfl hc).elim
  rcases Proc.bind_of_reads (m := Proc.ofExcept _) rfl h with ⟨rfl, -⟩ | ⟨records, hrecords, h⟩
  · exact (not_answered rfl hc).elim
  rcases require_cases h with ⟨rfl, -⟩ | ⟨-, h⟩
  · exact (not_answered rfl hc).elim
  have hknown : known = w.db.recordByUpstream source := (Except.ok.inj (Prod.mk.inj hknown).1).symm
  obtain ⟨rfl, rfl, hcommit⟩ := commit_answers h hc
  refine ⟨rfl, hp, ⟨definition, sourceById_ok hdefinition, ?_⟩, _, _, hcommit⟩
  rw [collectedCommit_records]
  rw [hknown] at hrecords
  exact (Prod.mk.inj hrecords).1

/-- Draining the backlog commits no answer. -/
theorem drainBacklog_commits {r : Except IngestError Bool} (h : drainBacklog limits lease source remote w = (r, w')) :
    w'.commits = w.commits ∨ ∃ c, w'.commits = w.commits ++ [(none, c)] := by
  unfold drainBacklog at h
  rcases Proc.bind_of_reads (store_reads (activeDeliveryCount_reads source) w) h with ⟨rfl, -⟩ | ⟨active, -, h⟩
  · exact .inl rfl
  split at h
  · obtain ⟨-, rfl⟩ := Proc.pure_eq.1 h
    exact .inl rfl
  rcases Proc.bind_of_reads (store_reads (pendingPoll_reads source _) w) h with ⟨rfl, -⟩ | ⟨pending, -, h⟩
  · exact .inl rfl
  cases pending with
  | none =>
    obtain ⟨-, rfl⟩ := Proc.pure_eq.1 h
    exact .inl rfl
  | some c =>
    have hcommits : ∀ {r : Except IngestError Unit} {w' : Collector},
        Collector.commit none lease remote.clock c w = (r, w') →
          w'.commits = w.commits ∨ ∃ c, w'.commits = w.commits ++ [(none, c)] := by
      intro r w' hcommit
      rcases commit_cases hcommit with ⟨rfl, -⟩ | ⟨-, -, hcommits, -⟩
      · exact .inl rfl
      · exact .inr ⟨c, hcommits⟩
    rcases Proc.bind_eq.1 h with ⟨e, he, -⟩ | ⟨_, w₁, hok, h⟩
    · exact hcommits he
    · obtain ⟨-, rfl⟩ := Proc.pure_eq.1 h
      exact hcommits hok

/-- A run that commits an answer had no backlog. -/
theorem drainBacklog_answers (P : Platform) {ask : EngineProc Unit} {r : Except IngestError Unit}
    (h : (do if ← drainBacklog limits lease source remote then pure () else ask : EngineProc Unit) w = (r, w'))
    (hc : w'.commits = w.commits ++ [(some response, c)]) :
    pendingPoll source limits.fanoutBatch w.db = .ok (none, w.db) ∧ ask w = (r, w') := by
  have hdrained : ∀ {r : Except IngestError Bool} {w' : Collector},
      drainBacklog limits lease source remote w = (r, w') → w'.commits ≠ w.commits ++ [(some response, c)] := by
    intro r w' hd hc
    rcases drainBacklog_commits hd with hsame | ⟨c', hc'⟩
    · exact not_answered hsame hc
    · cases List.append_cancel_left (hc'.symm.trans hc)
  rcases Proc.bind_eq.1 h with ⟨e, he, -⟩ | ⟨done, w₁, hd, hask⟩
  · exact absurd hc (hdrained he)
  · cases done with
    | true =>
      obtain ⟨-, rfl⟩ := Proc.pure_eq.1 hask
      exact absurd hc (hdrained hd)
    | false =>
      rcases drainBacklog_cases (P := P) hd with ⟨-, hne⟩ | ⟨rfl, -, hp⟩
      · exact absurd rfl hne
      · exact ⟨hp, hask⟩

theorem handleCollection_answers (hitem : lease.item.collectSource = some source)
    (hc : (handleCollection P parsers limits lease remote w).2.commits = w.commits ++ [(some response, c)]) :
    Answers P limits source remote w (handleCollection P parsers limits lease remote w).2 response c := by
  have hpoll : ∀ {r : Except IngestError Unit} {w' : Collector}, poll P parsers limits lease source remote w = (r, w') →
      w'.commits = w.commits ++ [(some response, c)] → Answers P limits source remote w w' response c := by
    intro r w' h hc
    obtain ⟨hp, h⟩ := drainBacklog_answers P h hc
    exact fetchFeed_answers hp h hc
  have hcollect : ∀ {r : Except IngestError Unit} {w' : Collector}, collectWebFeed limits lease source remote w = (r, w') →
      w'.commits = w.commits ++ [(some response, c)] → Answers P limits source remote w w' response c := by
    intro r w' h hc
    obtain ⟨hp, h⟩ := drainBacklog_answers P h hc
    exact collectPages_answers hp h hc
  have hdispatch : ∀ {r : Except IngestError Unit} {w' : Collector},
      (do
        let definition ← Collector.store (sourceById source)
        if definition.kind.isCollected then collectWebFeed limits lease source remote
        else poll P parsers limits lease source remote : EngineProc Unit) w = (r, w') →
      w'.commits = w.commits ++ [(some response, c)] → Answers P limits source remote w w' response c := by
    intro r w' h hc
    rcases Proc.bind_of_reads (store_reads (sourceById_reads source) w) h with ⟨rfl, -⟩ | ⟨definition, -, h⟩
    · exact (not_answered rfl hc).elim
    split at h
    · exact hcollect h hc
    · exact hpoll h hc
  unfold handleCollection at hc ⊢
  cases hi : lease.item with
  | pollSource s =>
    rw [hi] at hitem hc
    cases hitem
    exact hdispatch rfl hc
  | refreshSource s =>
    rw [hi] at hitem hc
    cases hitem
    exact hdispatch rfl hc
  | collectWebFeed s =>
    rw [hi] at hitem hc
    cases hitem
    exact hcollect rfl hc
  | _ =>
    rw [hi] at hitem
    cases hitem

/-- The step committed records of an answer. -/
def Collector.answered (w w' : Collector) : Bool := (w'.commits.drop w.commits.length).any (·.1.isSome)

def NoAnswer (P : Platform) (parsers : Collectors) (limits : IngestLimits) (source : SourceId) (w : Collector)
    (op : CollectOp) : Prop :=
  ((w.step P parsers limits source op).all fun w' => !w.answered w') = true

instance (P : Platform) (parsers : Collectors) (limits : IngestLimits) (source : SourceId) (w : Collector)
    (op : CollectOp) : Decidable (NoAnswer P parsers limits source w op) :=
  inferInstanceAs (Decidable (_ = true))

/-- Of the records of an answer the ones that are `done` are stored, and the others are deferred. -/
structure Settling (source : SourceId) (before : String → Option SourceRecord) (records done : List PolledRecord)
    (rows : List BacklogRow) (w : Collector) : Prop where
  backlog : BacklogIs w.db source rows
  parts : done ++ rows.map (·.polled) = records
  stored : Stored before (w.db.recordByUpstream source) done

section
variable {before : String → Option SourceRecord} {records done : List PolledRecord} {rows : List BacklogRow}

theorem Settling.congr (h : Settling source before records done rows w)
    (hbacklog : ∀ r, w'.db.pollBacklog.lookup (source, r) = w.db.pollBacklog.lookup (source, r))
    (hknown : ∀ u, w'.db.sourceRecordIdentity.lookup (source, u) = w.db.sourceRecordIdentity.lookup (source, u)) :
    Settling source before records done rows w' := by
  have hsame : w'.db.recordByUpstream source = w.db.recordByUpstream source := by
    funext u
    unfold Db.recordByUpstream
    rw [hknown]
  exact ⟨h.backlog.congr hbacklog, h.parts, by rw [hsame]; exact h.stored⟩

/-- The first batch of the backlog becomes stored. -/
theorem Settling.drain {clock : DateTime} (h : Settling source before records done rows w)
    (hnodup : (records.map (·.record.upstreamId)).Nodup)
    (hp : pendingPoll source limits.fanoutBatch w.db = .ok (some c, w.db))
    (hc : commitPoll lease clock c w.db = .ok ((), w'.db)) :
    Settling source before records (done ++ c.records) (rows.drop limits.fanoutBatch) w' := by
  obtain ⟨-, ⟨-, hnone⟩ | ⟨-, -, c', hc', rfl, hrecords, hremainder, -⟩⟩ := pendingPoll_ok h.backlog hp
  · cases hnone
  cases hc'
  have hparts : done ++ (c.records ++ (rows.drop limits.fanoutBatch).map (·.polled)) = records := by
    rw [hrecords, ← List.map_append, List.take_append_drop]
    exact h.parts
  refine ⟨h.backlog.commit_drains hremainder hrecords hc, ?_, h.stored.append (commitPoll_stored hc) ?_⟩
  · rw [List.append_assoc]
    exact hparts
  · rw [← hparts, List.map_append, List.map_append] at hnodup
    intro p hp p' hp' heq
    refine (List.nodup_append.1 hnodup).2.2 _ (List.mem_map_of_mem hp) _ ?_ heq.symm
    exact List.mem_append_left _ (List.mem_map_of_mem hp')

theorem Settling.step {op : CollectOp} (h : Settling source before records done rows w)
    (hnodup : (records.map (·.record.upstreamId)).Nodup) (hno : NoAnswer P parsers limits source w op)
    (hstep : w.step P parsers limits source op = some w') :
    ∃ done rows, Settling source before records done rows w' := by
  unfold NoAnswer at hno
  rw [hstep, Option.all_some] at hno
  cases op with
  | other db =>
    simp only [Collector.step] at hstep
    split at hstep
    · rename_i hk
      cases hstep
      exact ⟨done, rows, h.congr (fun r => hk.1.lookup (by simp)) fun u => hk.2.2.1.lookup (by simp)⟩
    · cases hstep
  | run lease remote =>
    simp only [Collector.step] at hstep
    split at hstep
    · rename_i hitem
      cases hstep
      have heffect : CollectEffect P limits source remote w (handleCollection P parsers limits lease remote w).2 :=
        handleCollection_effect hitem
      rcases heffect with hidle | ⟨c', lease', clock, hp, hc, -, -⟩ | ⟨-, htables, -⟩ | ⟨response', c', -, -, -, -, hcommits, -⟩
      · rw [hidle]
        exact ⟨done, rows, h⟩
      · exact ⟨_, _, h.drain hnodup hp hc⟩
      · have hrows : (handleCollection P parsers limits lease remote w).2.db.pollBacklog = w.db.pollBacklog :=
          congrArg (·.1) htables
        have hids : (handleCollection P parsers limits lease remote w).2.db.sourceRecordIdentity =
            w.db.sourceRecordIdentity := congrArg (·.2.2.1) htables
        exact ⟨done, rows, h.congr (fun r => by rw [hrows]) fun u => by rw [hids]⟩
      · unfold Collector.answered at hno
        rw [hcommits, List.drop_left] at hno
        cases hno
    · cases hstep

theorem Answers.settling (h : Answers P limits source remote w w' response c) :
    Settling source (w.db.recordByUpstream source) (c.records ++ c.remainder) c.records c.deferred w' := by
  obtain ⟨rfl, hpending, -, lease, clock, hcommit⟩ := h
  refine ⟨(backlogIs_nil hpending).commit_defers (commitPoll_apart hcommit) hcommit, ?_, commitPoll_stored hcommit⟩
  rw [deferred_polled]

end

end

/-- An answer emits a record for each item that is new or differs from its stored record. Once these records are
stored, the deferred ones too, the same answer emits nothing and a run that gets it commits nothing. -/
theorem response_emits_once (P : Platform) (parsers : Collectors) (limits : IngestLimits) (source : SourceId) :
    (∀ kind known newRecord (response : Response) records,
      response.polled P kind source known newRecord = .ok records →
        ∃ outs, response.Emits P kind source known outs ∧ outs.reduceOption = records) ∧
    ∀ (w w₁ w₂ : Collector) lease remote response c ops,
      w.step P parsers limits source (.run lease remote) = some w₁ →
      w₁.commits = w.commits ++ [(some response, c)] →
      Along (Collector.step P parsers limits source) (NoAnswer P parsers limits source) w₁ ops →
      run (Collector.step P parsers limits source) w₁ ops = some w₂ → w₂.db.backlog source = [] →
      (w₂.db.sources.lookup source).map (·.kind) = (w.db.sources.lookup source).map (·.kind) →
      ∃ kind, (w.db.sources.lookup source).map (·.kind) = some kind ∧
        response.polled P kind source (w.db.recordByUpstream source) remote.newRecord =
          .ok (c.records ++ c.remainder) ∧
        (∀ newRecord, response.polled P kind source (w₂.db.recordByUpstream source) newRecord = .ok []) ∧
        ∀ lease' remote' w₃ c', w₂.step P parsers limits source (.run lease' remote') = some w₃ →
          w₃.commits = w₂.commits ++ [(some response, c')] → c'.records = [] ∧ c'.remainder = [] := by
  refine ⟨fun kind known newRecord response records h => Response.polled_emits h, ?_⟩
  intro w w₁ w₂ lease remote response c ops hstep hcommits halong hrun hbacklog hkind
  have hanswers : ∀ {w w' : Collector} {lease remote c}, w.step P parsers limits source (.run lease remote) = some w' →
      w'.commits = w.commits ++ [(some response, c)] → Answers P limits source remote w w' response c := by
    intro w w' lease remote c hstep hcommits
    simp only [Collector.step] at hstep
    split at hstep
    · rename_i hitem
      cases hstep
      exact handleCollection_answers hitem hcommits
    · cases hstep
  have hfirst := hanswers hstep hcommits
  obtain ⟨definition, hdefinition, hpolled⟩ := hfirst.polled
  obtain ⟨lease₀, clock₀, hcommit⟩ := hfirst.commit
  have hids := commitPoll_identities hcommit
  obtain ⟨done, rows, hsettled⟩ := run_inv
    (fun w => ∃ done rows, Settling source _ (c.records ++ c.remainder) done rows w)
    (fun _ _ _ h hno hstep => by
      obtain ⟨done, rows, h⟩ := h
      exact h.step hids.2 hno hstep) ⟨_, _, hfirst.settling⟩ halong hrun
  have hrows : rows = [] := by
    rw [← hsettled.backlog.backlog_eq]
    exact hbacklog
  have hdone : done = c.records ++ c.remainder := by
    rw [← hsettled.parts, hrows, List.map_nil, List.append_nil]
  have hagain : ∀ newRecord, response.polled P definition.kind source (w₂.db.recordByUpstream source) newRecord = .ok [] := by
    intro newRecord
    refine Response.polled_again hpolled (fun p hp => ?_) ?_
    · rw [hids.1 p hp, hfirst.sourceId]
    · rw [← hdone]
      exact hsettled.stored
  refine ⟨definition.kind, by rw [hdefinition]; rfl, hpolled, hagain, fun lease' remote' w₃ c' hstep' hcommits' => ?_⟩
  obtain ⟨definition', hdefinition', hpolled'⟩ := (hanswers hstep' hcommits').polled
  rw [hdefinition, hdefinition', Option.map_some, Option.map_some, Option.some.injEq] at hkind
  rw [hkind, hagain] at hpolled'
  exact List.append_eq_nil_iff.1 (Except.ok.inj hpolled').symm

deriving instance DecidableEq for Response

/-- Three items, of which two are deferred and drained. -/
theorem response_emits_once_three : ∃ w₂, (∃ w₁, Sample.collector.step Sample.platform Sample.threeItems Sample.oneByOne
      ⟨1⟩ (.run Sample.pollLease Sample.remote) = some w₁ ∧
    run (Collector.step Sample.platform Sample.threeItems Sample.oneByOne ⟨1⟩) w₁
      [.run Sample.pollLease Sample.remote, .run Sample.pollLease Sample.remote] = some w₂) ∧
    ∀ newRecord, (Response.parsed [Sample.item "a", Sample.item "b", Sample.item "c"]).polled Sample.platform .xmlFeed ⟨1⟩
      (w₂.db.recordByUpstream ⟨1⟩) newRecord = .ok [] := by
  let step := Collector.step Sample.platform Sample.threeItems Sample.oneByOne ⟨1⟩
  let op := CollectOp.run Sample.pollLease Sample.remote
  obtain ⟨w₁, hw₁⟩ : ∃ w₁, step Sample.collector op = some w₁ :=
    Option.isSome_iff_exists.1 (by decide +kernel)
  have hcommits : w₁.commits.map (·.1) = [some (.parsed [Sample.item "a", Sample.item "b", Sample.item "c"])] := by
    have h : (step Sample.collector op).map (fun w => w.commits.map (·.1)) =
        some [some (.parsed [Sample.item "a", Sample.item "b", Sample.item "c"])] := by decide +kernel
    rw [hw₁] at h
    exact Option.some.inj h
  obtain ⟨⟨response, c⟩, hcommit, hresponse⟩ := List.map_eq_singleton_iff.1 hcommits
  cases hresponse
  have halong : Along step (NoAnswer Sample.platform Sample.threeItems Sample.oneByOne ⟨1⟩) w₁ [op, op] := by
    have h : ((step Sample.collector op).all fun w =>
        decide (Along step (NoAnswer Sample.platform Sample.threeItems Sample.oneByOne ⟨1⟩) w [op, op])) = true := by
      decide +kernel
    rw [hw₁] at h
    simpa using h
  have hend : ((step Sample.collector op).bind fun w => run step w [op, op]).map
      (fun w => ((w.db.backlog ⟨1⟩).length, (w.db.sources.lookup ⟨1⟩).map (·.kind))) = some (0, some .xmlFeed) := by
    decide +kernel
  rw [hw₁, Option.bind_some] at hend
  obtain ⟨w₂, hw₂, hfacts⟩ := Option.map_eq_some_iff.1 hend
  have hlength : (w₂.db.backlog ⟨1⟩).length = 0 := congrArg (·.1) hfacts
  have hkind : (w₂.db.sources.lookup ⟨1⟩).map (·.kind) = some .xmlFeed := congrArg (·.2) hfacts
  have hbefore : (Sample.collector.db.sources.lookup ⟨1⟩).map (·.kind) = some .xmlFeed := by decide +kernel
  obtain ⟨kind, hkind', -, hagain, -⟩ := (response_emits_once Sample.platform Sample.threeItems Sample.oneByOne ⟨1⟩).2
    Sample.collector w₁ w₂ Sample.pollLease Sample.remote _ c [op, op] hw₁ hcommit halong hw₂
    (List.length_eq_zero_iff.1 hlength) (by rw [hkind, hbefore])
  rw [hbefore] at hkind'
  cases hkind'
  exact ⟨w₂, ⟨w₁, hw₁, hw₂⟩, hagain⟩

end Inoreader
