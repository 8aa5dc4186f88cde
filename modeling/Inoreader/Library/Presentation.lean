import Mathlib.Logic.Relation
import Inoreader.Ingest.Feed
import Inoreader.Lib.Lists
import Inoreader.Library.Links
import Inoreader.Library.Run
import Inoreader.Repository.Presentation
import Inoreader.Store.Jobs

/-!
# Which articles can be shown

A presentation puts together what the records of an article declare, and two records are put into one
article because of their keys alone. In every reachable library the declarations of the media type are
all that can stand against a presentation: it is refused exactly when two of them contradict each other.
-/

namespace Inoreader
open Lib Tx

/-- The record belongs to the article. -/
def Db.HoldsRecord (db : Db) (w : WorkspaceId) (i : ArticleId) (r : SourceRecordId) : Prop :=
  ∃ s, ⟨w, i, s, r⟩ ∈ db.libraryOrigins

/-- The records of the article that declare a media type declare the same one. -/
def Db.OneMediaType (db : Db) (w : WorkspaceId) (i : ArticleId) : Prop :=
  ∀ r r' t t', db.HoldsRecord w i r → db.HoldsRecord w i r' → db.mediaType r = some t → db.mediaType r' = some t' →
    t = t'

/-- The request succeeds if the declarations agree, and is refused as contradictory if they do not. -/
def Listed {α : Type} (agrees : Prop) (result : Except RepositoryError α) : Prop :=
  (agrees → ∃ value, result = .ok value) ∧ (¬ agrees → result = .error conflictingMediaTypes)

section
variable (P : Platform) (policy : ReasonPolicy)

/-- The stored documents decode: the subscriptions validate and stay in one workspace, the published texts are whole. -/
structure Db.StoredOk (db : Db) : Prop where
  validates : ∀ s, ∀ d ∈ db.provenance s, d.2.validate P.parseUrl policy = .ok ()
  workspace : ∀ s, ∀ d ∈ db.provenance s, ∀ d' ∈ db.provenance s, d.2.workspaceId = d'.2.workspaceId
  decodes : ∀ r m, db.contentManifests.lookup r = some m → (decodeSnapshot db r m).isSome

/-- A known subscription stays known, in its workspace. -/
def Db.KeepsWorkspaces (db db' : Db) : Prop :=
  ∀ s, ∀ d ∈ db.provenance s, db'.provenance s ≠ [] ∧ ∀ d' ∈ db'.provenance s, d'.2.workspaceId = d.2.workspaceId

/-- Polls, deliveries and whatever else leaves the origins alone. -/
inductive CollectionStep : Db → Db → Prop
  | poll (db : Db) (lease : LeasedWork) (now : DateTime) (c : PollCommit) :
    CollectionStep db ((commitPoll lease now c).commit db)
  | deliver (db : Db) (lease : LeasedWork) (now : DateTime) (commit : DeliveryCommit) :
    CollectionStep db ((deliver P lease now commit).commit db)
  | other {db db' : Db} (horigins : db'.libraryOrigins = db.libraryOrigins) (hstored : db'.StoredOk P policy)
    (hkept : db.KeepsWorkspaces db') : CollectionStep db db'

structure PresentationInv (db : Db) : Prop where
  stored : db.StoredOk P policy
  known : ∀ w s r, db.Linked w s r → db.provenance s ≠ []
  owned : ∀ w s r, db.Linked w s r → ∀ d ∈ db.provenance s, d.2.workspaceId = w

end

section
variable {P : Platform} {policy : ReasonPolicy} {evidence : ContentManifestPointer → List PublicationEvidence}
  {w : WorkspaceId} {db db' : Db}

theorem Listed.congr {α : Type} {p q : Prop} {result : Except RepositoryError α} (h : Listed p result) (hpq : p ↔ q) :
    Listed q result :=
  ⟨fun hq => h.1 (hpq.2 hq), fun hq => h.2 fun hp => hq (hpq.1 hp)⟩

/-- What follows a request and cannot fail keeps its outcome. -/
theorem Listed.bind {α β : Type} {p : Prop} {result : Except RepositoryError α} {f : α → Except RepositoryError β}
    (h : Listed p result) (hf : ∀ a, ∃ b, f a = .ok b) : Listed p (result >>= f) := by
  refine ⟨fun hp => ?_, fun hp => ?_⟩
  · obtain ⟨a, ha⟩ := h.1 hp
    rw [ha]
    exact hf a
  · rw [h.2 hp]
    rfl

/-! ## The loop over the origins -/

/-- The declared types among these are one. -/
def Agreeing (types : List (Option String)) : Prop := ∀ t t', some t ∈ types → some t' ∈ types → t = t'

theorem agreeing_none {types : List (Option String)} : Agreeing (none :: types) ↔ Agreeing types := by
  simp [Agreeing]

theorem agreeing_skip {a : Option String} {types : List (Option String)} :
    Agreeing (a :: none :: types) ↔ Agreeing (a :: types) := by
  simp [Agreeing]

theorem agreeing_again {t : String} {types : List (Option String)} :
    Agreeing (some t :: some t :: types) ↔ Agreeing (some t :: types) := by
  simp [Agreeing]

theorem noteOrigin_of_ok (evidence : ContentManifestPointer → List PublicationEvidence) {facts : OriginFacts}
    {row : PresentationRow} {type : Option String}
    (h : mergeMediaType facts.descriptionMediaType row.mediaType = .ok type) :
    ∃ facts', noteOrigin evidence facts row = .ok facts' ∧ facts'.descriptionMediaType = type := by
  unfold noteOrigin
  rw [h]
  exact ⟨_, rfl, rfl⟩

theorem noteOrigin_of_error {facts : OriginFacts} {row : PresentationRow} {e : RepositoryError}
    (h : mergeMediaType facts.descriptionMediaType row.mediaType = .error e) :
    noteOrigin evidence facts row = .error e := by
  unfold noteOrigin
  rw [h]
  rfl

/-- The loop fails exactly at contradictory declarations. -/
theorem listed_noteOrigins (evidence : ContentManifestPointer → List PublicationEvidence) (facts : OriginFacts)
    (rows : List PresentationRow) :
    Listed (Agreeing (facts.descriptionMediaType :: rows.map (·.mediaType)))
      (rows.foldlM (noteOrigin evidence) facts) := by
  induction rows generalizing facts with
  | nil =>
    refine ⟨fun _ => ⟨facts, rfl⟩, fun h => absurd ?_ h⟩
    intro t t' ht ht'
    simp only [List.map_nil, List.mem_singleton] at ht ht'
    exact Option.some.inj (ht.trans ht'.symm)
  | cons row rows ih =>
    rw [List.foldlM_cons, List.map_cons]
    -- the rest of the loop continues with the merged type
    have hgo : ∀ type, mergeMediaType facts.descriptionMediaType row.mediaType = .ok type →
        Listed (Agreeing (type :: rows.map (·.mediaType)))
          (noteOrigin evidence facts row >>= fun facts' => rows.foldlM (noteOrigin evidence) facts') := by
      intro type hmerge
      obtain ⟨facts', hnote, htype⟩ := noteOrigin_of_ok evidence hmerge
      rw [hnote, ← htype]
      exact ih facts'
    cases hrow : row.mediaType with
    | none => exact (hgo facts.descriptionMediaType (by rw [hrow]; rfl)).congr agreeing_skip.symm
    | some t =>
      cases hfacts : facts.descriptionMediaType with
      | none => exact (hgo (some t) (by rw [hrow, hfacts]; rfl)).congr agreeing_none.symm
      | some u =>
        by_cases hut : u = t
        · subst hut
          have hmerge : mergeMediaType (some u) (some u) = .ok (some u) := by simp [mergeMediaType]
          exact (hgo (some u) (by rw [hrow, hfacts]; exact hmerge)).congr agreeing_again.symm
        · have hmerge : mergeMediaType (some u) (some t) = .error conflictingMediaTypes := by simp [mergeMediaType, hut]
          refine ⟨fun h => absurd (h u t (by simp) (by simp)) hut, fun _ => ?_⟩
          rw [noteOrigin_of_error (e := conflictingMediaTypes) (by rw [hrow, hfacts]; exact hmerge)]
          rfl

/-- The checks of the origins change nothing where they pass. -/
theorem foldlM_checked {rows : List PresentationRow} (facts : OriginFacts)
    (hcheck : ∀ row ∈ rows, checkOrigin P.parseUrl policy w row = .ok ()) :
    rows.foldlM (fun facts row => do
      let facts ← noteOrigin evidence facts row
      checkOrigin P.parseUrl policy w row
      pure facts) facts = rows.foldlM (noteOrigin evidence) facts := by
  induction rows generalizing facts with
  | nil => rfl
  | cons row rows ih =>
    rw [List.foldlM_cons, List.foldlM_cons]
    cases hnote : noteOrigin evidence facts row with
    | error e => rfl
    | ok facts' =>
      have hrow := hcheck row List.mem_cons_self
      have hrest := ih facts' fun r hr => hcheck r (List.mem_cons_of_mem _ hr)
      simp only [hrow]
      exact hrest

/-- The rows of the article agree. -/
def RowsAgree (rows : List PresentationRow) (i : ArticleId) : Prop :=
  Agreeing ((rows.filter (·.articleId = i)).map (·.mediaType))

/-- Taking the rows of one article out leaves the others as they are; an article asked for again has no rows. -/
theorem rowsAgree_rest {rows : List PresentationRow} {i j : ArticleId} (h : RowsAgree rows i) :
    RowsAgree (rows.filter (·.articleId ≠ i)) j ↔ RowsAgree rows j := by
  unfold RowsAgree
  rw [filter_key_rest PresentationRow.articleId]
  split
  · rename_i hji
    rw [hji]
    exact ⟨fun _ => h, fun _ t t' ht => by simp at ht⟩
  · exact Iff.rfl

theorem listed_presentSummaries (rows : List PresentationRow) (methods : List (ArticleId × ReadMethod))
    (articles : List Article) :
    Listed (∀ a ∈ articles, RowsAgree rows a.id) (presentSummaries evidence rows methods articles) := by
  induction articles generalizing rows methods with
  | nil => exact ⟨fun _ => ⟨[], rfl⟩, fun h => absurd (by simp) h⟩
  | cons a articles ih =>
    rw [presentSummaries]
    have hloop := (listed_noteOrigins evidence {} (rows.filter (·.articleId = a.id))).congr agreeing_none
    by_cases hagree : RowsAgree rows a.id
    · obtain ⟨facts, hfacts⟩ := hloop.1 hagree
      rw [hfacts]
      have hrest : (∀ b ∈ articles, RowsAgree (rows.filter (·.articleId ≠ a.id)) b.id) ↔
          ∀ b ∈ a :: articles, RowsAgree rows b.id := by
        simp only [List.forall_mem_cons, rowsAgree_rest hagree]
        exact ⟨fun h => ⟨hagree, h⟩, And.right⟩
      exact ((ih _ _).congr hrest).bind fun summaries => ⟨_, rfl⟩
    · refine ⟨fun h => absurd (h a List.mem_cons_self) hagree, fun _ => ?_⟩
      rw [hloop.2 hagree]
      rfl

/-! ## The rows of a presentation -/

theorem mem_originRows {o : OriginRow} {row : PresentationRow} (h : row ∈ db.originRows o) :
    row.articleId = o.articleId ∧ row.mediaType = db.mediaType o.sourceRecordId ∧
      (row.present, row.subscription) ∈ db.provenance o.subscriptionId := by
  obtain ⟨d, hd, rfl⟩ := List.mem_map.1 h
  exact ⟨rfl, rfl, hd⟩

theorem mem_presentationRows {ids : List ArticleId} {row : PresentationRow} :
    row ∈ db.presentationRows w ids ↔
      ∃ o ∈ db.libraryOrigins, o.workspaceId = w ∧ o.articleId ∈ ids ∧ row ∈ db.originRows o := by
  simp only [Db.presentationRows, List.mem_insertionSort, List.mem_flatMap, List.mem_filter, decide_eq_true_eq]
  constructor
  · rintro ⟨o, ⟨ho, hw, hid⟩, hrow⟩
    exact ⟨o, ho, hw, hid, hrow⟩
  · rintro ⟨o, ho, hw, hid, hrow⟩
    exact ⟨o, ⟨ho, hw, hid⟩, hrow⟩

theorem linked_of_mem {o : OriginRow} (h : o ∈ db.libraryOrigins) :
    db.Linked o.workspaceId o.subscriptionId o.sourceRecordId := ⟨o.articleId, h⟩

namespace PresentationInv

theorem checkOrigin_ok (h : PresentationInv P policy db) {ids : List ArticleId} {row : PresentationRow}
    (hrow : row ∈ db.presentationRows w ids) : checkOrigin P.parseUrl policy w row = .ok () := by
  obtain ⟨o, ho, rfl, -, hrow⟩ := mem_presentationRows.1 hrow
  obtain ⟨-, -, hd⟩ := mem_originRows hrow
  unfold checkOrigin
  rw [h.stored.validates _ _ hd]
  exact if_pos (h.owned _ _ _ (linked_of_mem ho) _ hd)

/-- The rows of an article carry the types that its records declare. -/
theorem agreeing_iff (h : PresentationInv P policy db) {ids : List ArticleId} {i : ArticleId} (hi : i ∈ ids) :
    Agreeing (((db.presentationRows w ids).filter (·.articleId = i)).map (·.mediaType)) ↔ db.OneMediaType w i := by
  have hmem : ∀ t, some t ∈ ((db.presentationRows w ids).filter (·.articleId = i)).map (·.mediaType) ↔
      ∃ r, db.HoldsRecord w i r ∧ db.mediaType r = some t := by
    intro t
    rw [List.mem_map]
    constructor
    · rintro ⟨row, hrow, ht⟩
      obtain ⟨hrow, hid⟩ := List.mem_filter.1 hrow
      obtain ⟨o, ho, rfl, -, hrow⟩ := mem_presentationRows.1 hrow
      obtain ⟨harticle, htype, -⟩ := mem_originRows hrow
      have hoi : o.articleId = i := harticle.symm.trans (of_decide_eq_true hid)
      exact ⟨o.sourceRecordId, ⟨o.subscriptionId, hoi ▸ ho⟩, htype.symm.trans ht⟩
    · rintro ⟨r, ⟨s, ho⟩, ht⟩
      -- a subscription stands behind every origin, so the join keeps the row
      obtain ⟨d, hd⟩ := List.exists_mem_of_ne_nil _ (h.known w s r ⟨i, ho⟩)
      refine ⟨_, List.mem_filter.2 ⟨mem_presentationRows.2 ⟨_, ho, rfl, hi, List.mem_map.2 ⟨d, hd, rfl⟩⟩, ?_⟩, ht⟩
      exact decide_eq_true rfl
  unfold Agreeing Db.OneMediaType
  constructor
  · intro hagree r r' t t' hr hr' ht ht'
    exact hagree t t' ((hmem t).2 ⟨r, hr, ht⟩) ((hmem t').2 ⟨r', hr', ht'⟩)
  · intro hone t t' ht ht'
    obtain ⟨r, hr, hrt⟩ := (hmem t).1 ht
    obtain ⟨r', hr', hrt'⟩ := (hmem t').1 ht'
    exact hone r r' t t' hr hr' hrt hrt'

theorem contentSnapshot_ok (h : PresentationInv P policy db) (i : ArticleId) :
    ∃ content, db.contentSnapshot w i = .ok content := by
  unfold Db.contentSnapshot
  dsimp only
  split
  · exact ⟨none, rfl⟩
  · rename_i record pointer hhead
    have hmem := List.mem_of_head? hhead
    rw [List.mem_insertionSort] at hmem
    obtain ⟨o, -, hmem⟩ := List.mem_flatMap.1 hmem
    obtain ⟨d, -, hmem⟩ := List.mem_flatMap.1 hmem
    obtain ⟨m, hm, he⟩ := List.mem_map.1 hmem
    cases he
    obtain ⟨html, hhtml⟩ := Option.isSome_iff_exists.1 (h.stored.decodes _ _ (Option.mem_toList.1 hm))
    rw [hhtml]
    exact ⟨some html, rfl⟩

theorem listed_presentation (h : PresentationInv P policy db) (a : Article) (includeContent : Bool) :
    Listed (db.OneMediaType w a.id) (presentation P.parseUrl policy evidence w a includeContent db) := by
  have hrows : ∀ row ∈ db.presentationRows w [a.id], row.articleId = a.id := by
    intro row hrow
    obtain ⟨o, -, -, hid, hrow⟩ := mem_presentationRows.1 hrow
    rw [(mem_originRows hrow).1]
    exact List.mem_singleton.1 hid
  have hagree := h.agreeing_iff (w := w) (List.mem_singleton.2 (rfl : a.id = a.id))
  rw [List.filter_eq_self.2 fun row hrow => decide_eq_true (hrows row hrow)] at hagree
  have hloop := (listed_noteOrigins evidence {} (db.presentationRows w [a.id])).congr agreeing_none
  obtain ⟨content, hcontent⟩ := h.contentSnapshot_ok (w := w) a.id
  unfold presentation
  rw [foldlM_checked _ fun row hrow => h.checkOrigin_ok hrow]
  refine (hloop.congr hagree).bind fun facts => ?_
  rw [hcontent]
  cases includeContent with
  | true => exact ⟨_, rfl⟩
  | false => exact ⟨_, rfl⟩

theorem listed_summaryPresentations (h : PresentationInv P policy db) (articles : List Article) :
    Listed (∀ a ∈ articles, db.OneMediaType w a.id) (summaryPresentations P.parseUrl policy evidence w articles db) := by
  unfold summaryPresentations
  split
  · rename_i hnil
    exact ⟨fun _ => ⟨[], rfl⟩, fun hne => absurd (by simp [hnil]) hne⟩
  · have hchecks : (db.presentationRows w (articles.map (·.id))).forM (checkOrigin P.parseUrl policy w) = .ok () :=
      forM_ok fun row hrow => h.checkOrigin_ok hrow
    simp only [hchecks]
    refine (listed_presentSummaries _ _ articles).congr ?_
    constructor
    · intro hagree a ha
      exact (h.agreeing_iff (List.mem_map_of_mem ha)).1 (hagree a ha)
    · intro hone a ha
      exact (h.agreeing_iff (List.mem_map_of_mem ha)).2 (hone a ha)

end PresentationInv

/-! ## Reachable libraries -/

/-- The tables that a presentation trusts. -/
def Db.trusted (db : Db) : Table SubscriptionId Subscription × Table SubscriptionId Subscription ×
    Table SourceRecordId ContentManifestPointer × Table ChunkKey (List UInt8) :=
  (db.subscriptions, db.removedSubscriptions, db.contentManifests, db.stagedContentChunks)

theorem provenance_congr (h : db'.trusted = db.trusted) (s : SubscriptionId) : db'.provenance s = db.provenance s := by
  simp only [Db.trusted, Prod.mk.injEq] at h
  unfold Db.provenance
  rw [h.1, h.2.1]

theorem Db.StoredOk.congr (h : db.StoredOk P policy) (htrusted : db'.trusted = db.trusted) : db'.StoredOk P policy := by
  have hp := provenance_congr htrusted
  simp only [Db.trusted, Prod.mk.injEq] at htrusted
  obtain ⟨-, -, hmanifests, hchunks⟩ := htrusted
  refine ⟨fun s d hd => h.validates s d (hp s ▸ hd), fun s d hd d' hd' => ?_, fun r m hm => ?_⟩
  · exact h.workspace s d (hp s ▸ hd) d' (hp s ▸ hd')
  · rw [hmanifests] at hm
    have hdecode : decodeSnapshot db' r m = decodeSnapshot db r m := by
      unfold decodeSnapshot Db.safeChunks
      rw [hchunks]
    rw [hdecode]
    exact h.decodes r m hm

namespace PresentationInv

theorem poll (h : PresentationInv P policy db) (lease : LeasedWork) (now : DateTime) (c : PollCommit) :
    PresentationInv P policy ((commitPoll lease now c).commit db) := by
  have htrusted := (commitPoll_keeps (f := Db.trusted) ⟨fun _ _ => rfl, fun _ _ => rfl, fun _ _ _ => rfl, fun _ _ => rfl,
    fun _ _ => rfl, fun _ _ => rfl, fun _ _ => rfl⟩ lease now c).commit db
  have horigins := (commitPoll_keeps (f := Db.libraryOrigins) ⟨fun _ _ => rfl, fun _ _ => rfl, fun _ _ _ => rfl,
    fun _ _ => rfl, fun _ _ => rfl, fun _ _ => rfl, fun _ _ => rfl⟩ lease now c).commit db
  have hp := provenance_congr htrusted
  have hlinked : ∀ w s r, ((commitPoll lease now c).commit db).Linked w s r ↔ db.Linked w s r := by
    intro w s r
    unfold Db.Linked
    rw [horigins]
  refine ⟨h.stored.congr htrusted, fun w s r hl => ?_, fun w s r hl d hd => ?_⟩
  · rw [hp]
    exact h.known w s r ((hlinked w s r).1 hl)
  · rw [hp] at hd
    exact h.owned w s r ((hlinked w s r).1 hl) d hd

/-- A delivery links a present subscription of the workspace. -/
theorem deliver (h : PresentationInv P policy db) (lease : LeasedWork) (now : DateTime) (commit : DeliveryCommit) :
    PresentationInv P policy ((Inoreader.deliver P lease now commit).commit db) := by
  have htrusted := (deliver_keeps (P := P) (f := Db.trusted) ⟨⟨fun _ _ => rfl, fun _ _ => rfl, fun _ _ => rfl⟩,
    fun _ _ => rfl, fun _ _ => rfl, fun _ _ => rfl, fun _ _ => rfl⟩ lease now commit).commit db
  have hp := provenance_congr htrusted
  cases hrun : Inoreader.deliver P lease now commit db with
  | error e =>
    rw [commit_of_error hrun]
    exact h
  | ok x =>
    have hlinked := deliver_linked hrun
    rw [commit_of_ok hrun] at htrusted hp ⊢
    refine ⟨h.stored.congr htrusted, fun w s r hl => ?_, fun w s r hl d hd => ?_⟩
    · rw [hp]
      rcases (hlinked w s r).1 hl with hl | ⟨-, rfl, -, sub, hsub, -, -⟩
      · exact h.known w s r hl
      · exact List.ne_nil_of_mem (a := (true, sub)) (by simp [Db.provenance, hsub])
    · rw [hp] at hd
      rcases (hlinked w s r).1 hl with hl | ⟨rfl, rfl, -, sub, hsub, hws, -⟩
      · exact h.owned w s r hl d hd
      · rw [← hws]
        exact h.stored.workspace _ d hd (true, sub) (by simp [Db.provenance, hsub])

theorem step (h : PresentationInv P policy db) (hstep : CollectionStep P policy db db') : PresentationInv P policy db' := by
  cases hstep with
  | poll lease now c => exact h.poll lease now c
  | deliver lease now commit => exact h.deliver lease now commit
  | other horigins hstored hkept =>
    have hlinked : ∀ w s r, db'.Linked w s r → db.Linked w s r := by
      intro w s r hl
      unfold Db.Linked at hl
      rwa [horigins] at hl
    refine ⟨hstored, fun w s r hl => ?_, fun w s r hl d' hd' => ?_⟩
    · obtain ⟨d, hd⟩ := List.exists_mem_of_ne_nil _ (h.known w s r (hlinked w s r hl))
      exact (hkept s d hd).1
    · obtain ⟨d, hd⟩ := List.exists_mem_of_ne_nil _ (h.known w s r (hlinked w s r hl))
      rw [(hkept s d hd).2 d' hd']
      exact h.owned w s r (hlinked w s r hl) d hd

theorem reach (h : PresentationInv P policy db) (hreach : Relation.ReflTransGen (CollectionStep P policy) db db') :
    PresentationInv P policy db' := by
  induction hreach with
  | refl => exact h
  | tail _ hstep ih => exact ih.step hstep

end PresentationInv

/-- In every reachable library a page of articles and the presentation of an article are refused exactly where two
records of one article declare different media types. -/
theorem presentations_listed (hstored : db.StoredOk P policy) (hempty : db.libraryOrigins = [])
    (hreach : Relation.ReflTransGen (CollectionStep P policy) db db')
    (evidence : ContentManifestPointer → List PublicationEvidence) (w : WorkspaceId) :
    (∀ page : List Article, Listed (∀ a ∈ page, db'.OneMediaType w a.id)
      (summaryPresentations P.parseUrl policy evidence w page db')) ∧
    ∀ (a : Article) (includeContent : Bool), Listed (db'.OneMediaType w a.id)
      (presentation P.parseUrl policy evidence w a includeContent db') := by
  have hinv : PresentationInv P policy db :=
    ⟨hstored, fun w s r hl => by simp [Db.Linked, hempty] at hl, fun w s r hl => by simp [Db.Linked, hempty] at hl⟩
  have hinv' := hinv.reach hreach
  exact ⟨fun page => hinv'.listed_summaryPresentations page, fun a includeContent => hinv'.listed_presentation a includeContent⟩

end

/-! ## A library with two formats

An RSS source and a JSON source publish the same post with the same summary. -/

namespace Sample

def postUrl : Url := { text := "https://example.com/post", scheme := "https", host := some "example.com", port := none }

def xmlEntry : FeedEntry :=
  { id := "post-1", title := some { contentType := "text/plain", content := "Release" }
    links := [{ href := "https://example.com/post", rel := some "alternate" }]
    summary := some { contentType := "text/html", content := "Version 2 is out" } }

def jsonItem : JsonItem :=
  { id := some "1", url := some "https://example.com/post", title := some "Release"
    summary := some "Version 2 is out" }

/-- The record of the post in one of the sources. -/
def posted (source : Nat) (upstreamId mediaType : String) (categories : Option (List String)) : SourceRecord :=
  { id := ⟨source⟩, sourceId := ⟨source⟩, upstreamId
    key := { location := .url "https://example.com/post" postUrl, title := "Release"
             description := some "Version 2 is out" }
    categories, descriptionMediaType := some mediaType, feedContentHtml := none, publishedAt := none, revision := 0 }

def xmlPost : SourceRecord := posted 1 "post-1" "text/html" (some [])
def jsonPost : SourceRecord := posted 2 "1" "text/plain" none

def posting (record : SourceRecord) : PollCommit :=
  { sourceId := record.sourceId, sourceRevision := 0, records := [{ record, action := .deliver }], remainder := []
    fetchedAt := 5, finalUrl := url, validators := {}, incomplete := false, durationMs := 1 }

/-- The delivery of the post of a source to the subscription of that source. -/
def postDelivery (record : SourceRecord) (proposed : Nat) : DeliveryCommit :=
  { target := { workspaceId := ⟨1⟩, subscriptionId := ⟨record.sourceId.uuid⟩ }, record
    proposedArticleId := ⟨proposed⟩, deliveredAt := 6 }

/-- The library of the first section with a second subscription, to a JSON source. -/
def formatsDb : Db :=
  { db with
    subscriptions := db.subscriptions.insert ⟨2⟩ (subscription 2 .active)
    subscriptionSources := db.subscriptionSources.insert ⟨2⟩ ⟨2⟩
    sources := db.sources.insert ⟨2⟩ { id := ⟨2⟩, url, kind := .jsonFeed, revision := 0 }
    sourceRecords := ∅ }

def afterPolls : Db :=
  (commitPoll lease 5 (posting jsonPost)).commit ((commitPoll lease 5 (posting xmlPost)).commit formatsDb)

def afterFirst : Db := (deliver platform lease 6 (postDelivery xmlPost 1)).commit afterPolls

/-- Both posts are delivered. -/
def afterBoth : Db := (deliver platform lease 6 (postDelivery jsonPost 2)).commit afterFirst

def firstArticle : Article :=
  { id := ⟨1⟩, key := xmlPost.key, state := {}, firstArrivedAt := 6, origins := [⟨1⟩], revision := 1 }

def mergedArticle : Article := { firstArticle with origins := [⟨1⟩, ⟨2⟩], revision := 2 }

def noEvidence : ContentManifestPointer → List PublicationEvidence := fun _ => []

theorem formatsDb_stored : formatsDb.StoredOk platform { maxBytes := 100 } := by
  have hdocs : ∀ s, ∀ d ∈ formatsDb.provenance s, d = (true, subscription s.uuid .active) := by
    intro s d hd
    simp only [Db.provenance, formatsDb, db, Table.lookup_insert_if] at hd
    split at hd
    · rename_i hs
      subst hs
      simpa using hd
    · split at hd
      · rename_i hs
        subst hs
        simpa using hd
      · simp at hd
  refine ⟨fun s d hd => ?_, fun s d hd d' hd' => ?_, fun r m hm => ?_⟩
  · rw [hdocs s d hd]
    rfl
  · rw [hdocs s d hd, hdocs s d' hd']
  · simp [formatsDb, db] at hm

theorem reaches_first : Relation.ReflTransGen (CollectionStep platform { maxBytes := 100 }) formatsDb afterFirst :=
  .tail (.tail (.single (.poll _ lease 5 (posting xmlPost))) (.poll _ lease 5 (posting jsonPost)))
    (.deliver _ lease 6 (postDelivery xmlPost 1))

end Sample

open Sample

/-- The first post alone can be shown. -/
theorem presentations_listed_first : afterFirst.articles.lookup (⟨1⟩, ⟨1⟩) = some firstArticle ∧
    ∃ summaries, summaryPresentations platform.parseUrl { maxBytes := 100 } noEvidence ⟨1⟩ [firstArticle] afterFirst =
      .ok summaries := by
  have hone : afterFirst.OneMediaType ⟨1⟩ ⟨1⟩ := by
    have hrows : afterFirst.libraryOrigins = [⟨⟨1⟩, ⟨1⟩, ⟨1⟩, ⟨1⟩⟩] := by decide +kernel
    rintro r r' t t' ⟨s, hr⟩ ⟨s', hr'⟩ ht ht'
    rw [hrows] at hr hr'
    simp only [List.mem_singleton, OriginRow.mk.injEq] at hr hr'
    rw [hr.2.2.2] at ht
    rw [hr'.2.2.2] at ht'
    exact Option.some.inj (ht.symm.trans ht')
  have hlisted := (presentations_listed formatsDb_stored rfl reaches_first noEvidence ⟨1⟩).1 [firstArticle]
  exact ⟨by decide +kernel, hlisted.1 fun a ha => by rw [List.mem_singleton.1 ha]; exact hone⟩

/-- The second post merges into the article of the first, and the article and the page can no longer be shown. -/
theorem merged_page_refused :
    xmlEntry.record (fun _ _ => some postUrl) url >>= (fun v => (SourceRecord.fromParsed platform.parseUrl ⟨1⟩ ⟨1⟩ v).mapError
      fun e => FeedError.invalid e.toText) = .ok xmlPost ∧
    jsonItem.record (fun _ _ => some postUrl) url >>= (fun v => (SourceRecord.fromParsed platform.parseUrl ⟨2⟩ ⟨2⟩ v).mapError
      fun e => FeedError.invalid e.toText) = .ok jsonPost ∧
    formatsDb.StoredOk platform { maxBytes := 100 } ∧ formatsDb.libraryOrigins = [] ∧
    Relation.ReflTransGen (CollectionStep platform { maxBytes := 100 }) formatsDb afterBoth ∧
    afterBoth.articles.lookup (⟨1⟩, ⟨1⟩) = some mergedArticle ∧
    summaryPresentations platform.parseUrl { maxBytes := 100 } noEvidence ⟨1⟩ [mergedArticle] afterBoth =
      .error conflictingMediaTypes ∧
    presentation platform.parseUrl { maxBytes := 100 } noEvidence ⟨1⟩ mergedArticle true afterBoth =
      .error conflictingMediaTypes := by
  refine ⟨by decide +kernel, by decide +kernel, formatsDb_stored, rfl, reaches_first.tail (.deliver _ lease 6 (postDelivery jsonPost 2)),
    by decide +kernel, by decide +kernel, by decide +kernel⟩

end Inoreader
