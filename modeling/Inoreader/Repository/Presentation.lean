import Inoreader.Repository.Articles

/-!
# Presentations of articles (`repository/presentation.rs`, `publication_dates.rs`, `content_snapshot.rs`)

What a reader is shown of an article: the article with the subscriptions it came through and what its
origins declare. Stored publication dates were parsed before they were stored, so reading them back
gives their text. The evidence that a manifest keeps of a page's own date is an input.
-/

namespace Inoreader
open Lib

inductive ContentStatus
  | pending | ready | failed
deriving DecidableEq, Repr

structure PublicationEvidence where
  source : String
  raw : String
deriving DecidableEq, Repr

/-- `ArticlePresentation`; the video of the content and the time of a listed reading are left out. -/
structure ArticlePresentation where
  article : Article
  readMethod : Option ReadMethod
  publication : List PublicationEvidence
  subscriptionIds : List SubscriptionId
  subscriptionTitles : List String
  safeHtml : Option String
  descriptionMediaType : Option String
  fullTextStatus : ContentStatus
  failureReason : Option String
deriving DecidableEq, Repr

def ReasonError.toText : ReasonError → String
  | .blank => "reason must contain a non-whitespace character"
  | .tooLong actual maximum => s!"reason is {actual} UTF-8 bytes; maximum is {maximum}"

def StateValidationError.toText : StateValidationError → String
  | .invalidReason e => e.toText
  | .statusHistoryMismatch => "current state event is inconsistent with aggregate history"
  | .sourceUrlMismatch => "exact source URL does not parse to the operational source URL"

/-- `title()`. -/
def Subscription.title (s : Subscription) : String := s.customName.getD s.sourceTitle

/-- `article_subscription_provenance`: present and removed subscriptions. -/
def Db.provenance (db : Db) (s : SubscriptionId) : List (Bool × Subscription) :=
  (db.subscriptions.lookup s).toList.map (true, ·) ++ (db.removedSubscriptions.lookup s).toList.map (false, ·)

/-- One origin of an article as the queries of a presentation return it. -/
structure PresentationRow where
  present : Bool
  articleId : ArticleId
  subscriptionId : SubscriptionId
  record : SourceRecordId
  subscription : Subscription
  manifest : Option ContentManifestPointer
  /-- The diagnostic of the refresh failure. -/
  failure : Option String
  mediaType : Option String
  published : Option PublicationDate
deriving DecidableEq, Repr

/-- `description_media_type` of the stored record, if there is one. -/
def Db.mediaType (db : Db) (r : SourceRecordId) : Option String :=
  (db.sourceRecords.lookup r).bind (·.descriptionMediaType)

/-- The origins joined with their subscriptions. -/
def Db.originRows (db : Db) (o : OriginRow) : List PresentationRow :=
  (db.provenance o.subscriptionId).map fun s =>
    { present := s.1, articleId := o.articleId, subscriptionId := o.subscriptionId, record := o.sourceRecordId
      subscription := s.2, manifest := db.contentManifests.lookup o.sourceRecordId
      failure := (db.refreshFailures.lookup o.sourceRecordId).map (·.diagnostic)
      mediaType := db.mediaType o.sourceRecordId
      published := (db.sourceRecords.lookup o.sourceRecordId).bind (·.publishedAt) }

/-- `ORDER BY s.present DESC, o.subscription_id`. -/
def PresentationRow.before (x y : PresentationRow) : Bool :=
  (x.present && !y.present) || (x.present == y.present && decide (x.subscriptionId.uuid ≤ y.subscriptionId.uuid))

def Db.presentationRows (db : Db) (w : WorkspaceId) (ids : List ArticleId) : List PresentationRow :=
  List.insertionSort (fun x y => x.before y)
    ((db.libraryOrigins.filter fun o => o.workspaceId = w ∧ o.articleId ∈ ids).flatMap db.originRows)

def conflictingMediaTypes : RepositoryError := .storage "conflicting article summary media types"

/-- `merge_media_type`: contradictory known declarations are refused. -/
def mergeMediaType (current next : Option String) : Except RepositoryError (Option String) :=
  match next with
  | none => .ok current
  | some next => if current.any (· ≠ next) then .error conflictingMediaTypes else .ok (some next)

/-- What the loop over the origins of one article collects. -/
structure OriginFacts where
  subscriptionIds : List SubscriptionId := []
  subscriptionTitles : List String := []
  manifests : List (SourceRecordId × ContentManifestPointer) := []
  failureReason : Option String := none
  descriptionMediaType : Option String := none
  publication : List PublicationEvidence := []
deriving DecidableEq, Repr

/-- The newest method of every article. -/
def Db.readMethods (db : Db) (w : WorkspaceId) (ids : List ArticleId) : List (ArticleId × ReadMethod) :=
  ids.dedup.filterMap fun i =>
    ((List.insertionSort (fun x y => y.1.2 ≤ x.1.2)
      (db.articleReadEvents.rows.filter fun row => row.1.1 = (w, i))).head?).map fun row => (i, row.2)

/-- `content_snapshot::read`: the newest published text among the origins. -/
def Db.contentSnapshot (db : Db) (w : WorkspaceId) (i : ArticleId) : Except RepositoryError (Option String) :=
  let candidates := (db.libraryOrigins.filter fun o => o.workspaceId = w ∧ o.articleId = i).flatMap fun o =>
    ((db.provenance o.subscriptionId).filter fun s => s.2.workspaceId = w).flatMap fun _ =>
      (db.contentManifests.lookup o.sourceRecordId).toList.map fun m => (o.sourceRecordId, m)
  match (List.insertionSort (fun x y => y.2.fetchedAt < x.2.fetchedAt ∨
      (y.2.fetchedAt = x.2.fetchedAt ∧ y.1.uuid ≤ x.1.uuid)) candidates).head? with
  | none => .ok none
  | some (record, pointer) =>
    match decodeSnapshot db record pointer with
    | some html => .ok (some html)
    | none => .error (.storage s!"invalid published content generation for record {record.uuid}")

def contentStatus (ready : Bool) (failureReason : Option String) : ContentStatus :=
  if ready then .ready else if failureReason.isSome then .failed else .pending

def OriginFacts.present (facts : OriginFacts) (article : Article) (readMethod : Option ReadMethod)
    (safeHtml : Option String) (ready : Bool) : ArticlePresentation :=
  { article, readMethod := if article.state.read then readMethod else none, publication := facts.publication
    subscriptionIds := facts.subscriptionIds, subscriptionTitles := facts.subscriptionTitles, safeHtml
    descriptionMediaType := facts.descriptionMediaType
    fullTextStatus := contentStatus ready facts.failureReason, failureReason := facts.failureReason }

section
variable (parseUrl : String → Option Url) (policy : ReasonPolicy)
  (evidence : ContentManifestPointer → List PublicationEvidence) (w : WorkspaceId)

/-- The date that the source declares, else what the page declares. -/
def originPublication (published : Option PublicationDate) (manifest : Option ContentManifestPointer) :
    List PublicationEvidence :=
  match published with
  | some date => [{ source := "feed / source", raw := date.text }]
  | none => (manifest.map evidence).getD []

def noteOrigin (facts : OriginFacts) (row : PresentationRow) : Except RepositoryError OriginFacts := do
  let descriptionMediaType ← mergeMediaType facts.descriptionMediaType row.mediaType
  pure
    { descriptionMediaType
      publication := facts.publication ++ originPublication evidence row.published row.manifest
      subscriptionIds :=
        if row.present ∧ row.subscription.id ∉ facts.subscriptionIds then facts.subscriptionIds ++ [row.subscription.id]
        else facts.subscriptionIds
      subscriptionTitles :=
        if row.subscription.title ∈ facts.subscriptionTitles then facts.subscriptionTitles
        else facts.subscriptionTitles ++ [row.subscription.title]
      manifests := facts.manifests ++ row.manifest.toList.map (row.record, ·)
      failureReason := row.failure.orElse fun _ => facts.failureReason }

/-- The subscription of an origin validates and belongs to the workspace. -/
def checkOrigin (row : PresentationRow) : Except RepositoryError Unit :=
  match row.subscription.validate parseUrl policy with
  | .error e => .error (.storage e.toText)
  | .ok _ =>
    if row.subscription.workspaceId = w then .ok () else .error (.storage "article origin crosses workspace ownership")

/-- `presentation` on one state of the database. -/
def presentation (article : Article) (includeContent : Bool) (db : Db) :
    Except RepositoryError ArticlePresentation := do
  let facts ← (db.presentationRows w [article.id]).foldlM (fun facts row => do
    let facts ← noteOrigin evidence facts row
    checkOrigin parseUrl policy w row
    pure facts) {}
  let content ← if includeContent then db.contentSnapshot w article.id else .ok none
  let ready := if includeContent then content.isSome else !facts.manifests.isEmpty
  pure (facts.present article ((db.readMethods w [article.id]).lookup article.id) content ready)

/-- The presentations of the articles in turn; each takes its rows and its method out of the maps. -/
def presentSummaries : List PresentationRow → List (ArticleId × ReadMethod) → List Article →
    Except RepositoryError (List ArticlePresentation)
  | _, _, [] => .ok []
  | rows, methods, article :: articles => do
    let facts ← (rows.filter (·.articleId = article.id)).foldlM (noteOrigin evidence) {}
    let summary := facts.present article (methods.lookup article.id) none (!facts.manifests.isEmpty)
    let methods := if article.state.read then methods.filter (·.1 ≠ article.id) else methods
    let summaries ← presentSummaries (rows.filter (·.articleId ≠ article.id)) methods articles
    pure (summary :: summaries)

/-- `summary_presentations` on one state of the database. -/
def summaryPresentations (articles : List Article) (db : Db) : Except RepositoryError (List ArticlePresentation) := do
  if articles = [] then return []
  let rows := db.presentationRows w (articles.map (·.id))
  rows.forM (checkOrigin parseUrl policy w)
  presentSummaries evidence rows (db.readMethods w (articles.map (·.id))) articles

end
end Inoreader
