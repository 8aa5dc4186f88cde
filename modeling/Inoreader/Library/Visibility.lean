import Mathlib.Data.Prod.Lex
import Inoreader.Library.States

/-!
# Visible articles (`schema/reading_preferences.sql`)

The preferences of a workspace hide articles from its views without changing them. A time in a document is compared as
the `timestamptz` that PostgreSQL reads it as.
-/

namespace Inoreader
open Lib

/-- A row of the table `reading_preferences`. -/
structure VisibilityPreferences where
  skipDuplicates : Bool := false
  hideSnowflakeSpanish : Bool := false
  hideSnowflakeFrench : Bool := false
  hideRedditCareer : Bool := false
  excludedUrls : List String := []
deriving DecidableEq, Repr

/-- What visibility depends on beside the tables of `Db`: the preferences, and the URL and the flair in the documents of
the manifests. -/
structure VisibilityTables where
  readingPreferences : Table WorkspaceId VisibilityPreferences := ∅
  finalUrl : SourceRecordId → String
  redditFlair : SourceRecordId → Option String
  timestamptz : DateTime → Int

/-- `{key,location,Url,exact}`. -/
def Article.exactUrl (a : Article) : Option String :=
  match a.key.location with
  | .url exact _ => some exact
  | .sourceRecord _ _ => none

/-- What follows the pieces in a text, for each way to choose one alternative after the other. -/
def afterChoices : List (List String) → List Char → List (List Char)
  | [], text => [text]
  | choices :: rest, text =>
    (choices.filter fun c => c.toList.isPrefixOf text).flatMap fun c => afterChoices rest (text.drop c.length)

/-- `^https://(www\.)?snowflake\.com/(content/snowflake-site/global/)?(…)(/|$)`. -/
def matchesSnowflake (languages : List String) (url : String) : Bool :=
  (afterChoices [["https://"], ["www.", ""], ["snowflake.com/"], ["content/snowflake-site/global/", ""], languages]
    url.toList).any fun rest => rest.isEmpty || rest.head? == some '/'

/-- `^https://(www\.|old\.)?reddit\.com/`. -/
def matchesReddit (url : String) : Bool :=
  !(afterChoices [["https://"], ["www.", "old.", ""], ["reddit.com/"]] url.toList).isEmpty

example : matchesSnowflake ["es", "es-la", "es-es"] "https://www.snowflake.com/es-la/blog" = true ∧
    matchesSnowflake ["es", "es-la", "es-es"] "https://snowflake.com/essentials" = false ∧
    matchesReddit "https://old.reddit.com/r/rust" = true := by decide +kernel

/-- Every article of the workspace stands under the id of its document. -/
def Db.OwnIds (db : Db) (w : WorkspaceId) : Prop := ∀ i a, db.articles.lookup (w, i) = some a → a.id = i

theorem Db.OwnIds.row {db : Db} {w : WorkspaceId} (h : db.OwnIds w) {row : ArticleId × Article}
    (hrow : row ∈ db.workspaceArticles w) : row.2.id = row.1 := h row.1 row.2 (mem_workspaceArticles.1 hrow)

theorem Db.OwnIds.of_rows {db : Db} {w : WorkspaceId} (h : ∀ row ∈ db.workspaceArticles w, row.2.id = row.1) : db.OwnIds w :=
  fun i a ha => h (i, a) (mem_workspaceArticles.2 ha)

/-- The arrival of an article and its id, as the pages are ordered. -/
def arrivalKey (row : ArticleId × Article) : ℤ ×ₗ ℕ := toLex (row.2.firstArrivedAt, row.1.uuid)

section
variable (v : VisibilityTables) (db : Db) (w : WorkspaceId)

def Db.articleOrigins (i : ArticleId) : List OriginRow :=
  db.libraryOrigins.filter fun o => o.workspaceId = w ∧ o.articleId = i

/-- `reader_display_url`: the final URL of the latest manifest among the origins. -/
def readerDisplayUrl (row : ArticleId × Article) : Option String :=
  let manifests := (db.articleOrigins w row.1).filterMap fun o =>
    (db.contentManifests.lookup o.sourceRecordId).map fun m => (o.sourceRecordId, v.timestamptz m.fetchedAt)
  match (List.insertionSort (fun x y => y.2 < x.2 ∨ (y.2 = x.2 ∧ y.1.uuid ≤ x.1.uuid)) manifests).head? with
  | some (record, _) => some (v.finalUrl record)
  | none => row.2.exactUrl

/-- Another article shows the same page under the same title, and it is read or came first. -/
def priorDuplicate (row prior : ArticleId × Article) : Bool :=
  (readerDisplayUrl v db w prior).isSome && readerDisplayUrl v db w prior == readerDisplayUrl v db w row &&
    prior.2.key.title == row.2.key.title && (prior.2.state.read || decide (arrivalKey prior < arrivalKey row)) &&
    prior.1 != row.1

/-- A career article of Reddit, by its flair or a category of an origin. -/
def isRedditCareer (i : ArticleId) : Bool :=
  (db.articleOrigins w i).any fun o =>
    match db.sourceRecords.lookup o.sourceRecordId with
    | none => false
    | some record =>
      ((db.contentManifests.lookup o.sourceRecordId).isSome && v.redditFlair o.sourceRecordId == some "Career") ||
        (record.categories.getD []).contains "Career"

/-- `reader_article_visible`. -/
def readerArticleVisible (row : ArticleId × Article) : Bool :=
  match v.readingPreferences.lookup w with
  | none => true
  | some p =>
    !(row.2.exactUrl.any p.excludedUrls.contains ||
      (p.skipDuplicates && (db.workspaceArticles w).any (priorDuplicate v db w row)) ||
      (p.hideSnowflakeSpanish && row.2.exactUrl.any (matchesSnowflake ["es", "es-la", "es-es"])) ||
      (p.hideSnowflakeFrench && row.2.exactUrl.any (matchesSnowflake ["fr"])) ||
      (p.hideRedditCareer && row.2.exactUrl.any matchesReddit && isRedditCareer v db w row.1))

end
end Inoreader
