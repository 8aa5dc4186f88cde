import Inoreader.Ingest.Model

/-!
# Feeds (`reader-collectors/src/feed.rs`)

How the entries of a decoded feed become records. The decoders of `feed_rs` and `serde_json` and
`Url::join` are inputs.
-/

namespace Inoreader

structure FeedLink where
  href : String
  rel : Option String := none
  mediaType : Option String := none
deriving DecidableEq, Repr

/-- A `feed_rs` text with its declared type. -/
structure FeedText where
  contentType : String
  content : String
deriving DecidableEq, Repr

/-- An entry of `feed_rs`. -/
structure FeedEntry where
  id : String
  title : Option FeedText := none
  links : List FeedLink := []
  summary : Option FeedText := none
  /-- The body of the content, if the entry has one. -/
  content : Option String := none
  /-- The terms of the categories. -/
  categories : List String := []
  published : Option PublicationDate := none
deriving DecidableEq, Repr

structure JsonItem where
  id : Option String := none
  url : Option String := none
  title : Option String := none
  summary : Option String := none
  contentHtml : Option String := none
  datePublished : Option PublicationDate := none
deriving DecidableEq, Repr

inductive FeedError
  | invalid (reason : String)
  | missingIdentity
  | invalidUrl (url : String)
deriving DecidableEq, Repr

def FeedError.toText : FeedError → String
  | .invalid reason => "feed cannot be parsed: " ++ reason
  | .missingIdentity => "entry has neither stable id nor URL"
  | .invalidUrl url => "entry URL is invalid: " ++ url

def FeedLink.isAlternate (v : FeedLink) : Bool :=
  v.rel == some "alternate" && v.mediaType.all fun t => t == "text/html" || t == "application/xhtml+xml"

/-- The first alternate page, else the first link without a relation. -/
def FeedEntry.link (entry : FeedEntry) : String :=
  (((entry.links.find? (·.isAlternate)).orElse fun _ => entry.links.find? (·.rel.isNone)).map (·.href)).getD ""

section
variable (join : Url → String → Option Url) (feedUrl : Url)

/-- The absolute URL of an entry; an entry without link has none. -/
def absoluteUrl (link : String) : Except FeedError (Option Url) :=
  if link = "" then .ok none
  else match join feedUrl link with
    | some url => .ok (some url)
    | none => .error (.invalidUrl link)

def FeedEntry.record (entry : FeedEntry) : Except FeedError ParsedRecord := do
  let upstreamId := if entry.id = "" then entry.link else entry.id
  if upstreamId = "" then throw .missingIdentity
  let absoluteUrl ← absoluteUrl join feedUrl entry.link
  pure
    { categories := some entry.categories, upstreamId, originalUrl := entry.link, absoluteUrl
      title := (entry.title.map (·.content)).getD ""
      descriptionMediaType := entry.summary.map (·.contentType)
      description := entry.summary.map (·.content)
      contentHtml := entry.content, publishedAt := entry.published }

def JsonItem.record (item : JsonItem) : Except FeedError ParsedRecord := do
  let link := item.url.getD ""
  let upstreamId := item.id.getD link
  if upstreamId = "" then throw .missingIdentity
  let absoluteUrl ← absoluteUrl join feedUrl link
  pure
    { categories := none, upstreamId, originalUrl := link, absoluteUrl, title := item.title.getD ""
      descriptionMediaType := item.summary.map fun _ => "text/plain"
      description := item.summary, contentHtml := item.contentHtml, publishedAt := item.datePublished }

def parseXml (decode : List UInt8 → Except String (List FeedEntry)) (bytes : List UInt8) :
    Except FeedError (List ParsedRecord) := do
  let entries ← (decode bytes).mapError .invalid
  entries.mapM (·.record join feedUrl)

def parseJson (decode : List UInt8 → Except String (List JsonItem)) (bytes : List UInt8) :
    Except FeedError (List ParsedRecord) := do
  let items ← (decode bytes).mapError .invalid
  items.mapM (·.record join feedUrl)

end
end Inoreader
