import Inoreader.Core.Article

/-!
# Observed posts (`reader-glossary/src/post.rs`, `public_history.rs`, `model.rs`)

A post of the channel is observed in the archive, on a public page or as an event of the bot. Its text is projected
by a parser that has a version; what the parser makes of HTML and of a message is a parameter. JSON is read and
written by the platform, a public page is given by the elements that its selectors find.
-/

namespace Inoreader

inductive GlossaryError
  | configuration | identity | formatting | unsupported | conflict | notFound | storage | transport | protocol
  | notConnected | receiverConflict | rateLimited (seconds : Nat) | limit
deriving DecidableEq, Repr

def GlossaryError.text : GlossaryError → String
  | .configuration => "Invalid glossary configuration"
  | .identity => "Invalid channel identity"
  | .formatting => "Invalid text or formatting offsets"
  | .unsupported => "Unsupported channel formatting; original retained for replay"
  | .conflict => "Conflicting channel observation; original records retained"
  | .notFound => "Glossary not found or access denied"
  | .storage => "Glossary storage unavailable"
  | .transport => "Telegram request failed"
  | .protocol => "Telegram returned an invalid response"
  | .notConnected => "Telegram bot is not connected"
  | .receiverConflict => "Telegram bot is already used by another receiver"
  | .rateLimited seconds => s!"Telegram retry required after {seconds} seconds"
  | .limit => "Glossary operation exceeded a configured limit"

/-- `CHANNEL_USERNAME`. -/
def channelUsername : String := "reading_data_news"

/-! ## JSON -/

/-- A JSON value, kept as its compact text (`serde_json::to_string`). -/
structure Json where
  text : String
deriving DecidableEq, Repr

/-- `serde_json` and the time formats. -/
structure GlossaryPlatform where
  parseJson : String → Option Json
  /-- `Value::get` of a key. -/
  get? : Json → String → Option Json
  asI64 : Json → Option Int
  asStr : Json → Option String
  object : List (String × Json) → Json
  string : String → Json
  number : Int → Json
  null : Json
  /-- `DateTime::parse_from_rfc3339`. -/
  parseTime : String → Option DateTime

/-- `value[key]`: a missing field is `null`. -/
def GlossaryPlatform.index (P : GlossaryPlatform) (v : Json) (key : String) : Json := (P.get? v key).getD P.null

/-- `DateTime::from_timestamp(seconds, 0)`. -/
def fromTimestamp (seconds : Int) : Option DateTime :=
  if -8334601228800 ≤ seconds ∧ seconds ≤ 8210266876799 then some (seconds * 1000000000) else none

/-! ## Posts -/

/-- A definition; its paragraph is kept as text. -/
structure Definition where
  term : String
  position : Nat
  paragraph : String
deriving DecidableEq, Repr

inductive PostProjection
  | indexed (content : String) (definitions : List Definition)
  | unindexed (error : String)
deriving DecidableEq, Repr

/-- The definitions that a projection indexes. -/
def PostProjection.definitions : PostProjection → List Definition
  | .indexed _ definitions => definitions
  | .unindexed _ => []

def PostProjection.error : PostProjection → Option String
  | .indexed _ _ => none
  | .unindexed error => some error

/-- A version of the parser: `project(styled_html(html))` and `project(telegram_text(message))`. -/
structure GlossaryParser where
  version : String
  html : String → PostProjection
  message : Json → PostProjection

/-- The parsers of all versions. -/
structure ParserFamily where
  html : String → String → PostProjection
  message : String → Json → PostProjection

def ParserFamily.parser (f : ParserFamily) (version : String) : GlossaryParser where
  version := version
  html := f.html version
  message := f.message version

structure ObservedPost where
  id : Int
  publishedAt : Option DateTime
  editedAt : Option Int
  raw : String
  projection : PostProjection
deriving DecidableEq, Repr

namespace ObservedPost
variable (P : GlossaryPlatform) (parser : GlossaryParser)

def permalink (id : Int) : String := s!"https://t.me/{channelUsername}/{id}"

/-- The `timestamp` of an archived post. -/
def timestamp (v : Json) : Except GlossaryError (Option DateTime) :=
  if v = P.null then .ok none
  else match (P.asStr v).bind P.parseTime with
    | some t => .ok (some t)
    | none => .error .protocol

def archive (raw : String) : Except GlossaryError ObservedPost :=
  match P.parseJson raw with
  | none => .error .protocol
  | some value =>
    if P.asStr (P.index value "channel") ≠ some channelUsername then .error .identity
    else match (P.asI64 (P.index value "id")).filter (0 < ·) with
      | none => .error .identity
      | some id =>
        if P.asStr (P.index value "permalink") ≠ some (permalink id) then .error .identity
        else match timestamp P (P.index value "timestamp"), P.asStr (P.index value "formatted_html") with
          | .error e, _ => .error e
          | .ok _, none => .error .protocol
          | .ok publishedAt, some content =>
            .ok { id, publishedAt, editedAt := none, raw, projection := parser.html content }

/-- `edit_date` is absent or not before the date of the post. -/
def editDate (value : Json) (date : Int) : Except GlossaryError (Option Int) :=
  match P.get? value "edit_date" with
  | none => .ok none
  | some v =>
    match (P.asI64 v).filter (date ≤ ·) with
    | some edit => .ok (some edit)
    | none => .error .protocol

def telegram (value : Json) (channelId : Int) : Except GlossaryError ObservedPost :=
  if 0 ≤ channelId ∨ P.asI64 (P.index (P.index value "chat") "id") ≠ some channelId ∨
      P.asStr (P.index (P.index value "chat") "type") ≠ some "channel" then .error .identity
  else match (P.asI64 (P.index value "message_id")).filter (0 < ·), P.asI64 (P.index value "date") with
    | none, _ => .error .identity
    | some _, none => .error .protocol
    | some id, some date =>
      match fromTimestamp date, editDate P value date with
      | none, _ => .error .protocol
      | some _, .error e => .error e
      | some publishedAt, .ok editedAt =>
        .ok { id, publishedAt := some publishedAt, editedAt, raw := value.text, projection := parser.message value }

end ObservedPost

/-! ## Public pages -/

/-- An element `.tgme_widget_message[data-post]` of a page: the two parts of the attribute at its first slash with the
id parsed, the inner HTML of its text, its `datetime` and its own HTML. -/
structure PageNode where
  channel : String
  id : Option Int
  formatted : Option String
  date : Option String
  html : String
deriving DecidableEq, Repr

structure PublicPage where
  raw : String
  posts : List ObservedPost
  before : Option Int
deriving DecidableEq, Repr

namespace PageNode
variable (P : GlossaryPlatform) (parser : GlossaryParser)

/-- The archive record that is made of an element. -/
def record (n : PageNode) (id : Int) : Json :=
  P.object [("id", P.number id), ("channel", P.string channelUsername),
    ("permalink", P.string (ObservedPost.permalink id)), ("timestamp", (n.date.map P.string).getD P.null),
    ("formatted_html", P.string (n.formatted.getD "")), ("raw_post_html", P.string n.html),
    ("provenance", P.object [("transport", P.string "direct_public_preview")])]

/-- The loop over the elements; `seen` are the ids of the posts so far. -/
def posts (before : Option Int) : List PageNode → (seen : List Int) → Except GlossaryError (List ObservedPost)
  | [], _ => .ok []
  | n :: rest, seen =>
    if n.channel ≠ channelUsername then .error .identity
    else match n.id with
      | none => .error .identity
      | some id =>
        if before.any (· ≤ id) then posts before rest seen
        else if id ∈ seen then .error .conflict
        else match ObservedPost.archive P parser (n.record P id).text with
          | .error e => .error e
          | .ok post => (posts before rest (id :: seen)).map (post :: ·)

end PageNode

/-- `parse_public_page` of the page `raw` with the elements `nodes`. -/
def parsePublicPage (P : GlossaryPlatform) (parser : GlossaryParser) (raw : String) (nodes : List PageNode)
    (before : Option Int) : Except GlossaryError PublicPage :=
  match PageNode.posts P parser before nodes [] with
  | .error e => .error e
  | .ok [] => .error .protocol
  | .ok (post :: posts) =>
    .ok { raw, posts := post :: posts
          before := some ((posts.map (·.id)).foldl min post.id) |>.filter (1 < ·) }

end Inoreader
