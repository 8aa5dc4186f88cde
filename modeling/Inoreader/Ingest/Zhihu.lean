import Inoreader.Ingest.Model
import Inoreader.Ingest.ZhihuCookies
import Inoreader.Lib.Json
import Inoreader.Lib.Proc

/-!
# Collecting from Zhihu (`reader-ingest/src/zhihu/mod.rs`, `collect.rs`)

The listing of an author is read page by page with the cookies of a session, a bounded number of pages. What a request
answers is anything: `http` sees the requests sent so far.
-/

namespace Inoreader
open Lib

/-- The parts of a parsed `Url`. -/
structure ZhihuUrl where
  scheme : List Char
  username : List Char
  password : Option (List Char)
  host : Option (List Char)
  port : Option Nat
  path : List Char
  query : Option (List Char)
  fragment : Option (List Char)
deriving DecidableEq, Repr

namespace Zhihu

def isSlugChar (c : Char) : Bool := isAsciiAlphanumeric c || c == '-' || c == '_'

/-- The author of a path: `/people/author`, or with `/posts` behind it. -/
def pathAuthor (path : List Char) : Option (List Char) :=
  match path.splitOn '/' with
  | [_, part, author] => check part author
  | [_, part, author, last] => if last = "posts".toList then check part author else none
  | _ => none
where
  check (part author : List Char) : Option (List Char) :=
    if (part = "people".toList ∨ part = "org".toList) ∧ author ≠ [] ∧ author.all isSlugChar then some author else none

def author (url : ZhihuUrl) : Option (List Char) :=
  if url.scheme ≠ "https".toList ∨ url.host ≠ some "www.zhihu.com".toList ∨ url.port.isSome ∨ url.username ≠ [] ∨
      url.password.isSome ∨ url.query.isSome ∨ url.fragment.isSome then none
  else pathAuthor url.path

/-- A `GET` with its `Cookie` header. -/
structure Request where
  url : List Char
  cookie : List Char
deriving DecidableEq, Repr

structure Response where
  status : Nat
  /-- `final_url` is the URL of the request. -/
  sameUrl : Bool
  body : List UInt8
deriving DecidableEq, Repr

/-- The answers to requests, after the requests sent before. -/
abbrev Http : Type := List Request → Request → Option Response

/-- What the service takes from its libraries: `serde_json::from_slice`, `Value::as_i64`, the date of a `DateTime::from_timestamp`,
`Url::parse` and new record ids. -/
structure Platform where
  fromSlice : List UInt8 → Option Lib.Json
  asI64 : Lib.Json → Option Int
  fromTimestamp : Int → Option PublicationDate
  parseUrl : String → Option Url
  newRecord : Nat → SourceRecordId

def origin : List Char := "https://www.zhihu.com".toList

/-- `Url::path` -/
def urlPath (path : List Char) : List Char := path.takeWhile (· != '?')

/-- `ok_or` -/
def need {α : Type} (e : ZhihuError) : Option α → Except ZhihuError α
  | none => .error e
  | some a => .ok a

section
variable (P : Platform)

def readResponse : Option Response → Except ZhihuError Lib.Json
  | none => .error .transport
  | some response =>
    if response.status = 401 ∨ response.status = 403 then .error .session
    else if response.status ≠ 200 ∨ response.sameUrl = false then .error .transport
    else need .protocol (P.fromSlice response.body)

/-- `request`; the state is the list of requests sent. -/
def request (http : Http) (cookies : Cookies) (path : List Char) : Proc (List Request) ZhihuError Lib.Json := fun sent =>
  match cookies.header (urlPath path) with
  | .error e => (.error e, sent)
  | .ok cookie =>
    let request : Request := { url := origin ++ path, cookie }
    (readResponse P (http sent request), sent ++ [request])

def mePath : List Char := "/api/v4/me".toList

/-- The answer names an account. -/
def signedIn (value : Lib.Json) : Bool :=
  match (value.get "id").bind Lib.Json.asStr with
  | none => false
  | some id => !id.isEmpty

def validate (http : Http) (cookies : Cookies) : Proc (List Request) ZhihuError Unit :=
  request P http cookies mePath >>= fun value => Proc.require (signedIn value = true) .session

/-! ## A row of the listing -/

def members : Lib.Json → Option (List (List Char × Lib.Json))
  | .object members => some members
  | _ => none

def isDigit (c : Char) : Bool := 48 ≤ c.toNat && c.toNat ≤ 57

def text (row : Lib.Json) (name : String) : Option (List Char) := (row.get name).bind Lib.Json.asStr

def flag (row : Lib.Json) (name : String) : Option Bool := (row.get name).bind Lib.Json.asBool

def rowId (row : Lib.Json) : Option (List Char) := (text row "id").filter fun id => !id.isEmpty && id.all isDigit

/-- The body is complete and free. -/
def ungated (row : Lib.Json) : Except ZhihuError Unit :=
  if flag row "content_need_truncated" ≠ some false then .error .restrictedContent
  else if flag row "force_login_when_click_read_more" ≠ some false then .error .restrictedContent
  else
    match (row.get "paid_info").bind members with
    | none => .error .protocol
    | some [] => .ok ()
    | some (_ :: _) => .error .restrictedContent

def articleUrl (id : List Char) : String := String.ofList ("https://zhuanlan.zhihu.com/p/".toList ++ id)

def parsedRecord (id title excerpt content : List Char) (url : Url) (date : PublicationDate) : ParsedRecord where
  categories := none
  upstreamId := String.ofList id
  originalUrl := articleUrl id
  absoluteUrl := some url
  title := String.ofList title
  description := some (String.ofList excerpt)
  descriptionMediaType := some "text/html"
  contentHtml := some (String.ofList content)
  publishedAt := some date

/-- The record of a row with the id `id`. -/
def readArticle (source : SourceId) (record : SourceRecordId) (id : List Char) (row : Lib.Json) :
    Except ZhihuError SourceRecord := do
  let title ← need .protocol (text row "title")
  let excerpt ← need .protocol (text row "excerpt")
  let created ← need .protocol ((row.get "created").bind P.asI64)
  let date ← need .protocol (P.fromTimestamp created)
  ungated row
  let content ← need .protocol (text row "content")
  let url ← need .protocol (P.parseUrl (articleUrl id))
  (SourceRecord.fromParsed P.parseUrl record source (parsedRecord id title excerpt content url date)).mapError fun _ =>
    .protocol

/-- The records and the ids so far. -/
structure Collected where
  records : List SourceRecord := []
  identities : List (List Char) := []
deriving DecidableEq, Repr

local instance lawfulIdentity : LawfulBEq (List Char) := inferInstance

def readRow (source : SourceId) (acc : Collected) (row : Lib.Json) : Except ZhihuError Collected :=
  match rowId row with
  | none => .error .protocol
  | some id =>
    if id ∈ acc.identities then .error .protocol
    else
      match readArticle P source (P.newRecord acc.records.length) id row with
      | .error e => .error e
      | .ok record => .ok { records := acc.records ++ [record], identities := id :: acc.identities }

def readRows (source : SourceId) (acc : Collected) : List Lib.Json → Except ZhihuError Collected
  | [] => .ok acc
  | row :: rows =>
    match readRow P source acc row with
    | .error e => .error e
    | .ok acc => readRows source acc rows

/-! ## The pages -/

/-- The rows of an answer and whether it is the last. -/
def readPage (value : Lib.Json) : Except ZhihuError (List Lib.Json × Bool) := do
  let rows ← need .protocol ((value.get "data").bind Lib.Json.asArray)
  let last ← need .protocol (((value.get "paging").bind (·.get "is_end")).bind Lib.Json.asBool)
  if rows.isEmpty && !last then .error .protocol else .ok (rows, last)

def articlesPath (author : List Char) (offset : Nat) : List Char :=
  "/api/v4/members/".toList ++ author ++ "/articles?limit=20&offset=".toList ++ (toString offset).toList ++
    "&include=data%5B%2A%5D.content".toList

/-- `checked_add` of `usize` -/
def checkedAdd (n m : Nat) : Except ZhihuError Nat := if n + m < 2 ^ 64 then .ok (n + m) else .error .protocol

/-- What `collect_inner` does with an answer: the records at the end, or what it goes on with. -/
def readAnswer (source : SourceId) (offset : Nat) (acc : Collected) (value : Lib.Json) :
    Except ZhihuError (Bool × Nat × Collected) := do
  let page ← readPage value
  let acc ← readRows P source acc page.1
  if page.2 then .ok (true, offset, acc)
  else
    let offset ← checkedAdd offset page.1.length
    .ok (false, offset, acc)

/-- The loop of `collect_inner` over the pages. -/
def collectPages (http : Http) (source : SourceId) (author : List Char) (cookies : Cookies) :
    Nat → Nat → Collected → Proc (List Request) ZhihuError (List SourceRecord)
  | 0, _, acc => pure acc.records
  | pages + 1, offset, acc =>
    request P http cookies (articlesPath author offset) >>= fun value =>
      Proc.ofExcept (readAnswer P source offset acc value) >>= fun next =>
        if next.1 then pure next.2.2.records
        else collectPages http source author cookies pages next.2.1 next.2.2

end

/-! ## Authors -/

theorem pathAuthor_slug {path name : List Char} (h : pathAuthor path = some name) :
    name ≠ [] ∧ ∀ c ∈ name, isSlugChar c = true := by
  have hcheck : ∀ part x, pathAuthor.check part x = some name → name ≠ [] ∧ ∀ c ∈ name, isSlugChar c = true := by
    intro part x hx
    unfold pathAuthor.check at hx
    split at hx
    · rename_i hok
      cases hx
      exact ⟨hok.2.1, List.all_eq_true.1 hok.2.2⟩
    · cases hx
  unfold pathAuthor at h
  split at h
  · exact hcheck _ _ h
  · split at h
    · exact hcheck _ _ h
    · cases h
  · cases h

theorem author_slug {url : ZhihuUrl} {name : List Char} (h : author url = some name) :
    name ≠ [] ∧ ∀ c ∈ name, isSlugChar c = true := by
  unfold author at h
  split at h
  · cases h
  · exact pathAuthor_slug h

/-- The path of the listing of an author, without its query. -/
def listingPath (name : List Char) : List Char := "/api/v4/members/".toList ++ name ++ "/articles".toList

theorem urlPath_articlesPath {name : List Char} (h : ∀ c ∈ name, isSlugChar c = true) (offset : Nat) :
    urlPath (articlesPath name offset) = listingPath name := by
  have hname : ∀ c ∈ listingPath name, (c != '?') = true := by
    intro c hc
    unfold listingPath at hc
    rcases List.mem_append.1 hc with hc | hc
    · rcases List.mem_append.1 hc with hc | hc
      · have hall : ("/api/v4/members/".toList.all (· != '?')) = true := by decide
        exact List.all_eq_true.1 hall c hc
      · have hslug := h c hc
        by_contra hq
        have hmark : c = '?' := by simpa using hq
        rw [hmark] at hslug
        exact absurd hslug (by decide)
    · have hall : ("/articles".toList.all (· != '?')) = true := by decide
      exact List.all_eq_true.1 hall c hc
  have hsplit : articlesPath name offset =
      listingPath name ++ '?' :: ("limit=20&offset=".toList ++ (toString offset).toList ++
        "&include=data%5B%2A%5D.content".toList) := by
    have hmark : "/articles?limit=20&offset=".toList = "/articles".toList ++ '?' :: "limit=20&offset=".toList := by decide
    unfold articlesPath listingPath
    rw [hmark]
    simp only [List.append_assoc, List.cons_append]
  rw [hsplit]
  unfold urlPath
  rw [List.takeWhile_append_of_pos hname]
  simp

/-! ## Records -/

section
variable {P : Platform} {source : SourceId} {row value : Lib.Json} {acc acc' : Collected}

theorem need_ok {α : Type} {e : ZhihuError} {o : Option α} {a : α} : need e o = .ok a ↔ o = some a := by
  cases o with
  | none => simp [need]
  | some b => simp [need]

theorem ungated_ok : ungated row = .ok () ↔
    flag row "content_need_truncated" = some false ∧ flag row "force_login_when_click_read_more" = some false ∧
      (row.get "paid_info").bind members = some [] := by
  unfold ungated
  split
  · rename_i h
    simp [h]
  · rename_i h
    split
    · rename_i h'
      simp [h']
    · rename_i h'
      simp only [ne_eq, not_not] at h h'
      split
      · rename_i hm
        simp [hm]
      · rename_i hm
        simp [hm, h, h']
      · rename_i hm
        simp [hm]

/-- The record `r` is the whole of a free article, as its row has it. -/
structure Complete (P : Platform) (source : SourceId) (row : Lib.Json) (r : SourceRecord) : Prop where
  id : rowId row = some r.upstreamId.toList
  title : text row "title" = some r.key.title.toList
  excerpt : ∃ excerpt, text row "excerpt" = some excerpt ∧ r.key.description = some (String.ofList excerpt)
  content : ∃ content, text row "content" = some content ∧ r.feedContentHtml = some (String.ofList content)
  location : ∃ url, P.parseUrl (articleUrl r.upstreamId.toList) = some url ∧ r.key.location.fetchUrl = some url
  published : ∃ created date, (row.get "created").bind P.asI64 = some created ∧ P.fromTimestamp created = some date ∧
    r.publishedAt = some date
  untruncated : flag row "content_need_truncated" = some false
  loginFree : flag row "force_login_when_click_read_more" = some false
  unpaid : (row.get "paid_info").bind members = some []
  ofSource : r.sourceId = source

theorem readArticle_ok {record : SourceRecordId} {id : List Char} {r : SourceRecord} (hid : rowId row = some id)
    (h : readArticle P source record id row = .ok r) : Complete P source row r ∧ r.upstreamId = String.ofList id := by
  unfold readArticle at h
  obtain ⟨title, htitle, h⟩ := except_bind_ok.1 h
  obtain ⟨excerpt, hexcerpt, h⟩ := except_bind_ok.1 h
  obtain ⟨created, hcreated, h⟩ := except_bind_ok.1 h
  obtain ⟨date, hdate, h⟩ := except_bind_ok.1 h
  obtain ⟨_, hfree, h⟩ := except_bind_ok.1 h
  obtain ⟨content, hcontent, h⟩ := except_bind_ok.1 h
  obtain ⟨url, hurl, h⟩ := except_bind_ok.1 h
  obtain ⟨htruncated, hlogin, hpaid⟩ := ungated_ok.1 hfree
  have hr := mapError_ok.1 h
  unfold SourceRecord.fromParsed at hr
  split at hr
  · cases hr
  · cases hr
    refine ⟨?_, rfl⟩
    constructor
    case id => simpa [parsedRecord] using hid
    case title => simpa [parsedRecord] using need_ok.1 htitle
    case excerpt => exact ⟨excerpt, need_ok.1 hexcerpt, rfl⟩
    case content => exact ⟨content, need_ok.1 hcontent, rfl⟩
    case location =>
      refine ⟨url, by simpa [parsedRecord] using need_ok.1 hurl, ?_⟩
      simp only [articleLocation, parsedRecord]
      split <;> rfl
    case published => exact ⟨created, date, need_ok.1 hcreated, need_ok.1 hdate, rfl⟩
    case untruncated => exact htruncated
    case loginFree => exact hlogin
    case unpaid => exact hpaid
    case ofSource => rfl

namespace Collected

/-- The ids are those of the records, each once. -/
def Sound (acc : Collected) : Prop :=
  acc.identities = (acc.records.map fun r => r.upstreamId.toList).reverse ∧ acc.identities.Nodup

theorem Sound.nil : ({} : Collected).Sound := ⟨rfl, List.nodup_nil⟩

theorem Sound.distinct (h : acc.Sound) : (acc.records.map fun r => r.upstreamId.toList).Nodup := by
  rw [← List.nodup_reverse, ← h.1]
  exact h.2

end Collected

theorem readRow_ok (hacc : acc.Sound) (h : readRow P source acc row = .ok acc') :
    acc'.Sound ∧ ∃ r, acc'.records = acc.records ++ [r] ∧ Complete P source row r := by
  unfold readRow at h
  split at h
  · cases h
  · rename_i id hid
    split at h
    · cases h
    · rename_i hfresh
      split at h
      · cases h
      · rename_i r hr
        cases h
        obtain ⟨hcomplete, hupstream⟩ := readArticle_ok hid hr
        refine ⟨⟨?_, ?_⟩, r, rfl, hcomplete⟩
        · simp [hacc.1, hupstream]
        · exact List.nodup_cons.2 ⟨hfresh, hacc.2⟩

theorem readRows_ok {rows : List Lib.Json} (hacc : acc.Sound) (h : readRows P source acc rows = .ok acc') :
    acc'.Sound ∧ ∃ rs, acc'.records = acc.records ++ rs ∧ List.Forall₂ (Complete P source) rows rs := by
  induction rows generalizing acc with
  | nil =>
    cases h
    exact ⟨hacc, [], by simp, .nil⟩
  | cons row rows ih =>
    unfold readRows at h
    split at h
    · cases h
    · rename_i next hnext
      obtain ⟨hsound, r, hr, hcomplete⟩ := readRow_ok hacc hnext
      obtain ⟨hsound', rs, hrs, hall⟩ := ih hsound h
      exact ⟨hsound', r :: rs, by simp [hrs, hr], .cons hcomplete hall⟩

theorem readPage_ok {rows : List Lib.Json} {last : Bool} (h : readPage value = .ok (rows, last)) :
    last = false → rows ≠ [] := by
  unfold readPage at h
  obtain ⟨rows', -, h⟩ := except_bind_ok.1 h
  obtain ⟨last', -, h⟩ := except_bind_ok.1 h
  split at h
  · cases h
  · rename_i hne
    cases h
    rintro rfl
    simpa using hne

theorem readAnswer_ok {offset : Nat} {last : Bool} {next : Nat} (hacc : acc.Sound)
    (h : readAnswer P source offset acc value = .ok (last, next, acc')) :
    ∃ rows rs, readPage value = .ok (rows, last) ∧ acc'.Sound ∧ acc'.records = acc.records ++ rs ∧
      List.Forall₂ (Complete P source) rows rs ∧ (last = false → next = offset + rows.length) := by
  unfold readAnswer at h
  obtain ⟨⟨rows, last'⟩, hpage, h⟩ := except_bind_ok.1 h
  obtain ⟨acc'', hrows, h⟩ := except_bind_ok.1 h
  obtain ⟨hsound, rs, hrs, hall⟩ := readRows_ok hacc hrows
  dsimp only at h
  split at h
  · rename_i hlast
    cases h
    exact ⟨rows, rs, by rw [hpage, hlast], hsound, hrs, hall, fun h => by cases h⟩
  · rename_i hlast
    obtain ⟨next', hnext, h⟩ := except_bind_ok.1 h
    cases h
    refine ⟨rows, rs, by rw [hpage, Bool.eq_false_iff.2 hlast], hsound, hrs, hall, fun _ => ?_⟩
    unfold checkedAdd at hnext
    split at hnext
    · cases hnext
      rfl
    · cases hnext

/-! ## Runs of pages -/

/-- The request for the page at `offset`. -/
def listing (name cookie : List Char) (offset : Nat) : Request := { url := origin ++ articlesPath name offset, cookie }

/-- The offsets that are asked for: `offset` and then larger ones, at most one for each page. -/
structure Asked (pages offset : Nat) (offsets : List Nat) : Prop where
  bounded : offsets.length ≤ pages
  first : ∀ o ∈ offsets.head?, o = offset
  above : ∀ o ∈ offsets, offset ≤ o
  increasing : offsets.Pairwise (· < ·)

/-- What the requests were answered, from the one for `offset` on: each page begins where the one before it ends. -/
inductive Answers (P : Platform) (http : Http) (name cookie : List Char) :
    List Request → Nat → List Nat → List (List Lib.Json × Bool) → Prop
  | nil {sent : List Request} {offset : Nat} : Answers P http name cookie sent offset [] []
  | cons {sent : List Request} {offset : Nat} {value : Lib.Json} {page : List Lib.Json × Bool} {offsets : List Nat}
      {pages : List (List Lib.Json × Bool)}
      (hanswer : readResponse P (http sent (listing name cookie offset)) = .ok value) (hpage : readPage value = .ok page)
      (hrest : Answers P http name cookie (sent ++ [listing name cookie offset]) (offset + page.1.length) offsets pages) :
      Answers P http name cookie sent offset (offset :: offsets) (page :: pages)

/-- The records are the rows of all pages up to the last one or to the limit. -/
structure Window (P : Platform) (source : SourceId) (limit : Nat) (pages : List (List Lib.Json × Bool))
    (records : List SourceRecord) : Prop where
  complete : List.Forall₂ (Complete P source) (pages.flatMap (·.1)) records
  notLast : ∀ page ∈ pages.dropLast, page.2 = false
  ended : pages.length = limit ∨ ∃ page ∈ pages.getLast?, page.2 = true

section
variable {http : Http} {name cookie : List Char} {cookies : Cookies} {sent sent' : List Request} {offset limit : Nat}

theorem request_eq {path : List Char} (h : cookies.header (urlPath path) = .ok cookie) (sent : List Request) :
    request P http cookies path sent =
      (readResponse P (http sent { url := origin ++ path, cookie }), sent ++ [{ url := origin ++ path, cookie }]) := by
  unfold request
  rw [h]

theorem Asked.single : Asked (limit + 1) offset [offset] where
  bounded := by simp
  first := by simp
  above := by simp
  increasing := by simp

theorem Asked.cons {offsets : List Nat} {next : Nat} (h : Asked limit next offsets) (hlt : offset < next) :
    Asked (limit + 1) offset (offset :: offsets) where
  bounded := by simpa using h.bounded
  first := by simp
  above := by
    intro o ho
    rcases List.mem_cons.1 ho with rfl | ho
    · exact le_refl _
    · exact le_trans (le_of_lt hlt) (h.above o ho)
  increasing := List.pairwise_cons.2 ⟨fun o ho => lt_of_lt_of_le hlt (h.above o ho), h.increasing⟩

theorem Window.last {page : List Lib.Json × Bool} {rs : List SourceRecord} (hlast : page.2 = true)
    (h : List.Forall₂ (Complete P source) page.1 rs) : Window P source (limit + 1) [page] rs where
  complete := by simpa using h
  notLast := by simp
  ended := .inr ⟨page, by simp, hlast⟩

theorem Window.cons {page : List Lib.Json × Bool} {pages : List (List Lib.Json × Bool)} {rs rs' : List SourceRecord}
    (hlast : page.2 = false) (h : List.Forall₂ (Complete P source) page.1 rs) (hpages : Window P source limit pages rs') :
    Window P source (limit + 1) (page :: pages) (rs ++ rs') where
  complete := by
    rw [List.flatMap_cons]
    exact List.rel_append h hpages.complete
  notLast := by
    intro p hp
    cases pages with
    | nil => simp at hp
    | cons q qs =>
      rw [List.dropLast_cons_cons] at hp
      rcases List.mem_cons.1 hp with rfl | hp
      · exact hlast
      · exact hpages.notLast p hp
  ended := by
    rcases hpages.ended with hlen | ⟨p, hp, hend⟩
    · exact .inl (by simp [hlen])
    · refine .inr ⟨p, ?_, hend⟩
      cases pages with
      | nil => simp at hp
      | cons q qs => rwa [List.getLast?_cons_cons]

/-- The pages from `offset` on, whatever is answered. -/
theorem collectPages_run {r : Except ZhihuError (List SourceRecord)} (hname : ∀ c ∈ name, isSlugChar c = true)
    (hcookie : cookies.header (listingPath name) = .ok cookie) (hacc : acc.Sound)
    (h : collectPages P http source name cookies limit offset acc sent = (r, sent')) :
    ∃ offsets, Asked limit offset offsets ∧ sent' = sent ++ offsets.map (listing name cookie) ∧
      ∀ records, r = .ok records → (records.map fun r => r.upstreamId.toList).Nodup ∧
        ∃ pages rs, Answers P http name cookie sent offset offsets pages ∧ records = acc.records ++ rs ∧
          Window P source limit pages rs := by
  induction limit generalizing offset acc sent with
  | zero =>
    obtain ⟨rfl, rfl⟩ := Proc.pure_eq.1 h
    refine ⟨[], ⟨by simp, by simp, by simp, by simp⟩, by simp, ?_⟩
    rintro records hr
    cases hr
    exact ⟨hacc.distinct, [], [], .nil, by simp, ⟨by simp, by simp, .inl rfl⟩⟩
  | succ limit ih =>
    have hheader : cookies.header (urlPath (articlesPath name offset)) = .ok cookie := by
      rw [urlPath_articlesPath hname, hcookie]
    unfold collectPages at h
    rcases hanswer : readResponse P (http sent (listing name cookie offset)) with e | value
    · rw [Proc.bind_error ((request_eq hheader sent).trans (Prod.ext hanswer rfl))] at h
      cases h
      exact ⟨[offset], .single, rfl, fun records hr => by cases hr⟩
    rw [Proc.bind_ok ((request_eq hheader sent).trans (Prod.ext hanswer rfl))] at h
    rcases hread : readAnswer P source offset acc value with e | ⟨last, next, acc'⟩
    · rw [hread] at h
      cases h
      exact ⟨[offset], .single, rfl, fun records hr => by cases hr⟩
    obtain ⟨rows, rs, hpage, hsound, hrecords, hcomplete, hnext⟩ := readAnswer_ok hacc hread
    rw [hread] at h
    change (if last = true then pure acc'.records
      else collectPages P http source name cookies limit next acc') (sent ++ [listing name cookie offset]) = (r, sent') at h
    split at h
    · rename_i hlast
      obtain ⟨rfl, rfl⟩ := Proc.pure_eq.1 h
      refine ⟨[offset], .single, rfl, ?_⟩
      intro records hr
      cases hr
      exact ⟨hsound.distinct, [(rows, last)], rs, .cons hanswer hpage .nil, hrecords, .last hlast hcomplete⟩
    · rename_i hlast
      have hfalse : last = false := Bool.eq_false_iff.2 hlast
      have hlt : offset < next := by
        have hpos : 0 < rows.length := List.length_pos_of_ne_nil (readPage_ok hpage hfalse)
        rw [hnext hfalse]
        omega
      obtain ⟨offsets, hasked, hsent, hok⟩ := ih hsound h
      refine ⟨offset :: offsets, hasked.cons hlt, by rw [hsent]; simp, ?_⟩
      intro records hr
      obtain ⟨hdistinct, pages, rs', hanswers, hrest, hwindow⟩ := hok records hr
      refine ⟨hdistinct, (rows, last) :: pages, rs ++ rs', .cons hanswer hpage ?_, ?_, .cons hfalse hcomplete hwindow⟩
      · rw [hnext hfalse] at hanswers
        exact hanswers
      · rw [hrest, hrecords, List.append_assoc]

/-- A collection reads the listing of its author from the first row on, a page after another and none twice, with one `Cookie`
header for all of them. Where it succeeds, its records are the rows of these pages, whole and free and each id once, up to
the last page of the listing or to the limit. -/
theorem collect_window {url : ZhihuUrl} {r : Except ZhihuError (List SourceRecord)} (hauthor : author url = some name)
    (h : collectPages P http source name cookies limit 0 {} sent = (r, sent')) :
    ∃ cookie offsets, cookies.header (listingPath name) = .ok cookie ∧ Asked limit 0 offsets ∧
      sent' = sent ++ offsets.map (listing name cookie) ∧
      ∀ records, r = .ok records → (records.map fun r => r.upstreamId.toList).Nodup ∧
        ∃ pages, Answers P http name cookie sent 0 offsets pages ∧ Window P source limit pages records := by
  obtain ⟨hheader, -⟩ := Cookies.header_eq cookies (listingPath name)
  obtain ⟨offsets, hasked, hsent, hok⟩ := collectPages_run (author_slug hauthor).2 hheader Collected.Sound.nil h
  refine ⟨_, offsets, hheader, hasked, hsent, ?_⟩
  intro records hr
  obtain ⟨hdistinct, pages, rs, hanswers, hrecords, hwindow⟩ := hok records hr
  have hrs : records = rs := hrecords
  exact ⟨hdistinct, pages, hanswers, by rwa [hrs]⟩

end

end

/-! A listing of two articles on two pages. -/

namespace Sample

def rowText (id : String) : String :=
  "\x7b\"id\":\"" ++ id ++ "\",\"title\":\"T\",\"excerpt\":\"E\",\"created\":1700000000,\"content\":\"C\"," ++
    "\"content_need_truncated\":false,\"force_login_when_click_read_more\":false,\"paid_info\":\x7b\x7d\x7d"

def pageText (id last : String) : String :=
  "\x7b\"data\":[" ++ rowText id ++ "],\"paging\":\x7b\"is_end\":" ++ last ++ "\x7d\x7d"

def row (id : String) : Lib.Json :=
  .obj [("id", .ofText id), ("title", .ofText "T"), ("excerpt", .ofText "E"), ("created", .number (some 1700000000)),
    ("content", .ofText "C"), ("content_need_truncated", .bool false), ("force_login_when_click_read_more", .bool false),
    ("paid_info", .object [])]

def page (id : String) (last : Bool) : Lib.Json := .obj [("data", .array [row id]), ("paging", .obj [("is_end", .bool last)])]

def bytes (text : String) : List UInt8 := text.toByteArray.data.toList

def meText : String := "\x7b\"id\":\"m\"\x7d"

/-- The libraries on the texts of the sample. -/
def platform : Platform where
  fromSlice body :=
    if body = bytes (pageText "11" "false") then some (page "11" false)
    else if body = bytes (pageText "12" "true") then some (page "12" true)
    else if body = bytes meText then some (.obj [("id", .ofText "m")])
    else none
  asI64 value := value.asU64.map Int.ofNat
  fromTimestamp t :=
    if t = 1700000000 then some { text := "2023-11-14T22:13:20+00:00", day := 19675, clock := 1700000000000000000 } else none
  parseUrl text := some { text, scheme := "https", host := some "zhuanlan.zhihu.com", port := none }
  newRecord n := ⟨n⟩

def http : Http := fun sent _ =>
  some { status := 200, sameUrl := true
         body := bytes (if sent = [] then pageText "11" "false" else pageText "12" "true") }

def url : ZhihuUrl where
  scheme := "https".toList
  username := []
  password := none
  host := some "www.zhihu.com".toList
  port := none
  path := "/people/a/posts".toList
  query := none
  fragment := none

def session : Cookies where
  cookies := [⟨"z_c0".toList, "A".toList, ['/']⟩]
  session := by decide
  valid := by decide

def run : Except ZhihuError (List SourceRecord) × List Request := collectPages platform http ⟨7⟩ ['a'] session 5 0 {} []

def ids : Except ZhihuError (List SourceRecord) → List String
  | .error _ => []
  | .ok records => records.map (·.upstreamId)

theorem collect_window_posts : ids run.1 = ["11", "12"] ∧ ∃ cookie offsets, session.header (listingPath ['a']) = .ok cookie ∧
    Asked 5 0 offsets ∧ run.2 = offsets.map (listing ['a'] cookie) ∧ offsets.length = 2 := by
  have hrun : collectPages platform http ⟨7⟩ ['a'] session 5 0 {} [] = (run.1, run.2) := (Prod.eta run).symm
  have hauthor : author url = some ['a'] := by decide
  obtain ⟨cookie, offsets, hcookie, hasked, hsent, -⟩ := collect_window hauthor hrun
  have hlen : run.2.length = 2 := by decide +kernel
  refine ⟨by decide +kernel, cookie, offsets, hcookie, hasked, hsent, ?_⟩
  rw [hsent] at hlen
  simpa using hlen

end Sample

end Zhihu
end Inoreader
