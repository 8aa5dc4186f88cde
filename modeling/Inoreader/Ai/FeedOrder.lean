import Mathlib.Data.Prod.Lex
import Mathlib.Data.String.Basic
import Inoreader.Ai.Interests
import Inoreader.Lib.Decimal
import Inoreader.Lib.Keyset
import Inoreader.Library.States

/-!
# The smart and the random feed (`reader-storage-postgres/src/ai/interests.rs`)

The unread articles that a workspace shows are read in pages, by their score and arrival or by a hash of their id. The
cursor of a page carries the key of its last row as JSON; it is checked when it comes back.
-/

namespace Inoreader
open Lib Lib.Keyset

inductive FeedOrder
  | smart (showHidden : Bool)
  | random (seed : Nat)
deriving DecidableEq, Repr

structure FeedCursor where
  revision : String
  score : Int
  arrival : String
  article : String
  seed : Option Nat
deriving DecidableEq, Repr

/-- What the feed takes from elsewhere: `hashtextextended` of an id under the hash of a seed, the plain text of HTML, the
text of a UUID and the JSON text of a cursor. -/
structure FeedPlatform where
  hash : Nat → ArticleId → Int
  plainText : String → String
  uuidText : ArticleId → String
  parseUuid : String → Option ArticleId
  encode : FeedCursor → String
  decode : String → Option FeedCursor

/-- A row of the feed query. -/
structure FeedRow where
  article : ArticleId
  title : String
  description : String
  prediction : Option InterestPrediction
  error : Option String
  score : Int
  /-- The arrival, or the hash. -/
  order : Int
deriving DecidableEq, Repr

/-- What the feed is ordered by; an id is compared as text. -/
abbrev FeedKey := ℤ ×ₗ ℤ ×ₗ String

def FeedRow.key (F : FeedPlatform) (row : FeedRow) : FeedKey :=
  toLex (row.score, toLex (row.order, F.uuidText row.article))

structure SmartArticle where
  id : ArticleId
  title : String
  excerpt : String
  prediction : Option InterestPrediction
  error : Option String
deriving DecidableEq, Repr

structure SmartFeed where
  profile : Option InterestProfile
  articles : List SmartArticle
  total : Nat
  scored : Nat
  failed : Nat
  nextCursor : Option String
deriving DecidableEq, Repr

def FeedOrder.showHidden : FeedOrder → Bool
  | .smart showHidden => showHidden
  | .random _ => false

def FeedOrder.seed : FeedOrder → Option Nat
  | .smart _ => none
  | .random seed => some seed

/-- The key of a cursor as the query reads it. -/
def FeedCursor.key (c : FeedCursor) : FeedKey := toLex (c.score, toLex (readInt c.arrival.toList, c.article))

/-- The checks of a cursor that comes back. -/
def FeedCursor.accepted (F : FeedPlatform) (seed : Option Nat) (revision : String) (c : FeedCursor) : Bool :=
  c.seed == seed && c.revision == revision && decide (0 ≤ c.score ∧ c.score ≤ 10) &&
    !(unsigned c.arrival.toList).isEmpty && (unsigned c.arrival.toList).all Char.isDigit && (F.parseUuid c.article).isSome

section
variable (P : AiPlatform) (F : FeedPlatform) (db : AiDb) (owner : AccountId) (w : WorkspaceId)

/-- The revision of the profile that scores belong to. -/
def AiDb.profileRevision (db : AiDb) (owner : AccountId) : Nat :=
  ((db.interestProfiles.lookup owner).map (·.revision)).getD 0

/-- `LEFT JOIN interest_scores`. -/
def AiDb.feedScore (db : AiDb) (owner : AccountId) (w : WorkspaceId) (i : ArticleId) : Option ScoreRow :=
  db.interestScores.lookup { owner, workspace := w, article := i, profileRevision := db.profileRevision owner }

/-- `NOT a.is_read AND reader_article_visible(a)`. -/
def AiDb.feedArticles : List (ArticleId × Article) :=
  (db.policy.library.workspaceArticles w).filter fun row =>
    !row.2.state.read && P.articleVisible db.policy.library (w, row.1)

/-- `$8 OR s.dirty OR s.score IS DISTINCT FROM 1`. -/
def AiDb.feedShows (showHidden : Bool) (i : ArticleId) : Bool :=
  showHidden || match db.feedScore owner w i with
    | none => true
    | some s => s.dirty || s.score != some 1

def AiDb.feedRow (order : FeedOrder) (row : ArticleId × Article) : FeedRow :=
  let s := db.feedScore owner w row.1
  let dirty := s.any (·.dirty)
  { article := row.1, title := row.2.key.title, description := row.2.key.description.getD ""
    prediction := if dirty then none else s.bind (·.prediction)
    error := s.bind (·.error)
    score := if order.seed.isSome || dirty then 0 else ((s.bind (·.score)).getD 0 : Nat)
    order := match order with
      | .smart _ => row.2.firstArrivedAt
      | .random seed => F.hash seed row.1 }

/-- The selected rows, by their keys in descending order. -/
def AiDb.feedRows (order : FeedOrder) : List FeedRow :=
  List.insertionSort (fun x y => y.key F ≤ x.key F)
    (((db.feedArticles P w).filter fun row => db.feedShows owner w order.showHidden row.1).map (db.feedRow F owner w order))

def FeedRow.toArticle (row : FeedRow) : SmartArticle :=
  { id := row.article, title := row.title, excerpt := F.plainText row.description, prediction := row.prediction
    error := row.error }

/-- The cursor after a row. -/
def FeedRow.cursor (revision : Nat) (seed : Option Nat) (row : FeedRow) : FeedCursor :=
  { revision := toString revision, score := row.score, arrival := String.ofList (intChars row.order)
    article := F.uuidText row.article, seed }

/-- The cursor of a call. -/
def feedPosition : Option String → AiTx (Option FeedCursor)
  | none => pure none
  | some text => do
    let c ← Tx.orThrow (F.decode text) .rejected
    pure (some c)

/-- `feed_order`. -/
def feedOrder (cursor : Option String) (limit : Nat) (order : FeedOrder) : AiTx SmartFeed := do
  ownedWorkspace owner w
  Tx.require (limit ≠ 0) .rejected
  let db ← Tx.get
  let revision := db.profileRevision owner
  let position ← feedPosition F cursor
  Tx.require (position.all fun c => c.accepted F order.seed (toString revision)) .conflict
  let counted := (db.feedArticles P w).map fun row => db.feedScore owner w row.1
  let rows := ((db.feedRows P F owner w order).filter fun row =>
    position.all fun c => row.key F < c.key).take (limit + 1)
  let articles := rows.take limit
  pure
    { profile := db.interestProfiles.lookup owner
      articles := articles.map (·.toArticle F)
      total := counted.length
      scored := counted.countP fun s => s.any fun s => s.status == .scored && !s.dirty
      failed := counted.countP fun s => s.any fun s => s.status == .failed
      nextCursor := if limit < rows.length then
        articles.getLast?.map fun row => F.encode (row.cursor F revision order.seed) else none }

end

/-- Calls that follow the cursors to the end, each accepted. -/
inductive FeedChain (call : Option String → Except AiError SmartFeed) : Option String → List SmartFeed → Prop
  | last {c : Option String} {feed : SmartFeed} (h : call c = .ok feed) (hlast : feed.nextCursor = none) :
    FeedChain call c [feed]
  | more {c : Option String} {c' : String} {feed : SmartFeed} {feeds : List SmartFeed} (h : call c = .ok feed)
    (hnext : feed.nextCursor = some c') (hrest : FeedChain call (some c') feeds) : FeedChain call c (feed :: feeds)

section
variable {P : AiPlatform} {F : FeedPlatform} {db : AiDb} {owner : AccountId} {w : WorkspaceId} {order : FeedOrder}
  {limit : Nat} {row : FeedRow}

/-- `CHECK(score BETWEEN 1 AND 10)`. -/
def AiDb.ScoresInRange (db : AiDb) : Prop :=
  db.interestScores.All fun _ s => ∀ n, s.score = some n → 1 ≤ n ∧ n ≤ 10

/-- The codecs read back what they wrote for a row. -/
structure FeedRow.Written (F : FeedPlatform) (revision : Nat) (seed : Option Nat) (row : FeedRow) : Prop where
  cursor : F.decode (F.encode (row.cursor F revision seed)) = some (row.cursor F revision seed)
  uuid : F.parseUuid (F.uuidText row.article) = some row.article

theorem mem_feedRows : row ∈ db.feedRows P F owner w order ↔
    ∃ a ∈ db.feedArticles P w, db.feedShows owner w order.showHidden a.1 = true ∧ db.feedRow F owner w order a = row := by
  unfold AiDb.feedRows
  rw [List.mem_insertionSort, List.mem_map]
  simp only [List.mem_filter, and_assoc]

/-- The rows are the selected articles, each once. -/
theorem perm_feedRows : ((db.feedRows P F owner w order).map (·.article)).Perm (((db.feedArticles P w).filter fun row =>
    db.feedShows owner w order.showHidden row.1).map (·.1)) := by
  have h := (List.perm_insertionSort (fun x y : FeedRow => y.key F ≤ x.key F)
    (((db.feedArticles P w).filter fun row => db.feedShows owner w order.showHidden row.1).map
      (db.feedRow F owner w order))).map (·.article)
  rw [List.map_map] at h
  exact h

theorem nodup_feedRows : ((db.feedRows P F owner w order).map (·.article)).Nodup := by
  rw [perm_feedRows.nodup_iff]
  exact (nodup_workspaceArticles db.policy.library).sublist ((List.filter_sublist.trans List.filter_sublist).map _)

/-- The cursor of a row carries its key. -/
theorem cursor_key (revision : Nat) (seed : Option Nat) (row : FeedRow) : (row.cursor F revision seed).key = row.key F := by
  unfold FeedCursor.key FeedRow.cursor
  dsimp only
  rw [String.toList_ofList, readInt_intChars]
  rfl

/-- The effective score of a row is between zero and ten. -/
theorem score_range (hscores : db.ScoresInRange) (hrow : row ∈ db.feedRows P F owner w order) :
    0 ≤ row.score ∧ row.score ≤ 10 := by
  obtain ⟨a, -, -, rfl⟩ := mem_feedRows.1 hrow
  unfold AiDb.feedRow
  dsimp only
  split
  · exact ⟨le_refl 0, by decide⟩
  · cases hs : db.feedScore owner w a.1 with
    | none => exact ⟨le_refl 0, by decide⟩
    | some s =>
      rw [Option.bind_some]
      cases hn : s.score with
      | none => exact ⟨le_refl 0, by decide⟩
      | some n =>
        have hle := (hscores _ s hs n hn).2
        rw [Option.getD_some]
        omega

/-- An issued cursor is accepted. -/
theorem cursor_accepted {revision : Nat} (hscores : db.ScoresInRange) (hrow : row ∈ db.feedRows P F owner w order)
    (h : row.Written F revision order.seed) :
    (row.cursor F revision order.seed).accepted F order.seed (toString revision) = true := by
  obtain ⟨hmin, hmax⟩ := score_range hscores hrow
  have hdigits := isDigit_toDigits row.order.natAbs
  have hne : (Nat.toDigits 10 row.order.natAbs).isEmpty = false := by
    rw [List.isEmpty_eq_false_iff]
    exact Nat.toDigits_ne_nil
  unfold FeedCursor.accepted FeedRow.cursor
  dsimp only
  rw [String.toList_ofList, unsigned_intChars, h.uuid, hdigits, hne]
  simp [hmin, hmax]

/-- The rows have different keys, since each has its article. -/
theorem feedRows_ordered
    (hwritten : ∀ row ∈ db.feedRows P F owner w order, row.Written F (db.profileRevision owner) order.seed) :
    Ordered (· < ·) (FeedRow.key F) (db.feedRows P F owner w order) := by
  have hsorted : (db.feedRows P F owner w order).Pairwise fun x y => y.key F ≤ x.key F :=
    List.pairwise_insertionSort (fun x y : FeedRow => y.key F ≤ x.key F) _
  refine (hsorted.and (List.pairwise_map.1 nodup_feedRows)).imp_of_mem fun {x y} hx hy h => ?_
  refine lt_of_le_of_ne h.1 fun he => h.2 ?_
  have htext : F.uuidText y.article = F.uuidText x.article := congrArg (fun k : FeedKey => (ofLex (ofLex k).2).2) he
  have hread := (hwritten y hy).uuid
  rw [htext, (hwritten x hx).uuid] at hread
  exact Option.some.inj hread

/-- The rows behind a place; the cursor is the text of it. -/
def FeedPlace (P : AiPlatform) (F : FeedPlatform) (db : AiDb) (owner : AccountId) (w : WorkspaceId) (order : FeedOrder)
    (c : Option FeedKey) (c' : Option String) : Prop :=
  (c = none ∧ c' = none) ∨ ∃ row ∈ db.feedRows P F owner w order, c = some (row.key F) ∧
    c' = some (F.encode (row.cursor F (db.profileRevision owner) order.seed))

/-- A call at a place answers with its page. -/
theorem feedOrder_page (howned : db.policy.ownsWorkspace owner w = true) (hlimit : 0 < limit) (hscores : db.ScoresInRange)
    (hwritten : ∀ row ∈ db.feedRows P F owner w order, row.Written F (db.profileRevision owner) order.seed)
    {c : Option FeedKey} {c' : Option String} (hc : FeedPlace P F db owner w order c c') :
    ∃ feed, feedOrder P F owner w c' limit order db = .ok (feed, db) ∧
      feed.articles = (Keyset.read (· < ·) (FeedRow.key F) limit (db.feedRows P F owner w order) c).1.map (·.toArticle F) ∧
      feed.nextCursor = if (Keyset.read (· < ·) (FeedRow.key F) limit (db.feedRows P F owner w order) c).2 then
        (Keyset.read (· < ·) (FeedRow.key F) limit (db.feedRows P F owner w order) c).1.getLast?.map
          (fun row => F.encode (row.cursor F (db.profileRevision owner) order.seed)) else none := by
  -- the position that the call decodes, and the rows that its query selects
  obtain ⟨position, hposition, haccepted, hrows⟩ : ∃ position : Option FeedCursor,
      feedPosition F c' db = .ok (position, db) ∧
      position.all (fun c => c.accepted F order.seed (toString (db.profileRevision owner))) = true ∧
      (db.feedRows P F owner w order).filter (fun row => position.all fun c => row.key F < c.key) =
        behind (· < ·) (FeedRow.key F) (db.feedRows P F owner w order) c := by
    rcases hc with ⟨rfl, rfl⟩ | ⟨row, hrow, rfl, rfl⟩
    · exact ⟨none, rfl, rfl, List.filter_true _⟩
    · refine ⟨some (row.cursor F (db.profileRevision owner) order.seed), ?_, ?_, ?_⟩
      · unfold feedPosition
        dsimp only
        rw [(hwritten row hrow).cursor]
        rfl
      · exact cursor_accepted hscores hrow (hwritten row hrow)
      · refine List.filter_congr fun x _ => ?_
        rw [Option.all_some, cursor_key]
  have hworkspace : ownedWorkspace owner w db = .ok ((), db) := by
    unfold ownedWorkspace
    rw [Tx.bind_of_ok (Tx.get_run db), Tx.require_pos howned]
  unfold feedOrder
  rw [Tx.bind_of_ok hworkspace, Tx.bind_of_ok (Tx.require_pos (Nat.ne_of_gt hlimit)), Tx.bind_of_ok (Tx.get_run db)]
  dsimp only
  rw [Tx.bind_of_ok hposition, Tx.bind_of_ok (Tx.require_pos haccepted), hrows]
  refine ⟨_, rfl, rfl, ?_⟩
  unfold Keyset.read
  simp only [decide_eq_true_eq]

/-- The calls show the pages of a walk over the keys. -/
theorem exists_feedChain (howned : db.policy.ownsWorkspace owner w = true) (hlimit : 0 < limit) (hscores : db.ScoresInRange)
    (hwritten : ∀ row ∈ db.feedRows P F owner w order, row.Written F (db.profileRevision owner) order.seed)
    {c : Option FeedKey} {c' : Option String} (hc : FeedPlace P F db owner w order c c') {pages : List (List FeedRow)}
    (h : Walk (step (· < ·) (FeedRow.key F) (FeedRow.key F) limit (db.feedRows P F owner w order)) c pages) :
    ∃ feeds, FeedChain (fun c => (feedOrder P F owner w c limit order db).map Prod.fst) c' feeds ∧
      feeds.map (·.articles) = pages.map (List.map (·.toArticle F)) := by
  induction h generalizing c' with
  | @last c hlast =>
    obtain ⟨feed, hcall, harticles, hnext⟩ := feedOrder_page howned hlimit hscores hwritten hc
    refine ⟨[feed], .last (by rw [hcall]; rfl) ?_, ?_⟩
    · rw [hnext]
      unfold step at hlast
      dsimp only at hlast
      split at hlast
      · rw [Option.map_eq_none_iff] at hlast
        rw [hlast]
        exact ite_self _
      · rename_i hno
        exact if_neg hno
    · rw [List.map_singleton, List.map_singleton, harticles]
      rfl
  | @more c k pages hmore _ ih =>
    obtain ⟨feed, hcall, harticles, hnext⟩ := feedOrder_page howned hlimit hscores hwritten hc
    unfold step at hmore
    dsimp only at hmore
    split at hmore
    · rename_i hyes
      obtain ⟨row, hrow, rfl⟩ := Option.map_eq_some_iff.1 hmore
      rw [if_pos hyes, hrow] at hnext
      have hmem : row ∈ db.feedRows P F owner w order := by
        have hpage := List.mem_of_getLast? hrow
        rw [read_eq] at hpage
        exact (mem_behind.1 (List.mem_of_mem_take hpage)).1
      obtain ⟨feeds, hchain, hfeeds⟩ := ih (.inr ⟨row, hmem, rfl, rfl⟩)
      refine ⟨feed :: feeds, .more (by rw [hcall]; rfl) hnext hchain, ?_⟩
      rw [List.map_cons, List.map_cons, harticles, hfeeds]
      rfl
    · cases hmore

/-- The calls that follow the cursors from the first page accept each of them, end, and show the selected articles once,
in the order of the feed; a page has a next one only for further articles. -/
theorem feedOrder_pages (howned : db.policy.ownsWorkspace owner w = true) (hlimit : 0 < limit) (hscores : db.ScoresInRange)
    (hwritten : ∀ row ∈ db.feedRows P F owner w order, row.Written F (db.profileRevision owner) order.seed) :
    ∃ feeds, FeedChain (fun c => (feedOrder P F owner w c limit order db).map Prod.fst) none feeds ∧
      feeds.flatMap (·.articles) = (db.feedRows P F owner w order).map (·.toArticle F) ∧
      (db.feedRows P F owner w order).Pairwise (fun x y => y.key F < x.key F) ∧
      ((feeds.flatMap (·.articles)).map (·.id)).Perm (((db.feedArticles P w).filter fun row =>
        db.feedShows owner w order.showHidden row.1).map (·.1)) ∧
      ((feeds.flatMap (·.articles)).map (·.id)).Nodup ∧ ∀ feed ∈ feeds.tail, feed.articles ≠ [] := by
  have hordered := feedRows_ordered hwritten
  obtain ⟨pages, hwalk, hflatten, hne⟩ := exists_walk (FeedRow.key F) hordered hlimit (fun _ _ _ _ => Iff.rfl) none
  obtain ⟨feeds, hchain, hfeeds⟩ := exists_feedChain howned hlimit hscores hwritten (.inl ⟨rfl, rfl⟩) hwalk
  have harticles : feeds.flatMap (·.articles) = (db.feedRows P F owner w order).map (·.toArticle F) := by
    rw [List.flatMap_def, hfeeds, ← List.map_flatten, hflatten]
    rfl
  have hids : (feeds.flatMap (·.articles)).map (·.id) = (db.feedRows P F owner w order).map (·.article) := by
    rw [harticles, List.map_map]
    rfl
  refine ⟨feeds, hchain, harticles, hordered, ?_, ?_, ?_⟩
  · rw [hids]
    exact perm_feedRows
  · rw [hids]
    exact nodup_feedRows
  · intro feed hfeed hnil
    have hmem : feed.articles ∈ (pages.map (List.map (·.toArticle F))).tail := by
      rw [← hfeeds, ← List.map_tail]
      exact List.mem_map_of_mem hfeed
    rw [← List.map_tail, List.mem_map] at hmem
    obtain ⟨page, hpage, heq⟩ := hmem
    rw [hnil, List.map_eq_nil_iff] at heq
    exact hne page hpage heq

end

/-! ## Two unread articles -/

namespace Sample

def feedArticle (id : Nat) (arrivedAt : DateTime) : Article :=
  { id := ⟨id⟩, key := { location := .sourceRecord ⟨1⟩ "entry", title := "Title", description := none }, state := {}
    firstArrivedAt := arrivedAt, origins := [], revision := 1 }

/-- The second article was ranked by the first profile. -/
def feedDb : AiDb where
  policy := { aiPolicy with library :=
    { workspaces := (∅ : Table WorkspaceId Workspace).insert ⟨1⟩
        { id := ⟨1⟩, owner := ⟨1⟩, status := .active, revision := 1, history := [] }
      articles := ((∅ : Table ArticleKey Article).insert (⟨1⟩, ⟨1⟩) (feedArticle 1 1000)).insert (⟨1⟩, ⟨2⟩)
        (feedArticle 2 2000) } }
  interestProfiles := (∅ : Table AccountId InterestProfile).insert ⟨1⟩ { prompt := "", revision := 1, trainingCount := 1 }
  interestScores := (∅ : Table ScoreKey ScoreRow).insert
    { owner := ⟨1⟩, workspace := ⟨1⟩, article := ⟨1⟩, profileRevision := 1 }
    { status := .scored, score := some 7, prediction := none, error := none, dirty := false, lease := 1, leaseUntil := 0 }

def feedUuid (id : ArticleId) : String :=
  String.ofList ("00000000-0000-0000-0000-00000000000".toList ++ Nat.toDigits 16 id.uuid)

/-- The JSON text of a cursor without a seed. -/
def feedText (c : FeedCursor) : String :=
  "\x7b\"revision\":\"" ++ c.revision ++ "\",\"score\":" ++ String.ofList (intChars c.score) ++ ",\"arrival\":\"" ++
    c.arrival ++ "\",\"article\":\"" ++ c.article ++ "\",\"seed\":null\x7d"

def feedCursors : List FeedCursor :=
  [⟨"1", 7, "1000", feedUuid ⟨1⟩, none⟩, ⟨"1", 0, "2000", feedUuid ⟨2⟩, none⟩]

def feedPlatform : FeedPlatform where
  hash := fun _ _ => 0
  plainText := id
  uuidText := feedUuid
  parseUuid := fun text => [⟨1⟩, ⟨2⟩].find? fun id => feedUuid id == text
  encode := feedText
  decode := fun text => feedCursors.find? fun c => feedText c == text

instance (row : FeedRow) : Decidable (row.Written feedPlatform 1 none) :=
  decidable_of_iff (feedPlatform.decode (feedPlatform.encode (row.cursor feedPlatform 1 none)) =
      some (row.cursor feedPlatform 1 none) ∧ feedPlatform.parseUuid (feedPlatform.uuidText row.article) = some row.article)
    ⟨fun h => ⟨h.1, h.2⟩, fun h => ⟨h.cursor, h.uuid⟩⟩

theorem feedDb_scores : feedDb.ScoresInRange := by
  rw [AiDb.ScoresInRange, Table.all_iff_rows]
  intro row hrow n hn
  have hrows : feedDb.interestScores.rows.all (fun row => row.2.score == some 7) = true := by decide +kernel
  have hseven := eq_of_beq (List.all_eq_true.1 hrows row hrow)
  rw [hn] at hseven
  have h : n = 7 := Option.some.inj hseven
  omega

theorem feedOrder_pages_two : ∃ feeds, FeedChain (fun c =>
      (feedOrder aiPlatform feedPlatform ⟨1⟩ ⟨1⟩ c 1 (.smart false) feedDb).map Prod.fst) none feeds ∧
    (feeds.flatMap (·.articles)).map (·.id) = [⟨1⟩, ⟨2⟩] := by
  have hwritten : ∀ row ∈ feedDb.feedRows aiPlatform feedPlatform ⟨1⟩ ⟨1⟩ (.smart false),
      row.Written feedPlatform 1 none := by
    decide +kernel
  obtain ⟨feeds, hchain, harticles, -⟩ :=
    @feedOrder_pages aiPlatform feedPlatform feedDb ⟨1⟩ ⟨1⟩ (.smart false) 1 (by decide +kernel) Nat.one_pos
      feedDb_scores hwritten
  refine ⟨feeds, hchain, ?_⟩
  rw [harticles]
  decide +kernel

end Sample
end Inoreader
