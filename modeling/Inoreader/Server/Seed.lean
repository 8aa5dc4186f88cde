import Inoreader.Application.Service
import Inoreader.Ingest.Model
import Inoreader.Lib.LetterCase
import Inoreader.Lib.Lists
import Inoreader.Lib.Table
import Inoreader.Repository.Recipes

/-!
# Seeds (`inoreader/src/seed.rs`, `apply_seed_atomic` in `reader-storage-postgres/src/repository/subscription.rs`)

A document of the database is its value: the texts of two values differ when they do. Of a job only its item is kept,
and the bootstrap of the analysis of a new subscription, which writes to tables of its own, is left out. `now key` is
the time at which the subscription of an item is built.
-/

namespace Inoreader
open Lib

/-- The names under which UUIDs of version 5 are made, `serde_json::to_string` and the letter tables. -/
structure SeedPlatform where
  web : WebPlatform
  oid : String → Nat
  urlUuid : String → Nat
  jsonText : Lib.Json → String
  letters : LetterCase

structure SeedItem where
  sourceInventoryId : String
  idempotencyKey : String
  selected : Bool
  status : String
  configuration : Lib.Json
  note : Option String

structure SeedManifest (W : WebPlatform) where
  schemaVersion : Nat
  ownerAccountId : WebUuid W
  workspaceId : WebUuid W
  items : List SeedItem

inductive SeedSource
  | feed
  | imported
deriving DecidableEq, Repr

/-- The stored document of a subscription. -/
structure SubscriptionDocument where
  subscription : Subscription
  createdAt : Option DateTime
deriving DecidableEq, Repr

section
variable (P : SeedPlatform)

/-- `contains_secret_field` of the name of a member. -/
def secretName (key : List Char) : Bool :=
  ["password", "secret", "token", "credential", "private_key"].any fun part =>
    decide (part.toList <:+: P.letters.toLowercase key)

mutual
/-- `contains_secret_field` -/
def containsSecretField : Lib.Json → Bool
  | .object members => anySecretMember members
  | .array items => anySecretItem items
  | _ => false

def anySecretMember : List (List Char × Lib.Json) → Bool
  | [] => false
  | (key, value) :: members => secretName P key || containsSecretField value || anySecretMember members

def anySecretItem : List Lib.Json → Bool
  | [] => false
  | value :: items => containsSecretField value || anySecretItem items
end

/-- The loop of `load_seed` over the items; `ids` and `keys` are those seen before. -/
def checkItems (ids keys : List String) : List SeedItem → Except String Unit
  | [] => .ok ()
  | item :: items =>
    if item.sourceInventoryId = "" ∨ item.idempotencyKey ≠ "personal_feed:" ++ item.sourceInventoryId then
      .error "seed item has invalid identity or idempotency key"
    else if item.sourceInventoryId ∈ ids ∨ item.idempotencyKey ∈ keys then
      .error "seed manifest contains duplicate identities"
    else if item.selected ∧ item.status ≠ "reviewed" then .error "selected seed item is not reviewed"
    else if containsSecretField P item.configuration then
      .error "seed configuration contains a forbidden secret-like field"
    else if item.status ≠ "reviewed" ∧ item.status ≠ "unresolved" ∧ item.status ≠ "disabled" then
      .error "seed item has invalid status"
    else checkItems (item.sourceInventoryId :: ids) (item.idempotencyKey :: keys) items

/-- `load_seed`, of a manifest that was read. -/
def loadSeed (value : SeedManifest P.web) : Except String (SeedManifest P.web) :=
  if value.schemaVersion ≠ 1 then .error "unsupported seed schema_version"
  else if value.items = [] then .error "seed manifest has no items"
  else match checkItems P [] [] value.items with
    | .error e => .error e
    | .ok () => .ok value

/-- A tuple of `seed_values`; the URL is the one of the subscription. -/
structure PreparedSeed where
  key : String
  value : SubscriptionDocument
  url : RecipeUrl P.web
  source : SeedSource
  configuration : Lib.Json

/-- The name under which the id of a subscription is made. -/
def seedIdentity (seed : SeedManifest P.web) (key : String) : String :=
  "seed/" ++ P.web.uuidText seed.ownerAccountId.1 ++ "/" ++ P.web.uuidText seed.workspaceId.1 ++ "/" ++ key

/-- `Subscription::new` -/
def newSubscription (id : SubscriptionId) (workspaceId : WorkspaceId) (sourceUrl : Url) (sourceTitle : String)
    (now : DateTime) : SubscriptionDocument where
  subscription := { id, workspaceId, sourceUrl, sourceTitle, status := .active, revision := 0, history := [] }
  createdAt := some now

/-- The body of the loop of `seed_values`. -/
def seedValue (seed : SeedManifest P.web) (now : String → DateTime) (item : SeedItem) :
    Except String (PreparedSeed P) :=
  match item.configuration with
  | .object _ =>
    match (item.configuration.get "name").bind Lib.Json.asText with
    | none => .error "seed configuration requires name"
    | some name =>
      match ((item.configuration.get "feed_url").or (item.configuration.get "url")).bind Lib.Json.asText with
      | none => .error "seed configuration requires url or feed_url"
      | some rawUrl =>
        match recipeUrl P.web rawUrl with
        | none => .error "invalid URL"
        | some url =>
          if url.1.scheme ≠ "http" ∧ url.1.scheme ≠ "https" then .error "seed URL must use HTTP or HTTPS"
          else .ok {
            key := item.idempotencyKey
            value := newSubscription ⟨P.oid (seedIdentity P seed item.idempotencyKey)⟩ ⟨seed.workspaceId.1⟩ url.1 name
              (now item.idempotencyKey)
            url
            source := if (item.configuration.get "feed_url").isSome then .feed else .imported
            configuration := item.configuration }
  | _ => .error "seed configuration must be an object"

def seedValues (seed : SeedManifest P.web) (now : String → DateTime) : Except String (List (PreparedSeed P)) :=
  (seed.items.filter (·.selected)).mapM (seedValue P seed now)

/-! ## The transaction -/

structure SeedSourceDefinition where
  url : Url
  kind : ImportedKind P.web

/-- The tables that a seed writes to, and the records of a source in the order in which they are given out. -/
structure SeedDb where
  subscriptions : Table SubscriptionId SubscriptionDocument
  sources : Table SourceId (SeedSourceDefinition P)
  sourceUrls : Table String SourceId
  subscriptionSources : Table SubscriptionId SourceId
  webFeedRecipes : Table SubscriptionId Lib.Json
  seedItems : Table String String
  jobs : Table Nat WorkItem
  records : SourceId → List SourceRecordId

/-- The settings of the repository. -/
structure SeedScope where
  reasonPolicy : ReasonPolicy
  initialScope : Nat

structure PreparedRow where
  key : String
  value : SubscriptionDocument
  configuration : String
  sourceId : SourceId
  source : SeedSourceDefinition P
  item : WorkItem
  recipe : Option Lib.Json

/-- `SourceDefinition::new`, for the kinds that a seed can have. -/
def SeedSourceDefinition.new (url : Url) (kind : ImportedKind P.web) : Except String (SeedSourceDefinition P) :=
  if (url.scheme ≠ "http" ∧ url.scheme ≠ "https") ∨ url.host = none then .error "invalid source URL"
  else .ok { url, kind }

def collects : ImportedKind P.web → Bool
  | .webPage _ | .builtIn _ => true
  | .auto => false

def seedSourceKind (source : SeedSource) (configuration : Lib.Json) : Except String (ImportedKind P.web) :=
  match source with
  | .feed => .ok .auto
  | .imported => importedSourceKind P.web configuration

/-- The first loop of `apply_seed_atomic`. -/
def prepareRow (scope : SeedScope) (workspace : WebUuid P.web) (row : PreparedSeed P) : Except String (PreparedRow P) :=
  if row.value.subscription.workspaceId ≠ ⟨workspace.1⟩ then
    .error "seed subscription scope does not match target workspace"
  else match row.value.subscription.validate P.web.parseUrl scope.reasonPolicy with
    | .error _ => .error "invalid subscription"
    | .ok () => do
      let sourceId : SourceId := ⟨P.urlUuid row.url.1.text⟩
      let kind ← seedSourceKind P row.source row.configuration
      let source ← SeedSourceDefinition.new P row.url.1 kind
      return {
        key := row.key
        value := row.value
        configuration := P.jsonText row.configuration
        sourceId
        source
        item := if collects P kind then .collectWebFeed sourceId else .pollSource sourceId
        recipe := editableRecipeDocument workspace row.url kind }

/-- The second loop: what the tables have under the identities of a row is what the row has. -/
def checkRow (db : SeedDb P) (row : PreparedRow P) : Except String Unit :=
  if (db.subscriptions.lookup row.value.subscription.id).any fun existing => existing ≠ row.value then
    .error "seed idempotency key conflicts with existing subscription"
  else if (db.seedItems.lookup row.key).any fun existing => existing ≠ row.configuration then
    .error "seed configuration conflicts with applied idempotency key"
  else .ok ()

/-- `INSERT … ON CONFLICT DO NOTHING` -/
def insertNew {κ ν : Type} [DecidableEq κ] (t : Table κ ν) (k : κ) (v : ν) : Table κ ν :=
  if (t.lookup k).isSome then t else t.insert k v

/-- An `INSERT` under a primary key. -/
def insertUnique {κ ν : Type} [DecidableEq κ] (t : Table κ ν) (k : κ) (v : ν) (conflict : String) :
    Except String (Table κ ν) :=
  if (t.lookup k).isSome then .error conflict else .ok (t.insert k v)

/-- `enqueue_work_tx`, for the jobs of a source. -/
def SeedDb.enqueueWork (db : SeedDb P) (source : SourceId) (id : Nat) (item : WorkItem) : Except String (SeedDb P) :=
  match db.jobs.lookup id with
  | some existing => if existing = item then .ok db else .error "durable job identity collision"
  | none =>
    match db.sources.lookup source with
    | none => .error "not found"
    | some _ => .ok { db with jobs := db.jobs.insert id item }

/-- `enqueue_backfill_tx` -/
def SeedDb.enqueueBackfill (db : SeedDb P) (source : SourceId) (subscription : SubscriptionId) (limit : Nat) :
    Except String (SeedDb P) :=
  ((db.records source).take limit).foldlM (fun db record => SeedDb.enqueueWork P db source
    (P.oid ("subscription-backfill/" ++ P.web.uuidText subscription.uuid ++ "/" ++ P.web.uuidText record.uuid))
    (.fanOut source record none)) db

def setWorkSource (source : SourceId) : WorkItem → WorkItem
  | .collectWebFeed _ => .collectWebFeed source
  | _ => .pollSource source

/-- The source of a new subscription: its own, or the shared one of its URL. -/
def provisionSource (db : SeedDb P) (row : PreparedRow P) : Except String (SeedDb P × SourceId) :=
  if row.recipe.isSome then
    .ok ({ db with sources := insertNew db.sources row.sourceId row.source }, row.sourceId)
  else match db.sourceUrls.lookup row.value.subscription.sourceUrl.text with
    | some source => .ok (db, source)
    | none => do
      let sources ← insertUnique db.sources row.sourceId row.source "conflict"
      let sourceUrls := db.sourceUrls.insert row.value.subscription.sourceUrl.text row.sourceId
      return ({ db with sources, sourceUrls }, row.sourceId)

def insertRecipe (recipes : Table SubscriptionId Lib.Json) (id : SubscriptionId) :
    Option Lib.Json → Except String (Table SubscriptionId Lib.Json)
  | some recipe => insertUnique recipes id recipe "duplicate key"
  | none => .ok recipes

/-- `provision_subscription_tx` -/
def provisionSubscriptionTx (scope : SeedScope) (db : SeedDb P) (row : PreparedRow P) (job : Nat) :
    Except String (SeedDb P) := do
  let id := row.value.subscription.id
  let (db, source) ← provisionSource P db row
  let subscriptions ← insertUnique db.subscriptions id row.value "conflict"
  let subscriptionSources ← insertUnique db.subscriptionSources id source "duplicate key"
  let webFeedRecipes ← insertRecipe db.webFeedRecipes id row.recipe
  let db := { db with subscriptions, subscriptionSources, webFeedRecipes }
  let db ← SeedDb.enqueueWork P db source job (setWorkSource source row.item)
  SeedDb.enqueueBackfill P db source id scope.initialScope

/-- A subscription of the workspace has the URL. -/
def urlExists (db : SeedDb P) (workspace : WorkspaceId) (url : String) : Bool :=
  db.subscriptions.rows.any fun row =>
    row.2.subscription.workspaceId = workspace && row.2.subscription.sourceUrl.text = url

/-- The last loop. -/
def applyRow (scope : SeedScope) (db : SeedDb P) (row : PreparedRow P) : Except String (SeedDb P) :=
  let s := row.value.subscription
  if urlExists P db s.workspaceId s.sourceUrlExact then
    .ok { db with seedItems := insertNew db.seedItems row.key row.configuration }
  else if (db.subscriptions.lookup s.id).isSome then .ok db
  else do
    let db ← provisionSubscriptionTx P scope db row (P.oid ("seed-job/" ++ row.key))
    let seedItems ← insertUnique db.seedItems row.key row.configuration "duplicate key"
    return { db with seedItems }

/-- `apply_seed_atomic`; an error rolls the transaction back. -/
def applySeedAtomic (scope : SeedScope) (workspace : WebUuid P.web) (values : List (PreparedSeed P)) (db : SeedDb P) :
    Except String (SeedDb P) := do
  let prepared ← values.mapM (prepareRow P scope workspace)
  prepared.forM (checkRow P db)
  prepared.foldlM (applyRow P scope) db

/-- The command line: the manifest is checked before its values are built and applied. -/
def seedApply (scope : SeedScope) (seed : SeedManifest P.web) (now : String → DateTime) (db : SeedDb P) :
    Except String (SeedDb P) := do
  let seed ← loadSeed P seed
  let values ← seedValues P seed now
  applySeedAtomic P scope seed.workspaceId values db

/-! ## Commands on the subscriptions -/

/-- A command that commits; an activation makes jobs for its source. -/
structure SeedCommand where
  id : SubscriptionId
  label : SubscriptionLabel
  jobs : List (Nat × WorkItem)

def runCommand (scope : SeedScope) (db : SeedDb P) (command : SeedCommand) : SeedDb P :=
  match db.subscriptions.lookup command.id with
  | none => db
  | some document =>
    match command.label.commits, document.subscription.command P.web.parseUrl scope.reasonPolicy command.label.accepts
      command.label.command with
    | true, .ok subscription =>
      { db with subscriptions := db.subscriptions.insert command.id { document with subscription }
                jobs := command.jobs.foldl (fun jobs job => insertNew jobs job.1 job.2) db.jobs }
    | _, _ => db

/-- A command of the owner: any but the replacement of the source. -/
def SeedCommand.keepsSource (command : SeedCommand) : Bool :=
  match command.label.command with
  | .replaceSource _ _ _ => false
  | _ => true

end

/-! ## What the steps do to the tables -/

section
variable {P : SeedPlatform} {scope : SeedScope} {db db' : SeedDb P} {row : PreparedRow P}

theorem lookup_insertNew {κ ν : Type} [DecidableEq κ] {t : Table κ ν} {k : κ} {v : ν} (k' : κ) :
    (insertNew t k v).lookup k' = if k' = k then some ((t.lookup k).getD v) else t.lookup k' := by
  unfold insertNew
  cases hlookup : t.lookup k with
  | none =>
    rw [Option.isSome_none, if_neg Bool.false_ne_true, Table.lookup_insert_if]
    rfl
  | some w =>
    rw [Option.isSome_some, if_pos rfl]
    split_ifs with hk
    · rw [hk, hlookup, Option.getD_some]
    · rfl

theorem insertUnique_ok {κ ν : Type} [DecidableEq κ] {t t' : Table κ ν} {k : κ} {v : ν} {conflict : String}
    (h : insertUnique t k v conflict = .ok t') : t.lookup k = none ∧ t' = t.insert k v := by
  unfold insertUnique at h
  split_ifs at h with hsome
  cases h
  exact ⟨Option.not_isSome_iff_eq_none.1 hsome, rfl⟩

theorem SeedDb.enqueueWork_ok {source : SourceId} {id : Nat} {item : WorkItem}
    (h : SeedDb.enqueueWork P db source id item = .ok db') :
    db'.subscriptions = db.subscriptions ∧ db'.seedItems = db.seedItems := by
  unfold SeedDb.enqueueWork at h
  split at h
  · split_ifs at h
    cases h
    exact ⟨rfl, rfl⟩
  · split at h
    · cases h
    · cases h
      exact ⟨rfl, rfl⟩

theorem SeedDb.enqueueBackfill_ok {source : SourceId} {subscription : SubscriptionId} {limit : Nat}
    (h : SeedDb.enqueueBackfill P db source subscription limit = .ok db') :
    db'.subscriptions = db.subscriptions ∧ db'.seedItems = db.seedItems := by
  unfold SeedDb.enqueueBackfill at h
  generalize (db.records source).take limit = records at h
  induction records generalizing db with
  | nil =>
    cases h
    exact ⟨rfl, rfl⟩
  | cons record records ih =>
    rw [List.foldlM_cons, except_bind_ok] at h
    obtain ⟨db₁, hwork, hrest⟩ := h
    obtain ⟨hsubscriptions, hitems⟩ := SeedDb.enqueueWork_ok hwork
    obtain ⟨hsubscriptions', hitems'⟩ := ih hrest
    exact ⟨hsubscriptions'.trans hsubscriptions, hitems'.trans hitems⟩

theorem provisionSource_ok {source : SourceId} (h : provisionSource P db row = .ok (db', source)) :
    db'.subscriptions = db.subscriptions ∧ db'.seedItems = db.seedItems := by
  unfold provisionSource at h
  split_ifs at h
  · cases h
    exact ⟨rfl, rfl⟩
  · split at h
    · cases h
      exact ⟨rfl, rfl⟩
    · rw [except_bind_ok] at h
      obtain ⟨sources, -, h⟩ := h
      cases h
      exact ⟨rfl, rfl⟩

/-- A provisioned subscription is new. -/
theorem provisionSubscriptionTx_ok {job : Nat} (h : provisionSubscriptionTx P scope db row job = .ok db') :
    db.subscriptions.lookup row.value.subscription.id = none ∧
      db'.subscriptions = db.subscriptions.insert row.value.subscription.id row.value ∧
      db'.seedItems = db.seedItems := by
  unfold provisionSubscriptionTx at h
  simp only [except_bind_ok] at h
  obtain ⟨⟨db₁, source⟩, hsource, subscriptions, hinsert, links, -, recipes, -, db₂, hwork, hbackfill⟩ := h
  obtain ⟨hnone, rfl⟩ := insertUnique_ok hinsert
  obtain ⟨hsubscriptions₁, hitems₁⟩ := provisionSource_ok hsource
  obtain ⟨hsubscriptions₂, hitems₂⟩ := SeedDb.enqueueWork_ok hwork
  obtain ⟨hsubscriptions₃, hitems₃⟩ := SeedDb.enqueueBackfill_ok hbackfill
  rw [hsubscriptions₁] at hnone
  refine ⟨hnone, ?_, (hitems₃.trans hitems₂).trans hitems₁⟩
  rw [hsubscriptions₃, hsubscriptions₂, hsubscriptions₁]

theorem urlExists_iff {workspace : WorkspaceId} {url : String} : urlExists P db workspace url = true ↔
    ∃ id document, db.subscriptions.lookup id = some document ∧ document.subscription.workspaceId = workspace ∧
      document.subscription.sourceUrl.text = url := by
  simp only [urlExists, List.any_eq_true, Bool.and_eq_true, decide_eq_true_eq, Prod.exists, Table.mem_rows]

/-- The tables have what a row asks for. -/
def Settled (db : SeedDb P) (row : PreparedRow P) : Prop :=
  db.seedItems.lookup row.key = some row.configuration ∧
    urlExists P db row.value.subscription.workspaceId row.value.subscription.sourceUrl.text = true

/-- Nothing is lost: the subscriptions stay, and the items of all keys but the given ones. -/
structure Grows (keys : List String) (db db' : SeedDb P) : Prop where
  subscriptions : ∀ id document, db.subscriptions.lookup id = some document →
    db'.subscriptions.lookup id = some document
  seedItems : ∀ key, key ∉ keys → db'.seedItems.lookup key = db.seedItems.lookup key

theorem Grows.settled {keys : List String} (h : Grows keys db db') (hkey : row.key ∉ keys) (hrow : Settled db row) :
    Settled db' row := by
  obtain ⟨hitem, hurl⟩ := hrow
  obtain ⟨id, document, hlookup, hmatch⟩ := urlExists_iff.1 hurl
  exact ⟨(h.seedItems _ hkey).trans hitem, urlExists_iff.2 ⟨id, document, h.subscriptions _ _ hlookup, hmatch⟩⟩

/-- A row that the tables do not contradict. -/
structure Admissible (db : SeedDb P) (row : PreparedRow P) : Prop where
  url : row.value.subscription.sourceUrlExact = row.value.subscription.sourceUrl.text
  subscription : ∀ document, db.subscriptions.lookup row.value.subscription.id = some document → document = row.value
  item : ∀ configuration, db.seedItems.lookup row.key = some configuration → configuration = row.configuration

theorem any_ne_iff {α : Type} [DecidableEq α] {x : Option α} {a : α} :
    (x.any fun b => b ≠ a) = true ↔ ¬ ∀ b, x = some b → b = a := by
  cases x with
  | none => simp
  | some b => simp

theorem checkRow_ok_iff : checkRow P db row = .ok () ↔
    (∀ document, db.subscriptions.lookup row.value.subscription.id = some document → document = row.value) ∧
      ∀ configuration, db.seedItems.lookup row.key = some configuration → configuration = row.configuration := by
  unfold checkRow
  split_ifs with hdocument hitem
  · exact iff_of_false (fun h => by cases h) fun h => any_ne_iff.1 hdocument h.1
  · exact iff_of_false (fun h => by cases h) fun h => any_ne_iff.1 hitem h.2
  · rw [any_ne_iff, not_not] at hdocument hitem
    exact iff_of_true rfl ⟨hdocument, hitem⟩

/-- A subscription that the last loop makes is the one of the row. -/
theorem applyRow_subscriptions (h : applyRow P scope db row = .ok db') {id : SubscriptionId}
    {document : SubscriptionDocument} (hlookup : db'.subscriptions.lookup id = some document) :
    db.subscriptions.lookup id = some document ∨ id = row.value.subscription.id ∧ document = row.value := by
  unfold applyRow at h
  dsimp only at h
  split_ifs at h
  · cases h
    exact .inl hlookup
  · cases h
    exact .inl hlookup
  · rw [except_bind_ok] at h
    obtain ⟨db₁, hprovision, h⟩ := h
    rw [except_bind_ok] at h
    obtain ⟨items, -, h⟩ := h
    cases h
    obtain ⟨-, hsubscriptions, -⟩ := provisionSubscriptionTx_ok hprovision
    have hlookup' : db₁.subscriptions.lookup id = some document := hlookup
    rw [hsubscriptions, Table.lookup_insert_if] at hlookup'
    split_ifs at hlookup' with hid
    · cases hlookup'
      exact .inr ⟨hid, rfl⟩
    · exact .inl hlookup'

theorem foldlM_applyRow_subscriptions {rows : List (PreparedRow P)} (h : rows.foldlM (applyRow P scope) db = .ok db')
    {id : SubscriptionId} {document : SubscriptionDocument} (hlookup : db'.subscriptions.lookup id = some document) :
    db.subscriptions.lookup id = some document ∨
      ∃ row ∈ rows, id = row.value.subscription.id ∧ document = row.value := by
  induction rows generalizing db with
  | nil =>
    cases h
    exact .inl hlookup
  | cons row rows ih =>
    rw [List.foldlM_cons, except_bind_ok] at h
    obtain ⟨db₁, happly, hrest⟩ := h
    rcases ih hrest with hold | ⟨r, hr, hbuilt⟩
    · rcases applyRow_subscriptions happly hold with hold | hbuilt
      · exact .inl hold
      · exact .inr ⟨row, List.mem_cons_self, hbuilt⟩
    · exact .inr ⟨r, List.mem_cons_of_mem _ hr, hbuilt⟩

/-- What the last loop does with a row that the tables do not contradict. -/
theorem applyRow_ok (hrow : Admissible db row) (h : applyRow P scope db row = .ok db') :
    Grows [row.key] db db' ∧ Settled db' row := by
  unfold applyRow at h
  dsimp only at h
  rw [hrow.url] at h
  split_ifs at h with hurl hexists
  · cases h
    refine ⟨⟨fun _ _ hlookup => hlookup, fun key hkey => ?_⟩, ?_, hurl⟩
    · rw [lookup_insertNew, if_neg (by simpa using hkey)]
    · rw [lookup_insertNew, if_pos rfl]
      cases hlookup : db.seedItems.lookup row.key with
      | none => rfl
      | some configuration => rw [hrow.item configuration hlookup, Option.getD_some]
  · -- the subscription that has the id has the URL as well
    obtain ⟨document, hlookup⟩ := Option.isSome_iff_exists.1 hexists
    refine absurd (urlExists_iff.2 ⟨_, document, hlookup, ?_⟩) hurl
    rw [hrow.subscription document hlookup]
    exact ⟨rfl, rfl⟩
  · rw [except_bind_ok] at h
    obtain ⟨db₁, hprovision, h⟩ := h
    rw [except_bind_ok] at h
    obtain ⟨items, hitems, h⟩ := h
    cases h
    obtain ⟨hnone, hsubscriptions, hseedItems⟩ := provisionSubscriptionTx_ok hprovision
    obtain ⟨-, rfl⟩ := insertUnique_ok hitems
    have hlookup : ∀ id, db₁.subscriptions.lookup id =
        if id = row.value.subscription.id then some row.value else db.subscriptions.lookup id := fun id => by
      rw [hsubscriptions, Table.lookup_insert_if]
    refine ⟨⟨fun id document hdocument => ?_, fun key hkey => ?_⟩, ?_,
      urlExists_iff.2 ⟨row.value.subscription.id, row.value, ?_, rfl, rfl⟩⟩
    · have hne : id ≠ row.value.subscription.id := by
        rintro rfl
        rw [hnone] at hdocument
        cases hdocument
      exact (hlookup id).trans ((if_neg hne).trans hdocument)
    · show (db₁.seedItems.insert row.key row.configuration).lookup key = _
      rw [Table.lookup_insert_if, if_neg (by simpa using hkey), hseedItems]
    · show (db₁.seedItems.insert row.key row.configuration).lookup row.key = _
      rw [Table.lookup_insert_if, if_pos rfl]
    · exact (hlookup _).trans (if_pos rfl)

/-- The last loop settles rows with different keys and ids. -/
theorem foldlM_applyRow_ok {rows : List (PreparedRow P)} (hkeys : (rows.map (·.key)).Nodup)
    (hids : (rows.map (·.value.subscription.id)).Nodup) (hrows : ∀ row ∈ rows, Admissible db row)
    (h : rows.foldlM (applyRow P scope) db = .ok db') :
    Grows (rows.map (·.key)) db db' ∧ ∀ row ∈ rows, Settled db' row := by
  induction rows generalizing db with
  | nil =>
    cases h
    exact ⟨⟨fun _ _ hlookup => hlookup, fun _ _ => rfl⟩, List.forall_mem_nil _⟩
  | cons row rows ih =>
    rw [List.foldlM_cons, except_bind_ok] at h
    obtain ⟨db₁, happly, hrest⟩ := h
    rw [List.map_cons, List.nodup_cons] at hkeys hids
    obtain ⟨hgrows, hsettled⟩ := applyRow_ok (hrows row List.mem_cons_self) happly
    have hadmissible : ∀ r ∈ rows, Admissible db₁ r := by
      intro r hr
      have hr' := hrows r (List.mem_cons_of_mem _ hr)
      have hkey : r.key ∉ [row.key] := fun hmem =>
        hkeys.1 (List.mem_singleton.1 hmem ▸ List.mem_map_of_mem hr)
      refine ⟨hr'.url, fun document hlookup => ?_, fun configuration hlookup => ?_⟩
      · rcases applyRow_subscriptions happly hlookup with hold | ⟨hid, -⟩
        · exact hr'.subscription document hold
        · exact absurd (hid ▸ List.mem_map_of_mem (f := (·.value.subscription.id)) hr) hids.1
      · rw [hgrows.seedItems _ hkey] at hlookup
        exact hr'.item configuration hlookup
    obtain ⟨hgrows', hsettled'⟩ := ih hkeys.2 hids.2 hadmissible hrest
    refine ⟨⟨fun id document hlookup => hgrows'.subscriptions _ _ (hgrows.subscriptions _ _ hlookup),
      fun key hkey => ?_⟩, List.forall_mem_cons.2 ⟨hgrows'.settled hkeys.1 hsettled, hsettled'⟩⟩
    rw [List.map_cons, List.mem_cons, not_or] at hkey
    rw [hgrows'.seedItems _ hkey.2, hgrows.seedItems _ (by simpa using hkey.1)]

/-- Settled rows change nothing. -/
theorem foldlM_applyRow_settled {rows : List (PreparedRow P)}
    (hrows : ∀ row ∈ rows,
      row.value.subscription.sourceUrlExact = row.value.subscription.sourceUrl.text ∧ Settled db row) :
    rows.foldlM (applyRow P scope) db = .ok db := by
  induction rows with
  | nil => rfl
  | cons row rows ih =>
    obtain ⟨hurl, hitem, hexists⟩ := hrows row List.mem_cons_self
    have hrow : applyRow P scope db row = .ok db := by
      have hsame : insertNew db.seedItems row.key row.configuration = db.seedItems := if_pos (by rw [hitem]; rfl)
      unfold applyRow
      dsimp only
      rw [hurl, if_pos hexists, hsame]
    rw [List.foldlM_cons, hrow]
    exact ih fun r hr => hrows r (List.mem_cons_of_mem _ hr)

end

end Inoreader
