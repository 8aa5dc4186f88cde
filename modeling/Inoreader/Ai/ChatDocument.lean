import Inoreader.Ai.Budget

/-!
# Stored chats (`reader-storage-postgres/src/ai/chat_document.rs`, `ai.rs`, `reader-ai/src/model.rs`)

A chat is stored as two JSON texts, the mutable progress and the pinned provider inputs, next to its
published view. `locked` reads and `write_record` writes the whole record; `locked_progress` and
`write_progress` see the progress and the published view only. The order of the keys of an object is
immaterial.
-/

namespace Inoreader
open Lib

/-! ## JSON objects -/

namespace JsonObject

def get? (o : JsonObject) (key : String) : Option JsonField := (o.find? fun e => e.1 == key).map (·.2)

/-- `Map::remove`. -/
def without (o : JsonObject) (key : String) : JsonObject := o.filter fun e => e.1 != key

/-- `Map::insert`. -/
def insert (o : JsonObject) (key : String) (value : JsonField) : JsonObject :=
  if (o.get? key).isSome then o.map fun e => if e.1 == key then (key, value) else e else o ++ [(key, value)]

/-- `Map::extend`. -/
def extend (o other : JsonObject) : JsonObject := other.foldl (fun acc e => acc.insert e.1 e.2) o

/-- Equality of `jsonb` objects. -/
def same (a b : JsonObject) : Bool := a.length == b.length && a.all fun e => b.get? e.1 == some e.2

end JsonObject

/-- `INPUT_FIELDS`. -/
def inputFields : List String :=
  ["snapshot", "system_prompt", "generation_mode", "cost_rates", "max_output_tokens", "limits", "review"]

/-- `Progress`: the mutable part of a record. -/
structure Progress where
  owner : AccountId
  view : ArticleChat
  operations : List Operation
deriving DecidableEq, Repr

/-- The pinned provider inputs of a record. -/
structure ChatInputs where
  snapshot : Option ArticleSnapshot
  systemPrompt : String
  generationMode : GenerationMode
  costRates : CostRates
  maxOutputTokens : Nat
  limits : InputLimits
  review : ReviewSnapshot
deriving DecidableEq, Repr

namespace ChatRecord

def progress (r : ChatRecord) : Progress := { owner := r.owner, view := r.view, operations := r.operations }

def inputs (r : ChatRecord) : ChatInputs where
  snapshot := r.snapshot
  systemPrompt := r.systemPrompt
  generationMode := r.generationMode
  costRates := r.costRates
  maxOutputTokens := r.maxOutputTokens
  limits := r.limits
  review := r.review

def of (p : Progress) (i : ChatInputs) : ChatRecord where
  owner := p.owner
  view := p.view
  snapshot := i.snapshot
  systemPrompt := i.systemPrompt
  generationMode := i.generationMode
  costRates := i.costRates
  maxOutputTokens := i.maxOutputTokens
  limits := i.limits
  review := i.review
  operations := p.operations

/-- `serde_json::to_value`. -/
def toValue (r : ChatRecord) : JsonObject :=
  [("owner", .owner r.owner), ("view", .view r.view), ("snapshot", .snapshot r.snapshot),
    ("system_prompt", .text r.systemPrompt), ("generation_mode", .generationMode r.generationMode),
    ("cost_rates", .costRates r.costRates), ("max_output_tokens", .number r.maxOutputTokens),
    ("limits", .limits r.limits), ("review", .review r.review), ("operations", .operations r.operations)]

/-- `serde_json::from_value`; unknown fields are ignored. -/
def fromValue (o : JsonObject) : Except AiError ChatRecord :=
  match o.get? "owner", o.get? "view", o.get? "snapshot", o.get? "system_prompt", o.get? "generation_mode",
      o.get? "cost_rates", o.get? "max_output_tokens", o.get? "limits", o.get? "review", o.get? "operations" with
  | some (.owner owner), some (.view view), some (.snapshot snapshot), some (.text systemPrompt),
      some (.generationMode generationMode), some (.costRates costRates), some (.number maxOutputTokens),
      some (.limits limits), some (.review review), some (.operations operations) =>
    .ok { owner, view, snapshot, systemPrompt, generationMode, costRates, maxOutputTokens, limits, review, operations }
  | _, _, _, _, _, _, _, _, _, _ => .error .storage

end ChatRecord

def Progress.toValue (p : Progress) : JsonObject :=
  [("owner", .owner p.owner), ("view", .view p.view), ("operations", .operations p.operations)]

/-- Decoding a `Progress` refuses unknown fields. -/
def Progress.fromValue (o : JsonObject) : Except AiError Progress :=
  match o.get? "owner", o.get? "view", o.get? "operations" with
  | some (.owner owner), some (.view view), some (.operations operations) =>
    if o.length = 3 then .ok { owner, view, operations } else .error .storage
  | _, _, _ => .error .storage

def ChatInputs.toValue (i : ChatInputs) : JsonObject :=
  [("snapshot", .snapshot i.snapshot), ("system_prompt", .text i.systemPrompt),
    ("generation_mode", .generationMode i.generationMode), ("cost_rates", .costRates i.costRates),
    ("max_output_tokens", .number i.maxOutputTokens), ("limits", .limits i.limits), ("review", .review i.review)]

namespace ChatDocument

/-- The loop of `encode`. -/
def split : List String → JsonObject → JsonObject → Except AiError (JsonObject × JsonObject)
  | [], progress, inputs => .ok (progress, inputs)
  | field :: fields, progress, inputs =>
    match progress.get? field with
    | some value => split fields (progress.without field) (inputs.insert field value)
    | none => .error .storage

def encode (r : ChatRecord) : Except AiError (JsonObject × JsonObject) := split inputFields r.toValue []

def decode (document inputs : Option JsonObject) : Except AiError ChatRecord :=
  match document, inputs with
  | some progress, some inputs =>
    if inputs.length ≠ inputFields.length ∨
        inputFields.any (fun field => (inputs.get? field).isNone || (progress.get? field).isSome) then .error .storage
    else ChatRecord.fromValue (progress.extend inputs)
  | _, _ => .error .storage

theorem encode_eq (r : ChatRecord) : encode r = .ok (r.progress.toValue, r.inputs.toValue) := by
  rfl

theorem decode_toValue (p : Progress) (i : ChatInputs) :
    decode (some p.toValue) (some i.toValue) = .ok (ChatRecord.of p i) := by
  simp [decode, inputFields, ChatRecord.fromValue, JsonObject.extend, JsonObject.get?, JsonObject.insert,
    Progress.toValue, ChatInputs.toValue, ChatRecord.of]

end ChatDocument

theorem Progress.fromValue_toValue (p : Progress) : Progress.fromValue p.toValue = .ok p := by
  rfl

/-! ## The published view -/

/-- The preview of the attempt `id`: its rendered draft, if it has one. -/
def previewOf (P : AiPlatform) (operations : List Operation) (snapshot : Option ArticleSnapshot) (limit id : Nat) :
    Except AiError String :=
  match operations.find? (·.assistantId == id) with
  | none => .error .storage
  | some op => match op.task with
    | .summary (some draft) => match snapshot with
      | none => .error .storage
      | some source => P.segments source.text limit draft
    | _ => .ok ""

/-- A summary that is not complete shows its preview, and nothing else. -/
def publicMessage (P : AiPlatform) (operations : List Operation) (snapshot : Option ArticleSnapshot) (limit : Nat)
    (m : ChatMessage) : Except AiError ChatMessage :=
  if m.purpose ≠ some .summary ∨ m.status = .complete then .ok m
  else (previewOf P operations snapshot limit m.id).map fun content => { m with content := content }

/-- The loop over the messages; the first failure ends it. -/
def publicMessages (P : AiPlatform) (operations : List Operation) (snapshot : Option ArticleSnapshot) (limit : Nat)
    (messages : List ChatMessage) : Except AiError (List ChatMessage) :=
  messages.mapM (publicMessage P operations snapshot limit)

def ChatRecord.intoPublicView (P : AiPlatform) (r : ChatRecord) : Except AiError ArticleChat :=
  (publicMessages P r.operations r.snapshot r.limits.maxResponseBytes r.view.messages).map fun messages =>
    { r.view with messages := messages }

/-! ## Reading and writing -/

def AiDb.setChat (db : AiDb) (id : Nat) (row : ChatRow) : AiDb := { db with chats := db.chats.insert id row }

/-- The row of a chat, if it and its workspace belong to the owner. -/
def ownedChat (owner : AccountId) (id : Nat) : AiTx ChatRow := do
  let db ← Tx.get
  let row ← Tx.orThrow (db.chats.lookup id) .notFound
  Tx.require (row.owner = owner ∧ db.policy.ownsWorkspace owner row.workspace) .notFound
  pure row

def liftExcept {α : Type} : Except AiError α → AiTx α
  | .ok a => pure a
  | .error e => Tx.throw e

/-- `locked`. -/
def lockedRecord (owner : AccountId) (id : Nat) : AiTx ChatRecord := do
  let row ← ownedChat owner id
  let record ← liftExcept (ChatDocument.decode row.document row.inputs)
  Tx.require (record.owner = owner ∧ record.view.id = id) .storage
  pure record

/-- The inputs a record may write over: the same, or the same with a snapshot that is missing. -/
def acceptsInputs (stored : Option JsonObject) (inputs : JsonObject) : Bool :=
  match stored with
  | some old =>
    old.same inputs ||
      (old.get? "snapshot" == some (.snapshot none) && (old.without "snapshot").same (inputs.without "snapshot"))
  | none => false

/-- `write_record` publishes the projection of the whole record. -/
def writeRecord (P : AiPlatform) (record : ChatRecord) : AiTx Unit := do
  let (document, inputs) ← liftExcept (ChatDocument.encode record)
  let published ← liftExcept (record.intoPublicView P)
  let row ← Tx.orThrow ((← Tx.get).chats.lookup record.view.id) .conflict
  Tx.require (row.owner = record.owner ∧ acceptsInputs row.inputs inputs) .conflict
  Tx.modify (·.setChat record.view.id { row with
    document := some document
    status := some record.view.status
    inputs := if row.inputs.any (·.same inputs) then row.inputs else some inputs
    publicView := some published
    publicRevision := row.publicRevision + 1 })

structure LockedProgress where
  record : Progress
  published : ArticleChat
deriving DecidableEq, Repr

def lockedProgress (owner : AccountId) (id : Nat) : AiTx LockedProgress := do
  let row ← ownedChat owner id
  Tx.require (row.status.isSome) .storage
  let document ← Tx.orThrow row.document .storage
  let record ← liftExcept (Progress.fromValue document)
  let published ← Tx.orThrow row.publicView .storage
  Tx.require (record.owner = owner ∧ record.view.id = id ∧ record.view.workspaceId = row.workspace ∧
    record.view.articleId = row.article ∧ published.id = id ∧ published.workspaceId = record.view.workspaceId ∧
    published.articleId = record.view.articleId) .storage
  pure { record, published }

/-- The content of a message that `write_progress` publishes: a summary that is not complete keeps what was
published of it. -/
def keptMessage (published : ArticleChat) (m : ChatMessage) : Except AiError ChatMessage :=
  if m.purpose = some .summary ∧ m.status ≠ .complete then
    match published.messages.find? (·.id == m.id) with
    | some old => .ok { m with content := old.content }
    | none => .error .storage
  else .ok m

def keptMessages (published : ArticleChat) (messages : List ChatMessage) : Except AiError (List ChatMessage) :=
  messages.mapM (keptMessage published)

def writeProgress (state : LockedProgress) : AiTx Unit := do
  let messages ← liftExcept (keptMessages state.published state.record.view.messages)
  let row ← Tx.orThrow ((← Tx.get).chats.lookup state.record.view.id) .conflict
  Tx.require (row.owner = state.record.owner) .conflict
  Tx.modify (·.setChat state.record.view.id { row with
    document := some state.record.toValue
    status := some state.record.view.status
    publicView := some { state.record.view with messages := messages }
    publicRevision := row.publicRevision + 1 })

end Inoreader
