import Inoreader.Store.Queue

/-!
# Rule evaluation (`ingest_store/rules.rs`, `content_snapshot.rs`)

A query without `ORDER BY` over a range of primary keys returns its rows in key order.
-/

namespace Inoreader
open Lib

def Db.setArticle (db : Db) (key : ArticleKey) (a : Article) : Db :=
  { db with articles := db.articles.insert key a }

/-- The article rows of a workspace in the order of their ids. -/
def Db.workspaceArticles (db : Db) (w : WorkspaceId) : List (ArticleId × Article) :=
  List.insertionSort (fun x y => x.1.uuid ≤ y.1.uuid)
    ((db.articles.rows.filter (·.1.1 = w)).map fun row => (row.1.2, row.2))

/-- The rules of a workspace in the order of their ids. -/
def Db.workspaceRules (db : Db) (w : WorkspaceId) : List Rule :=
  List.insertionSort (fun x y => x.id.uuid ≤ y.id.uuid) ((db.rules.rows.filter (·.1.1 = w)).map (·.2))

/-- The ordinals and bytes of the published safe chunks of one generation. -/
def Db.safeChunks (db : Db) (record : SourceRecordId) (refresh : Nat) : List (Nat × List UInt8) :=
  List.insertionSort (fun x y => x.1 ≤ y.1)
    ((db.stagedContentChunks.rows.filter fun row =>
      row.1.recordId = record ∧ row.1.refreshId = refresh ∧ row.1.representation = .safe).map
        fun row => (row.1.ordinal, row.2))

/-- `content_snapshot::decode`: count, ordinals and UTF-8 must agree with the manifest. -/
def decodeSnapshot (db : Db) (record : SourceRecordId) (pointer : ContentManifestPointer) : Option String :=
  let chunks := db.safeChunks record pointer.refreshId
  if pointer.recordId = record ∧ chunks.length = pointer.safeHtmlChunks ∧
      chunks.map (·.1) = List.range chunks.length then
    String.fromUTF8? (ByteArray.mk (chunks.flatMap (·.2)).toArray)
  else none

/-- `read_origins` and `article_full_text`: the published texts of all origins and their generations. -/
def articleFullText (a : Article) : StoreTx (Option String × List Nat) := do
  let db ← Tx.get
  let (text, generations) ← Tx.loop (fun acc record =>
      match db.contentManifests.lookup record with
      | none => pure acc
      | some pointer => do
        let html ← Tx.orThrow (decodeSnapshot db record pointer)
          (.unavailable s!"invalid published content generation for record {record.uuid}")
        pure (acc.1 ++ html, acc.2 ++ [pointer.refreshId])) ("", []) a.origins
  pure (if text = "" then none else some text, generations)

def validateRule (r : Rule) : StoreTx Unit :=
  Tx.require r.valid (.unavailable "a v1 rule must contain exactly one non-blank literal phrase")

def upsertRuleEvaluation (w : WorkspaceId) (a : ArticleId) (rule : RuleId) (version : Nat)
    (document : RuleProvenance) : StoreTx Unit := do
  toI64 version "rule version"
  Tx.modify fun db =>
    { db with ruleEvaluations := db.ruleEvaluations.insert ⟨w, a, rule, version⟩ document }

section
variable (P : Platform)

def ensureRuleContent (rule : Rule) (a : Article) (fullText : Option String) : StoreTx Unit :=
  let titleMatch := rule.isMatch P.lowercase a.key.title none
  Tx.require (¬ (fullText = none ∧ (rule.field = .text ∨ (rule.field = .both ∧ titleMatch = false))))
    (.unavailable "rule evaluation awaits fulltext")

/-- What one rule does to the state of an article, and the provenance it leaves. -/
def evaluateRule (rule : Rule) (a : Article) (state : ArticleState) (fullText : Option String)
    (generations : Option (List Nat)) : ArticleState × RuleProvenance :=
  let isMatched := rule.isMatch P.lowercase a.key.title fullText
  let after := if isMatched then rule.apply state else state
  (after, .evaluated isMatched rule.action (decide (state ≠ after)) (isMatched && decide (state = after)) generations)

/-- `UPDATE articles` with the next revision, when the state has changed. -/
def storeState (key : ArticleKey) (a : Article) (state : ArticleState) : StoreTx Unit :=
  if state = a.state then pure ()
  else do
    let revision := min (a.revision + 1) (2 ^ 64 - 1)
    toI64 revision "article revision"
    Tx.modify fun db => db.setArticle key { a with state, revision }

def evaluateArticleRules (lease : LeasedWork) (now : DateTime) (w : WorkspaceId) (id : ArticleId)
    (evaluations : List PendingRuleEvaluation) : StoreTx Unit := do
  assertLease lease now
  let db ← Tx.get
  match db.articles.lookup (w, id) with
  | none => pure ()
  | some a =>
    let (fullText, generations) ← articleFullText a
    let state ← Tx.loop (fun state pending =>
      match db.rules.lookup (w, pending.ruleId) with
      | none => pure state
      | some rule => do
        validateRule rule
        if pending.stillValidFor rule then
          ensureRuleContent P rule a fullText
          let (after, reason) := evaluateRule P rule a state fullText (some generations)
          upsertRuleEvaluation w id rule.id rule.version reason
          pure after
        else pure state) a.state evaluations
    storeState (w, id) a state

/-- The next batch starts behind the last article of this one. -/
def enqueueNextBatch (now : DateTime) (w : WorkspaceId) (rule : RuleId) (version : Nat) (through : ArticleId) :
    Option ArticleId → StoreTx Unit
  | none => pure ()
  | some cursor =>
    Tx.onlyIf (cursor ≠ through)
      (enqueueWork (.rule rule version cursor) (.applyRule w rule version (some cursor) (some through)) (millis now))

/-- `apply_rule_batch` returns the last article of the batch. -/
def applyRuleBatch (lease : LeasedWork) (now : DateTime) (w : WorkspaceId) (ruleId : RuleId) (version : Nat)
    (afterId throughId : Option ArticleId) (limit : Nat) : StoreTx (Option ArticleId) := do
  assertLease lease now
  let db ← Tx.get
  match db.rules.lookup (w, ruleId) with
  | none => pure none
  | some rule =>
    validateRule rule
    if rule.enabled = false ∨ rule.version ≠ version then pure none
    else
      match throughId.or ((db.workspaceArticles w).getLast?.map (·.1)) with
      | none => pure none
      | some through =>
        let rows := ((db.workspaceArticles w).filter fun row =>
          afterId.all (·.uuid < row.1.uuid) ∧ row.1.uuid ≤ through.uuid).take limit
        let last ← Tx.loop (fun _ row => do
          let a := row.2
          let (fullText, _) ← articleFullText a
          ensureRuleContent P rule a fullText
          let (after, reason) := evaluateRule P rule a a.state fullText none
          storeState (w, row.1) a after
          upsertRuleEvaluation w a.id rule.id version reason
          pure (some a.id)) none rows
        Tx.onlyIf (rows.length = limit) (enqueueNextBatch now w rule.id version through last)
        pure last

/-- The evaluations that the enabled rules of one subscription ask for. -/
def pendingEvaluations (rules : List Rule) (linked : SubscriptionId) : List PendingRuleEvaluation :=
  (rules.filter fun r => r.enabled ∧ r.subscriptionId = linked).map fun r =>
    { ruleId := r.id, ruleVersion := r.version, subscriptionId := r.subscriptionId }

def enqueueArticleRuleJobs (now : DateTime) (w : WorkspaceId) (subscription : Subscription) (a : Article)
    (record : SourceRecord) (subscriptions : List SubscriptionId) : StoreTx Unit := do
  let db ← Tx.get
  let rules := db.workspaceRules w
  Tx.loop (fun _ rule => validateRule rule) () rules
  Tx.loop (fun _ linked =>
    match pendingEvaluations rules linked with
    | [] => pure ()
    | evaluations =>
      enqueueWork (.articleRule a.id linked record.id record.revision)
        (.evaluateArticleRules subscription.workspaceId a.id evaluations) (millis now)) () subscriptions

end
end Inoreader
