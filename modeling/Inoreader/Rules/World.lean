import Inoreader.Rules.Order
import Inoreader.Library.Run

/-!
# Rule jobs statement by statement

`evaluate_article_rules` locks its article and reads each rule without a lock; `apply_rule_batch` locks
its rule and then its articles. Each transaction is a sequence of statements that see what other
transactions committed before them. Rule commands and everything else wait for the rows that are locked.
-/

namespace Inoreader
open Lib Tx

/-- An open transaction of `evaluate_article_rules`. -/
structure EvaluateTx where
  w : WorkspaceId
  id : ArticleId
  /-- The article as it was when its row was locked. -/
  article : Article
  /-- The full text and its generations, once they are read. -/
  text : Option (Option String × List Nat)
  evaluations : List PendingRuleEvaluation
  /-- The evaluations whose turn is still to come. -/
  rest : List PendingRuleEvaluation
  state : ArticleState
  /-- The evaluation whose turn changed the state. -/
  cause : Option PendingRuleEvaluation
  upserts : List (RuleEvaluationKey × RuleProvenance)
deriving DecidableEq

/-- One article that `apply_rule_batch` is through with. -/
structure BatchTurn where
  id : ArticleId
  article : Article
  state : ArticleState
  reason : RuleProvenance
deriving DecidableEq

/-- An open transaction of `apply_rule_batch`. -/
structure BatchTx where
  now : DateTime
  w : WorkspaceId
  ruleId : RuleId
  version : Nat
  /-- The rule as it was when its row was locked. -/
  rule : Rule
  afterId : Option ArticleId
  throughId : Option ArticleId
  limit : Nat
  /-- The bound and the locked articles, once they are selected. -/
  selected : Option (ArticleId × List (ArticleId × Article))
  rest : List (ArticleId × Article)
  turns : List BatchTurn
deriving DecidableEq

inductive RuleTx
  | evaluate (t : EvaluateTx)
  | batch (t : BatchTx)
deriving DecidableEq

/-- The database and the open transactions of rule jobs. -/
structure RuleWorld where
  db : Db
  transactions : Table Nat RuleTx

/-- What a statement does to its transaction. -/
inductive Outcome
  | go (t : RuleTx)
  | commit (db : Db)
  | rollback

/-- The article rows that a transaction has locked. -/
def RuleTx.articles : RuleTx → List ArticleKey
  | .evaluate t => [(t.w, t.id)]
  | .batch t => match t.selected with
    | some (_, rows) => rows.map fun row => (t.w, row.1)
    | none => []

/-- The rule row that a transaction has locked. -/
def RuleTx.rule : RuleTx → Option (WorkspaceId × RuleId)
  | .evaluate _ => none
  | .batch t => some (t.w, t.ruleId)

section
variable (P : Platform)

/-- The upsert of one turn of an evaluation. -/
def EvaluateTx.upsert (db : Db) (t : EvaluateTx) (text : Option String × List Nat) (e : PendingRuleEvaluation) :
    List (RuleEvaluationKey × RuleProvenance) :=
  ((db.rules.lookup (t.w, e.ruleId)).filter e.stillValidFor).toList.map fun rule =>
    (⟨t.w, t.id, rule.id, rule.version⟩, (evaluateRule P rule t.article t.state text.1 (some text.2)).2)

def upsertAll (upserts : List (RuleEvaluationKey × RuleProvenance)) : StoreTx Unit :=
  Tx.modify fun db =>
    { db with ruleEvaluations := upserts.foldl (fun t row => t.insert row.1 row.2) db.ruleEvaluations }

/-- The next statement of an evaluation: the texts, one rule, or the write and the commit. -/
def EvaluateTx.next (db : Db) (t : EvaluateTx) : Outcome :=
  match t.text with
  | none =>
    match articleFullText t.article db with
    | .ok (text, _) => .go (.evaluate { t with text := some text })
    | .error _ => .rollback
  | some text =>
    match t.rest with
    | e :: rest =>
      match evaluateTurn P db.rules t.w t.id t.article text.1 text.2 t.state e db with
      | .ok (state, _) => .go (.evaluate { t with
          rest, state
          cause := if state = t.state then t.cause else some e
          upserts := t.upserts ++ t.upsert P db text e })
      | .error _ => .rollback
    | [] =>
      match (do upsertAll t.upserts; storeState (t.w, t.id) t.article t.state : StoreTx Unit) db with
      | .ok (_, db') => .commit db'
      | .error _ => .rollback

/-- The writes of a batch. -/
def BatchTx.finish (t : BatchTx) (through : ArticleId) (rows : List (ArticleId × Article)) : StoreTx Unit := do
  Tx.loop (fun _ turn => storeState (t.w, turn.id) turn.article turn.state) () t.turns
  upsertAll (t.turns.map fun turn => (⟨t.w, turn.article.id, t.rule.id, t.version⟩, turn.reason))
  Tx.onlyIf (rows.length = t.limit)
    (enqueueNextBatch t.now t.w t.rule.id t.version through (rows.getLast?.map (·.2.id)))

/-- The next statement of a batch: the selection of its articles, one article, or the commit. -/
def BatchTx.next (db : Db) (t : BatchTx) : Outcome :=
  match t.selected with
  | none =>
    match t.throughId.or ((db.workspaceArticles t.w).getLast?.map (·.1)) with
    | none => .commit db
    | some through =>
      let rows := db.ruleBatch t.w t.afterId t.throughId t.limit
      .go (.batch { t with selected := some (through, rows), rest := rows })
  | some (through, rows) =>
    match t.rest with
    | row :: rest =>
      match batchTurn P t.w t.rule t.version none row db with
      | .ok _ =>
        let result := evaluateRule P t.rule row.2 row.2.state (db.fullText row.2) none
        .go (.batch { t with
          rest, turns := t.turns ++ [{ id := row.1, article := row.2, state := result.1, reason := result.2 }] })
      | .error _ => .rollback
    | [] =>
      match t.finish through rows db with
      | .ok (_, db') => .commit db'
      | .error _ => .rollback

def RuleTx.next (db : Db) : RuleTx → Outcome
  | .evaluate t => t.next P db
  | .batch t => t.next P db

end

inductive RuleWorldOp
  /-- The lease check and the first lock of a job. -/
  | start (tx : Nat) (lease : LeasedWork) (now : DateTime) (job : RuleJob)
  | next (tx : Nat)
  /-- The worker is gone. -/
  | rollback (tx : Nat)
  | saveRule (w : WorkspaceId) (expected : Option Nat) (rule : Rule)
  | deleteRule (w : WorkspaceId) (rule : RuleId) (expected : Nat)
  /-- Any other transaction commits: user commands, deliveries, publications. -/
  | other (db : Db)

namespace RuleWorld

/-- No other transaction has locked the article. -/
def ArticleFree (s : RuleWorld) (tx : Nat) (k : ArticleKey) : Prop :=
  ∀ row ∈ s.transactions.rows, row.1 ≠ tx → k ∉ row.2.articles

/-- No transaction has locked the rule. -/
def RuleFree (s : RuleWorld) (r : WorkspaceId × RuleId) : Prop := ∀ row ∈ s.transactions.rows, row.2.rule ≠ some r

instance (s : RuleWorld) (tx : Nat) (k : ArticleKey) : Decidable (s.ArticleFree tx k) :=
  inferInstanceAs (Decidable (∀ row ∈ s.transactions.rows, row.1 ≠ tx → k ∉ row.2.articles))

instance (s : RuleWorld) (r : WorkspaceId × RuleId) : Decidable (s.RuleFree r) :=
  inferInstanceAs (Decidable (∀ row ∈ s.transactions.rows, row.2.rule ≠ some r))

def setTx (s : RuleWorld) (tx : Nat) (t : RuleTx) : RuleWorld :=
  { s with transactions := s.transactions.insert tx t }

def closeTx (s : RuleWorld) (tx : Nat) (db : Db) : RuleWorld := { db, transactions := s.transactions.erase tx }

/-- A job whose lease is stale, whose article or rule is gone or whose rule has another version ends at
once; one whose row is locked waits. -/
def startJob (s : RuleWorld) (tx : Nat) (lease : LeasedWork) (now : DateTime) (job : RuleJob) : Option RuleWorld :=
  if s.db.leaseCurrent lease now = false then some s
  else
    match job with
    | .evaluate w id evaluations =>
      match s.db.articles.lookup (w, id) with
      | none => some s
      | some article =>
        if s.ArticleFree tx (w, id) then
          some (s.setTx tx (.evaluate { w, id, article, text := none, evaluations, rest := evaluations
                                        state := article.state, cause := none, upserts := [] }))
        else none
    | .batch w ruleId version afterId throughId limit =>
      match s.db.rules.lookup (w, ruleId) with
      | none => some s
      | some rule =>
        if s.RuleFree (w, ruleId) then
          if rule.valid = true ∧ rule.enabled = true ∧ rule.version = version then
            some (s.setTx tx (.batch { now, w, ruleId, version, rule, afterId, throughId, limit
                                       selected := none, rest := [], turns := [] }))
          else some s
        else none

def step (P : Platform) (s : RuleWorld) : RuleWorldOp → Option RuleWorld
  | .start tx lease now job =>
    match s.transactions.lookup tx with
    | some _ => none
    | none => s.startJob tx lease now job
  | .next tx =>
    match s.transactions.lookup tx with
    | none => none
    | some t =>
      match t.next P s.db with
      | .go t' => if ∀ k ∈ t'.articles, s.ArticleFree tx k then some (s.setTx tx t') else none
      | .commit db => some (s.closeTx tx db)
      | .rollback => some (s.closeTx tx s.db)
  | .rollback tx => some (s.closeTx tx s.db)
  | .saveRule w expected rule =>
    if s.RuleFree (w, rule.id) then
      match Inoreader.saveRule w expected rule s.db with
      | .ok (_, db) => some { s with db }
      | .error _ => none
    else none
  | .deleteRule w rule expected =>
    if s.RuleFree (w, rule) then
      match Inoreader.deleteRule w rule expected s.db with
      | .ok (_, db) => some { s with db }
      | .error _ => none
    else none
  | .other db =>
    if db.rules = s.db.rules ∧
        ∀ row ∈ s.transactions.rows, ∀ k ∈ row.2.articles, db.articles.lookup k = s.db.articles.lookup k then
      some { s with db }
    else none

end RuleWorld

end Inoreader
