import Inoreader.Repository.Subscriptions
import Mathlib.Data.List.MinMax

/-! # Rule commands (`repository/rule.rs`) -/

namespace Inoreader
open Lib

/-- `save_rule`: create with no expected version, edit with the version that was read. -/
def saveRule (w : WorkspaceId) (expected : Option Nat) (v : Rule) : RepoTx Unit := do
  Tx.require v.valid (.storage "a v1 rule must contain exactly one non-blank literal phrase")
  repoI64 v.version
  let db ← Tx.get
  requireRevision ((db.rules.lookup (w, v.id)).map (·.version)) expected
  Tx.modify fun db => { db with rules := db.rules.insert (w, v.id) v }

def deleteRule (w : WorkspaceId) (id : RuleId) (expected : Nat) : RepoTx Unit := do
  repoI64 expected
  let db ← Tx.get
  Tx.require ((db.rules.lookup (w, id)).any (·.version = expected)) .conflict
  Tx.modify fun db => { db with rules := db.rules.erase (w, id) }

/-- `enqueue_rule_application` with the ids that `articles_by_workspace` has returned; the greatest of them
is the bound of the application. -/
def enqueueRuleApplication (w : WorkspaceId) (rule : Rule) (articles : List ArticleId) (now : DateTime) : RepoTx JobId := do
  Tx.require rule.valid (.storage "a v1 rule must contain exactly one non-blank literal phrase")
  let id := JobId.applyRule w rule.id rule.version
  enqueueWorkTx id (.applyRule w rule.id rule.version none (articles.argmax (·.uuid))) now
  pure id

end Inoreader
