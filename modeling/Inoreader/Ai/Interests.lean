import Inoreader.Ai.Budget
import Mathlib.Data.List.Sort

/-!
# Interest rankings (`reader-storage-postgres/src/ai/interests.rs`)

A ranking is a row of `interest_scores`; its attempts are rows of `interest_responses` under the lease.
A claim replaces the lease of the row, an expired claim keeps it.
-/

namespace Inoreader
open Lib

/-- A joined row of the candidate query. -/
structure InterestCandidate where
  key : ScoreKey
  profile : InterestProfile
  article : Article

namespace AiDb

/-- Some ranking of the owner waits for the budget. -/
def budgetBlocked (db : AiDb) (owner : AccountId) (now : DateTime) : Bool :=
  db.interestScores.rows.any fun row =>
    row.1.owner == owner && row.2.status == .budget && decide (now < row.2.leaseUntil)

/-- The article has no ranking under the current profile, or it has to be ranked again. -/
def rankable (db : AiDb) (key : ScoreKey) (now : DateTime) : Bool :=
  match db.interestScores.lookup key with
  | none => true
  | some s =>
    (s.dirty && s.status != .working && s.status != .budget) || (s.status == .budget && s.leaseUntil ≤ now)

/-- The rows of `interest_profiles p JOIN workspaces w JOIN articles a`. -/
def interestJoin (db : AiDb) : List InterestCandidate :=
  db.interestProfiles.rows.flatMap fun p =>
    (db.policy.library.articles.rows.filter fun a => db.policy.ownsWorkspace p.1 a.1.1).map fun a =>
      { key := { owner := p.1, workspace := a.1.1, article := a.1.2, profileRevision := p.2.revision }
        profile := p.2
        article := a.2 }

def interestCandidates (P : AiPlatform) (db : AiDb) (owners : List AccountId) (now : DateTime) :
    List InterestCandidate :=
  db.interestJoin.filter fun c =>
    (db.policy.schedule.resumeAt now).isNone && owners.contains c.key.owner &&
      db.policy.automaticAllowed P c.key.owner c.key.workspace c.key.article &&
      !db.budgetBlocked c.key.owner now && !c.article.state.read &&
      P.articleVisible db.policy.library (c.key.workspace, c.key.article) && db.rankable c.key now

end AiDb

/-- `ORDER BY a.arrival_order DESC,a.id DESC`. -/
def InterestCandidate.before (a b : InterestCandidate) : Bool :=
  b.article.firstArrivedAt < a.article.firstArrivedAt ||
    (a.article.firstArrivedAt == b.article.firstArrivedAt &&
      (b.key.workspace.uuid < a.key.workspace.uuid ||
        (a.key.workspace == b.key.workspace && b.key.article.uuid ≤ a.key.article.uuid)))

/-- `UPDATE … SET status='failed' … WHERE status='working' AND lease_until<now() AND owner=ANY($1)`: the lease
stays in the row. -/
def ScoreRow.interrupt (now : DateTime) (s : ScoreRow) : ScoreRow :=
  { s with status := .failed, error := some "Interrupted request; retry explicitly", leaseUntil := now }

def AiDb.interruptScores (db : AiDb) (owners : List AccountId) (now : DateTime) : AiDb :=
  let expired := db.interestScores.rows.filter fun row =>
    row.2.status == .working && row.2.leaseUntil < now && owners.contains row.1.owner
  { db with interestScores := expired.foldl (fun t row => t.insert row.1 (row.2.interrupt now)) db.interestScores }

def AiDb.setScore (db : AiDb) (key : ScoreKey) (row : ScoreRow) : AiDb :=
  { db with interestScores := db.interestScores.insert key row }

def AiDb.setResponse (db : AiDb) (id : Nat) (row : InterestResponse) : AiDb :=
  { db with interestResponses := db.interestResponses.insert id row }

/-- The row of a fresh claim; a conflicting row becomes the same one. -/
def claimedScore (lease : Nat) (leaseUntil : DateTime) : ScoreRow where
  status := .working
  score := none
  prediction := none
  error := none
  dirty := false
  lease := lease
  leaseUntil := leaseUntil

def claimInterest (P : AiPlatform) (owners : List AccountId) (lease seconds : Nat) (now : DateTime) :
    AiTx (Option InterestClaim) := do
  Tx.modify (·.interruptScores owners now)
  match ((AiDb.interestCandidates P (← Tx.get) owners now).insertionSort fun a b => a.before b).head? with
  | none => pure none
  | some c => do
    Tx.require (seconds ≤ bigintMax) .storage
    Tx.modify (·.setScore c.key (claimedScore lease (leaseEnd now seconds)))
    pure (some
      { owner := c.key.owner, workspace := c.key.workspace, article := c.key.article, profile := c.profile
        lease, title := c.article.key.title, description := c.article.key.description.getD "" })

/-- The key of the ranking that was claimed. -/
def InterestClaim.key (c : InterestClaim) : ScoreKey :=
  { owner := c.owner, workspace := c.workspace, article := c.article, profileRevision := c.profile.revision }

/-- The row that a worker may still write: `lease=$5 AND status='working'`. -/
def ScoreRow.heldBy (s : ScoreRow) (lease : Nat) : Bool := s.lease == lease && s.status == .working

/-- The latest complete reply to the same input of the same ranking. -/
def AiDb.cachedReply (db : AiDb) (c : InterestClaim) (body : String) : Option ProviderReply :=
  let rows := db.interestResponses.rows.filter fun row =>
    row.2.key == c.key && row.2.input == .body body && row.2.reply.any fun r => r.status == 200 && !r.interrupted
  (rows.insertionSort fun a b => b.2.createdAt < a.2.createdAt ∨ (a.2.createdAt = b.2.createdAt ∧ b.1 ≤ a.1)).head?.bind
    (·.2.reply)

/-- `retain_interest_input`; an invalid reply is kept for diagnosis and never reused. -/
def retainInterestInput (P : AiPlatform) (c : InterestClaim) (body : String) (now : DateTime) :
    AiTx (Option InterestPrediction) := do
  ownedWorkspace c.owner c.workspace
  let db ← Tx.get
  let score ← Tx.orThrow (db.interestScores.lookup c.key) .conflict
  Tx.require (score.heldBy c.lease) .conflict
  Tx.require (db.interestResponses.lookup c.lease = none) .storage
  Tx.modify (·.setResponse c.lease { key := c.key, input := .body body, reply := none, createdAt := now })
  match (← Tx.get).cachedReply c body with
  | some reply => pure (P.interestResult reply).toOption
  | none => pure none

/-- The reply of the attempt, inserted or written into the row that retained the input. A row that has a
reply, or that belongs to another ranking, is left alone. -/
def AiDb.recordInterestReply (db : AiDb) (c : InterestClaim) (reply : Option ProviderReply) (now : DateTime) : AiDb :=
  match db.interestResponses.lookup c.lease with
  | none => db.setResponse c.lease { key := c.key, input := .profile c.profile, reply, createdAt := now }
  | some row => if row.key = c.key ∧ row.reply = none then db.setResponse c.lease { row with reply } else db

/-- The status change of `finish_interest`: a ranking that became dirty meanwhile is not published. -/
def scoreAfter (s : ScoreRow) (result : Except AiError InterestPrediction) (schedule : AutomaticSchedule)
    (now : DateTime) : ScoreRow :=
  match result with
  | .ok v =>
    { s with
      status := if s.dirty then .budget else .scored
      score := if s.dirty then none else some v.score
      prediction := if s.dirty then none else some v
      error := none
      leaseUntil := now }
  | .error e =>
    let deferred := e == .budget || e == .automaticPaused
    let reason := if e == .automaticPaused then AiDeferral.peakHours else .dailyBudget
    { s with
      status := if deferred then .budget else if s.dirty then .budget else .failed
      score := none
      prediction := none
      error := some e.text
      leaseUntil := if deferred then schedule.deferredUntil reason now else now }

/-- `finish_interest`: the reply and the fenced status change are one transaction. -/
def finishInterest (c : InterestClaim) (result : Except AiError InterestPrediction) (reply : Option ProviderReply)
    (now : DateTime) : AiTx Unit := do
  ownedWorkspace c.owner c.workspace
  Tx.modify (·.recordInterestReply c reply now)
  let db ← Tx.get
  let score ← Tx.orThrow (db.interestScores.lookup c.key) .conflict
  Tx.require (score.heldBy c.lease) .conflict
  Tx.modify (·.setScore c.key (scoreAfter score result db.policy.schedule now))

/-- The trigger `interest_content_changed`: new content makes the rankings of an article dirty. -/
def markDirty (ws : WorkspaceId) (article : ArticleId) (db : AiDb) : AiDb :=
  let touched := db.interestScores.rows.filter fun row => row.1.workspace == ws && row.1.article == article
  { db with
    interestScores := touched.foldl (fun t row => t.insert row.1 { row.2 with dirty := true }) db.interestScores }

end Inoreader
