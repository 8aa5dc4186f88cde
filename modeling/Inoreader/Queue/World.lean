import Inoreader.Repository.Subscriptions
import Inoreader.Store.Content
import Inoreader.Store.Delivery
import Inoreader.Store.Poll
import Inoreader.Lib.Run

/-!
# Workers and the queue

Any number of workers share one queue and one clock. A `claim` is a transaction of many statements:
each statement sees the committed rows and the transaction's own writes, other transactions see its
writes when it commits, and until then it holds the row locks of `FOR UPDATE` and the advisory locks
of the origins it reserved. Every other call locks the row of its job first, so it is one step that
has to wait while a claim holds that row.
-/

namespace Inoreader
open Lib

/-- The next statement of a claim, with the row that the last `SELECT` returned. -/
inductive ClaimPhase
  | select
  | reserve (id : JobId) (row : Job)
  | age (id : JobId) (row : Job)
  | count (id : JobId) (row : Job)
  | busy (id : JobId) (row : Job)
  | lease (id : JobId) (row : Job)
deriving DecidableEq

/-- A claim in progress. -/
structure ClaimTx where
  now : DateTime
  leaseUntil : DateTime
  excluded : List OriginKey := []
  /-- The rows that the age check has given up or rescheduled, as they were before. -/
  aged : List (JobId × Job) := []
  locked : List JobId := []
  advisory : List Nat := []
  phase : ClaimPhase := .select
deriving DecidableEq

/-- What the history of the queue keeps: claims, failures and jobs that were found too old. -/
inductive QueueEvent
  | claimed (job : JobId) (token : LeaseToken) (atTime : DateTime)
  | failed (job : JobId) (token : LeaseToken)
  | agedOut (job : JobId) (atTime : DateTime)
deriving DecidableEq

structure QueueWorld where
  db : Db
  clock : DateTime
  claims : Table LeaseToken ClaimTx
  usedTokens : List LeaseToken
  /-- The latest event first. -/
  log : List QueueEvent

/-- The calls a worker makes under its lease. -/
inductive WorkerCall
  | renew (leaseUntil : DateTime)
  | complete
  | retry (runAt : DateTime) (diagnostic : String)
  | fail (diagnostic : String) (notBefore : Option DateTime)
  | commitPoll (commit : PollCommit)
  | recordSourceSuccess (source : SourceId) (atTime : DateTime) (incomplete : Bool) (durationMs : Nat)
  | deliver (commit : DeliveryCommit)
  | advanceFanout (after : SubscriptionId)
  | publishContent (revision : ContentRevision)
  | cleanupContent (record : SourceRecordId) (keep : Nat)
  | recordRefreshFailure (record : SourceRecordId) (diagnostic : String)
  | evaluateArticleRules (workspace : WorkspaceId) (article : ArticleId) (evaluations : List PendingRuleEvaluation)
  | applyRuleBatch (workspace : WorkspaceId) (rule : RuleId) (version : Nat)
      (afterArticle throughArticle : Option ArticleId) (limit : Nat)

/-- The calls that commit work; the others only move the lease. -/
def WorkerCall.isCommit : WorkerCall → Bool
  | .renew _ | .complete | .retry _ _ | .fail _ _ => false
  | _ => true

def WorkerCall.isFail : WorkerCall → Bool
  | .fail _ _ => true
  | _ => false

/-- The steps of the workers, of the clock and of the rest of the program. -/
inductive QueueOp
  | tick (time : DateTime)
  | beginClaim (token : LeaseToken) (leaseUntil : DateTime)
  | stepClaim (token : LeaseToken)
  | abortClaim (token : LeaseToken)
  | call (lease : LeasedWork) (call : WorkerCall)
  | enqueue (id : JobId) (item : WorkItem)
  | reprioritize (id : JobId)
  | other (db : Db)

section
variable (P : Platform) (cfg : StoreConfig)

def WorkerCall.tx (lease : LeasedWork) (now : DateTime) : WorkerCall → StoreTx Unit
  | .renew leaseUntil => Inoreader.renew cfg now lease.jobId lease.token leaseUntil
  | .complete => Inoreader.complete cfg now lease.jobId lease.token
  | .retry runAt diagnostic => Inoreader.retry cfg now lease.jobId lease.token runAt diagnostic
  | .fail diagnostic notBefore => Inoreader.fail cfg now lease.jobId lease.token diagnostic notBefore
  | .commitPoll c => Inoreader.commitPoll lease now c
  | .recordSourceSuccess source atTime incomplete durationMs =>
    Inoreader.recordSourceSuccess lease now source atTime incomplete durationMs
  | .deliver c => do let _ ← Inoreader.deliver P lease now c
  | .advanceFanout after => Inoreader.advanceFanout lease now after
  | .publishContent v => Inoreader.publishContent lease now v
  | .cleanupContent record keep => Inoreader.cleanupContent lease now record keep
  | .recordRefreshFailure record diagnostic => Inoreader.recordRefreshFailure lease now record diagnostic
  | .evaluateArticleRules w a evaluations => Inoreader.evaluateArticleRules P lease now w a evaluations
  | .applyRuleBatch w rule version afterId throughId limit => do
    let _ ← Inoreader.applyRuleBatch P lease now w rule version afterId throughId limit

/-- The committed tables with the claim's own updates. -/
def ClaimTx.view (c : ClaimTx) (db : Db) : Db :=
  { db with
    ingestJobs := c.aged.foldl
      (fun t e => t.insert e.1 (e.2.agedOut (millis (c.now + cfg.pollInterval)))) db.ingestJobs }

/-- What a claim that ends at `clock` writes. -/
def ClaimTx.writes (c : ClaimTx) (token : LeaseToken) (clock : DateTime) (leased : Option (JobId × Job)) :
    StoreTx Unit := do
  Tx.loop (fun _ e => ageOut cfg c.now clock e.1 e.2) () c.aged
  match leased with
  | some (id, row) => Tx.modify fun db => db.setJob id (row.leasedBy token c.leaseUntil)
  | none => pure ()

def ClaimTx.events (c : ClaimTx) (token : LeaseToken) (leased : Option (JobId × Job)) : List QueueEvent :=
  (leased.map fun row => QueueEvent.claimed row.1 token c.now).toList ++
    c.aged.map fun row => .agedOut row.1 c.now

namespace QueueWorld

def setClaim (w : QueueWorld) (token : LeaseToken) (c : ClaimTx) : QueueWorld :=
  { w with claims := w.claims.insert token c }

/-- The row locks of the claims in progress, apart from those of `token`. -/
def lockedByOthers (w : QueueWorld) (token : LeaseToken) : List JobId :=
  (w.claims.rows.filter (·.1 ≠ token)).flatMap (·.2.locked)

def advisoryOfOthers (w : QueueWorld) (token : LeaseToken) : List Nat :=
  (w.claims.rows.filter (·.1 ≠ token)).flatMap (·.2.advisory)

def isLocked (w : QueueWorld) (id : JobId) : Bool := w.claims.rows.any (·.2.locked.contains id)

/-- A claim that cannot commit is rolled back. -/
def commitClaim (w : QueueWorld) (token : LeaseToken) (c : ClaimTx) (leased : Option (JobId × Job)) : QueueWorld :=
  match c.writes cfg token w.clock leased w.db with
  | .ok (_, db) => { w with db, claims := w.claims.erase token, log := c.events token leased ++ w.log }
  | .error _ => { w with claims := w.claims.erase token }

/-- One statement of the loop of `claim`. -/
def stepClaim (w : QueueWorld) (token : LeaseToken) (c : ClaimTx) : QueueWorld :=
  let view := c.view cfg w.db
  let skip (origin : OriginKey) : QueueWorld :=
    w.setClaim token { c with excluded := c.excluded ++ [origin], phase := .select }
  match c.phase with
  | .select =>
    match view.selectClaim P (millis c.now) c.excluded cfg.perOriginConcurrency (w.lockedByOthers token) with
    | none => w.commitClaim cfg token c none
    | some (id, row) => w.setClaim token { c with locked := id :: c.locked, phase := .reserve id row }
  | .reserve id row =>
    if P.hashtext row.originKey ∈ w.advisoryOfOthers token then skip row.originKey
    else w.setClaim token { c with advisory := P.hashtext row.originKey :: c.advisory, phase := .age id row }
  | .age id row =>
    if retryAgeExceeded row.firstAttemptMs (millis (c.now - cfg.maxRetryAge)) then
      w.setClaim token { c with aged := c.aged ++ [(id, row)], phase := .select }
    else w.setClaim token { c with phase := .count id row }
  | .count id row =>
    if originHasCapacity (view.activeLeases row.originKey (millis c.now)) cfg.perOriginConcurrency then
      w.setClaim token { c with phase := .busy id row }
    else skip row.originKey
  | .busy id row =>
    if view.sourceBusy row.item (millis c.now) then skip row.originKey
    else w.setClaim token { c with phase := .lease id row }
  | .lease id row => w.commitClaim cfg token c (some (id, row))

/-- `UPDATE ingest_jobs SET run_at_ms` of `reprioritize_ready_jobs`. -/
def reprioritized (db : Db) (id : JobId) : Db :=
  { db with ingestJobs := db.ingestJobs.update id fun j => { j with runAtMs := initialJobRunAt j.item } }

/-- The rest of the program leaves the queue alone and never moves a source to another URL. -/
def KeepsQueue (db db' : Db) : Prop :=
  db'.ingestJobs = db.ingestJobs ∧
    ∀ row ∈ db.sources.rows, (db'.sources.lookup row.1).map (·.url) = some row.2.url

instance (db db' : Db) : Decidable (KeepsQueue db db') := inferInstanceAs (Decidable (_ ∧ _))

def step (w : QueueWorld) : QueueOp → Option QueueWorld
  | .tick time => if w.clock ≤ time then some { w with clock := time } else none
  | .beginClaim token leaseUntil =>
    if token ∈ w.usedTokens then none
    else some
      { w with claims := w.claims.insert token { now := w.clock, leaseUntil }
               usedTokens := token :: w.usedTokens }
  | .stepClaim token => (w.claims.lookup token).map fun c => w.stepClaim P cfg token c
  | .abortClaim token => some { w with claims := w.claims.erase token }
  | .call lease call =>
    if w.isLocked lease.jobId then none
    else match call.tx P cfg lease w.clock w.db with
      | .ok (_, db) =>
        some { w with db, log := if call.isFail then .failed lease.jobId lease.token :: w.log else w.log }
      | .error _ => some w
  | .enqueue id item => some { w with db := (enqueueWorkTx id item w.clock).commit w.db }
  | .reprioritize id => if w.isLocked id then none else some { w with db := reprioritized w.db id }
  | .other db => if KeepsQueue w.db db then some { w with db } else none

/-- A queue without jobs and without workers. -/
structure Start (w : QueueWorld) : Prop where
  jobs : w.db.ingestJobs = ∅
  claims : w.claims = ∅
  log : w.log = []

end QueueWorld
end
end Inoreader
