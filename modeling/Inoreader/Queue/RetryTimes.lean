import Mathlib.Algebra.Group.Int.Defs
import Mathlib.Algebra.Group.Nat.Defs
import Inoreader.Engine.Poll
import Inoreader.Queue.Retries

/-!
# The times of retries (`IngestWorker::run_one`)

When an attempt has failed, the worker computes a time for a retry, or its attempts are exhausted and the store takes
the next regular run. What is stored are milliseconds. A worker whose lease is over cannot store anything, and another
job of the same source has times of its own.
-/

namespace Inoreader
open Lib Tx

/-! ## The failed branch of `run_one` -/

/-- The policy of `with_runtime_policy`; durations are in nanoseconds. -/
structure RetryPolicy where
  retryAttempts : Nat
  rateLimitDelay : Int
  retryJitter : Int
  retryAttempts_pos : 0 < retryAttempts
  rateLimitDelay_nonneg : 0 ≤ rateLimitDelay
  retryJitter_nonneg : 0 ≤ retryJitter

/-- `DateTime::<Utc>::MIN_UTC` and `MAX_UTC`. -/
def minUtc : DateTime := -8334601228800000000000

def maxUtc : DateTime := 8210266876799999999999

/-- `DateTime::checked_add_signed` -/
def checkedAddSigned (t : DateTime) (d : Int) : Option DateTime :=
  if minUtc ≤ t + d ∧ t + d ≤ maxUtc then some (t + d) else none

def seconds (n : Int) : Int := n * 1000000000

/-- `i64::checked_shl` of a one. -/
def checkedShl (bits : Nat) : Option Int := if bits < 64 then some (2 ^ bits) else none

namespace IngestError

def notBefore : IngestError → Option DateTime
  | .fetch (.retryAfter _ notBefore) => some notBefore
  | _ => none

def rateLimited : IngestError → Bool
  | .fetch (.http status) => status == 429
  | .fetch (.retryAfter status _) => status == 429
  | _ => false

end IngestError

/-- What `run_one` knows when an attempt has failed: `now` is the time of the claim, `failedAt` the next reading of the
clock. -/
structure Attempt where
  lease : LeasedWork
  now : DateTime
  failedAt : DateTime
  error : IngestError
  diagnostic : String
deriving DecidableEq

namespace RetryPolicy
variable (P : Platform) (policy : RetryPolicy)

def delaySeconds (attempt : Nat) : Int := (checkedShl (min attempt 10)).getD 1024

def delay (a : Attempt) : Int :=
  max (seconds (delaySeconds a.lease.attempt)) (if a.error.rateLimited then policy.rateLimitDelay else 0)

/-- The low bits of the job's id. -/
def jitter (job : JobId) : Int :=
  let spread := policy.retryJitter / 1000000
  if 0 < spread then (P.jobUuid job : Int) % spread * 1000000 else 0

/-- `retry_at` -/
def retryAt (a : Attempt) : Option DateTime := do
  let delayed ← checkedAddSigned (max a.failedAt a.now) (policy.delay a)
  let spread ← checkedAddSigned delayed (policy.jitter P a.lease.jobId)
  some (max spread (a.error.notBefore.getD a.now))

/-- `lease.attempt.saturating_add(1) >= self.retry_attempts` -/
def exhausted (a : Attempt) : Bool := decide (policy.retryAttempts ≤ a.lease.attempt + 1)

/-- The call by which the worker gives the job back. -/
def giveBack (a : Attempt) (retryAt : DateTime) : WorkerCall :=
  if policy.exhausted a then .fail a.diagnostic (if a.error.rateLimited then some retryAt else a.error.notBefore)
  else .retry retryAt a.diagnostic

end RetryPolicy

/-! ## Runs -/

/-- An attempt that failed, whether the store took the failure, and when; `before` is what had been logged then. -/
structure FailedAttempt where
  attempt : Attempt
  stored : Bool
  storedAt : DateTime
  before : List QueueEvent
deriving DecidableEq

def FailedAttempt.job (f : FailedAttempt) : JobId := f.attempt.lease.jobId

structure RetryWorld where
  queue : QueueWorld
  failures : List FailedAttempt

inductive RetryOp
  /-- A step of the queue that is not the end of a failed attempt. -/
  | queue (op : QueueOp)
  | fails (a : Attempt)

/-- The steps as the program takes them: only `run_one` gives a job back, leases end after the claim, and only jobs that
are ready and not yet prioritized are reprioritized. -/
def QueueWorld.allows (w : QueueWorld) : QueueOp → Bool
  | .call _ (.retry _ _) | .call _ (.fail _ _) => false
  | .call lease (.renew leaseUntil) => w.log.any fun
    | .claimed id token n => id == lease.jobId && token == lease.token && decide (n ≤ leaseUntil)
    | _ => false
  | .beginClaim _ leaseUntil => decide (w.clock ≤ leaseUntil)
  | .reprioritize id => (w.db.ingestJobs.lookup id).all fun j =>
    j.status == .ready && j.runAtMs == 0 && initialJobRunAt j.item != 0
  | _ => true

namespace RetryWorld
variable (P : Platform) (cfg : StoreConfig) (policy : RetryPolicy)

/-- The lease was claimed for this job, and the times are those of a clock that does not go back. -/
def Fails (w : RetryWorld) (a : Attempt) : Prop :=
  .claimed a.lease.jobId a.lease.token a.now ∈ w.queue.log ∧
    (w.queue.db.ingestJobs.lookup a.lease.jobId).map (·.item) = some a.lease.item ∧
    a.now ≤ a.failedAt ∧ a.failedAt ≤ w.queue.clock

instance (w : RetryWorld) (a : Attempt) : Decidable (w.Fails a) := inferInstanceAs (Decidable (_ ∧ _))

/-- An attempt without a time for its retry ends with an error, and nothing is stored. -/
def step (w : RetryWorld) : RetryOp → Option RetryWorld
  | .queue op =>
    if w.queue.allows op then (w.queue.step P cfg op).map fun queue => { w with queue } else none
  | .fails a =>
    if w.Fails a then
      match policy.retryAt P a with
      | none => some { w with failures := ⟨a, false, w.queue.clock, w.queue.log⟩ :: w.failures }
      | some retryAt =>
        let call := policy.giveBack a retryAt
        let stored := (call.tx P cfg a.lease w.queue.clock w.queue.db).isOk
        (w.queue.step P cfg (.call a.lease call)).map fun queue =>
          { queue, failures := ⟨a, stored, w.queue.clock, queue.log⟩ :: w.failures }
    else none

structure Start (w : RetryWorld) : Prop where
  queue : w.queue.Start
  failures : w.failures = []

/-- The job is claimed after the failure. -/
def ClaimedAfter (w : RetryWorld) (f : FailedAttempt) (job : JobId) (n : DateTime) : Prop :=
  ∃ new, w.queue.log = new ++ f.before ∧ ∃ token, .claimed job token n ∈ new

/-- A job of the kinds `PollSource` and `CollectWebFeed` for the source of the failed attempt. -/
def Collects (w : RetryWorld) (f : FailedAttempt) (job : JobId) : Prop :=
  ∃ j, w.queue.db.ingestJobs.lookup job = some j ∧ j.item.isRecurring = true ∧
    j.item.collectSource = f.attempt.lease.item.collectSource

end RetryWorld

/-- The times after a failed attempt as they are claimed: never before the backoff, the server's time or the delay for
a rate limit, and no job of the source before the server's time. -/
structure RetryWorld.RetriesHonoured (policy : RetryPolicy) (w : RetryWorld) : Prop where
  backoff : ∀ f ∈ w.failures, f.attempt.lease.item.isRecurring = true → ∀ n, w.ClaimedAfter f f.job n →
    f.attempt.failedAt + seconds (2 ^ min f.attempt.lease.attempt 10) ≤ n
  rateLimit : ∀ f ∈ w.failures, f.attempt.lease.item.isRecurring = true → f.attempt.error.rateLimited = true →
    ∀ n, w.ClaimedAfter f f.job n → f.attempt.failedAt + policy.rateLimitDelay ≤ n
  retryAfter : ∀ f ∈ w.failures, f.attempt.lease.item.isRecurring = true → ∀ t, f.attempt.error.notBefore = some t →
    ∀ job n, w.Collects f job → w.ClaimedAfter f job n → t ≤ n

/-- What holds of the failures that the store took, in milliseconds: the times of a retry; after the last attempt those
that the server or a rate limit demands, and the next regular run. -/
structure FailedAttempt.Kept (cfg : StoreConfig) (policy : RetryPolicy) (f : FailedAttempt) (ms : Int) : Prop where
  backoff : policy.exhausted f.attempt = false ∨ f.attempt.error.rateLimited = true →
    millis (f.attempt.failedAt + seconds (2 ^ min f.attempt.lease.attempt 10)) ≤ ms
  rateLimit : f.attempt.error.rateLimited = true → millis (f.attempt.failedAt + policy.rateLimitDelay) ≤ ms
  retryAfter : ∀ t, f.attempt.error.notBefore = some t → millis t ≤ ms
  nextRun : policy.exhausted f.attempt = true → millis (f.storedAt + cfg.pollInterval) ≤ ms

structure RetryWorld.RetriesKept (cfg : StoreConfig) (policy : RetryPolicy) (w : RetryWorld) : Prop where
  job : ∀ f ∈ w.failures, f.stored = true → f.attempt.lease.item.isRecurring = true →
    ∀ n, w.ClaimedAfter f f.job n → f.Kept cfg policy (millis n)
  /-- The only collection job of a source respects the time that the server has given. -/
  alone : ∀ f ∈ w.failures, f.stored = true → f.attempt.lease.item.isRecurring = true →
    (∀ job, w.Collects f job → job = f.job) → ∀ t, f.attempt.error.notBefore = some t →
      ∀ job n, w.Collects f job → w.ClaimedAfter f job n → millis t ≤ millis n

/-- The time of the failure leaves room for the longest delay. -/
def RetryPolicy.InRange (policy : RetryPolicy) (a : Attempt) : Prop :=
  minUtc ≤ max a.failedAt a.now ∧
    max a.failedAt a.now + max (seconds 1024) policy.rateLimitDelay + policy.retryJitter ≤ maxUtc

/-! ## The time of a retry -/

section
variable {P : Platform} {cfg : StoreConfig} {policy : RetryPolicy} {a : Attempt} {t t' : DateTime} {d : Int}

theorem checkedAddSigned_eq_some : checkedAddSigned t d = some t' ↔ (minUtc ≤ t + d ∧ t + d ≤ maxUtc) ∧ t' = t + d := by
  unfold checkedAddSigned
  split_ifs with h
  · rw [Option.some.injEq, eq_comm]
    exact (and_iff_right h).symm
  · exact iff_of_false not_false fun h' => h h'.1

/-- The shift is exact for every attempt. -/
theorem delaySeconds_eq (attempt : Nat) : RetryPolicy.delaySeconds attempt = 2 ^ min attempt 10 := by
  have hlt : min attempt 10 < 64 := by omega
  unfold RetryPolicy.delaySeconds checkedShl
  rw [if_pos hlt]
  rfl

theorem two_pow_le (attempt : Nat) : (2 : Int) ^ min attempt 10 ≤ 1024 := by
  have hle : 2 ^ min attempt 10 ≤ 2 ^ 10 := Nat.pow_le_pow_right (by decide) (Nat.min_le_right ..)
  have hcast := Int.ofNat_le.2 hle
  rwa [Int.natCast_pow] at hcast

theorem two_pow_pos (n : Nat) : (0 : Int) < 2 ^ n := Int.pow_pos (by decide)

/-- Delays and jitter do not take away from what is added. -/
theorem le_spread {failedAt now delay jitter other d : Int} (hd : d ≤ delay) (hjitter : 0 ≤ jitter) :
    failedAt + d ≤ max (max failedAt now + delay + jitter) other := by
  omega

theorem now_le_spread {failedAt now delay jitter other : Int} (hdelay : 0 ≤ delay) (hjitter : 0 ≤ jitter) :
    now ≤ max (max failedAt now + delay + jitter) other := by
  omega

theorem between_of_le {low high start longest most delay jitter : Int} (hlow : low ≤ start)
    (hhigh : start + longest + most ≤ high) (hdelay : 0 ≤ delay) (hdelay' : delay ≤ longest) (hjitter : 0 ≤ jitter)
    (hjitter' : jitter ≤ most) :
    (low ≤ start + delay ∧ start + delay ≤ high) ∧ low ≤ start + delay + jitter ∧ start + delay + jitter ≤ high := by
  omega

namespace RetryPolicy

theorem delay_bounds (policy : RetryPolicy) (a : Attempt) : seconds (2 ^ min a.lease.attempt 10) ≤ policy.delay a ∧
    policy.delay a ≤ max (seconds 1024) policy.rateLimitDelay ∧ 0 ≤ policy.delay a ∧
    (a.error.rateLimited = true → policy.rateLimitDelay ≤ policy.delay a) := by
  have hle := two_pow_le a.lease.attempt
  have hpos := two_pow_pos (min a.lease.attempt 10)
  have hrate := policy.rateLimitDelay_nonneg
  unfold delay seconds
  rw [delaySeconds_eq]
  split_ifs with hlimited
  · refine ⟨by omega, by omega, by omega, fun _ => by omega⟩
  · refine ⟨by omega, by omega, by omega, fun h => absurd h hlimited⟩

theorem jitter_bounds (policy : RetryPolicy) (job : JobId) : 0 ≤ policy.jitter P job ∧
    policy.jitter P job ≤ policy.retryJitter := by
  have hnonneg := policy.retryJitter_nonneg
  unfold jitter
  dsimp only
  split_ifs with hspread
  · have hmod := Int.emod_nonneg (P.jobUuid job : Int) hspread.ne'
    have hlt := Int.emod_lt_of_pos (P.jobUuid job : Int) hspread
    omega
  · omega

/-- What a computed time respects. -/
theorem retryAt_ge {at' : DateTime} (h : policy.retryAt P a = some at') :
    a.failedAt + seconds (2 ^ min a.lease.attempt 10) ≤ at' ∧ a.now ≤ at' ∧
      (∀ t, a.error.notBefore = some t → t ≤ at') ∧
      (a.error.rateLimited = true → a.failedAt + policy.rateLimitDelay ≤ at') := by
  obtain ⟨delayed, hdelayed, h⟩ := Option.bind_eq_some_iff.1 h
  obtain ⟨spread, hspread, h⟩ := Option.bind_eq_some_iff.1 h
  obtain ⟨-, rfl⟩ := checkedAddSigned_eq_some.1 hdelayed
  obtain ⟨-, rfl⟩ := checkedAddSigned_eq_some.1 hspread
  obtain rfl := Option.some.inj h
  obtain ⟨hbackoff, -, hdelay, hlimited⟩ := policy.delay_bounds a
  obtain ⟨hjitter, -⟩ := policy.jitter_bounds (P := P) a.lease.jobId
  refine ⟨le_spread hbackoff hjitter, now_le_spread hdelay hjitter, fun t ht => ?_, fun hr =>
    le_spread (hlimited hr) hjitter⟩
  rw [ht, Option.getD_some]
  exact le_max_right ..

/-- In range there is a time for a retry, for every attempt. -/
theorem retryAt_isSome (h : policy.InRange a) : (policy.retryAt P a).isSome = true := by
  obtain ⟨hlow, hhigh⟩ := h
  obtain ⟨-, hmax, hdelay, -⟩ := policy.delay_bounds a
  obtain ⟨hjitter, hjitter'⟩ := policy.jitter_bounds (P := P) a.lease.jobId
  have hrange := between_of_le hlow hhigh hdelay hmax hjitter hjitter'
  have hdelayed : checkedAddSigned (max a.failedAt a.now) (policy.delay a) =
      some (max a.failedAt a.now + policy.delay a) :=
    checkedAddSigned_eq_some.2 ⟨hrange.1, rfl⟩
  have hspread : checkedAddSigned (max a.failedAt a.now + policy.delay a) (policy.jitter P a.lease.jobId) =
      some (max a.failedAt a.now + policy.delay a + policy.jitter P a.lease.jobId) :=
    checkedAddSigned_eq_some.2 ⟨hrange.2, rfl⟩
  unfold retryAt
  rw [hdelayed]
  show (checkedAddSigned _ _ >>= fun _ => _).isSome = true
  rw [hspread]
  rfl

end RetryPolicy

end
/-! ## A job that is held back -/

/-- The row cannot be claimed before `bound`, and a claim that leased it was not earlier. -/
structure QueueWorld.Waits (w : QueueWorld) (job : JobId) (bound : Int) (j : Job) : Prop where
  ready : j.status = .ready → bound ≤ j.runAtMs
  leased : j.status = .leased → bound ≤ millis w.clock ∧ (∃ d, j.leaseDeadlineMs = some d ∧ bound ≤ d) ∧
    ∀ t n, j.leaseToken = some t → .claimed job t n ∈ w.log → bound ≤ millis n

/-- A recurring job that was held back until `bound` when the log was `before`. -/
structure QueueWorld.HeldBack (w : QueueWorld) (job : JobId) (bound : Int) (before : List QueueEvent) : Prop where
  row : ∃ j, w.db.ingestJobs.lookup job = some j ∧ j.item.isRecurring = true ∧ w.Waits job bound j
  locked : ∀ t c, w.claims.lookup t = some c → job ∈ c.locked → bound ≤ millis c.now
  log : ∃ new, w.log = new ++ before ∧ ∀ t n, .claimed job t n ∈ new → bound ≤ millis n

/-- The claims in progress lease until after their time. -/
def QueueWorld.LeasesAhead (w : QueueWorld) : Prop := ∀ t c, w.claims.lookup t = some c → c.now ≤ c.leaseUntil

/-- What an allowed call does to the row of a recurring job. -/
inductive RowStep (cfg : StoreConfig) (w : QueueWorld) (id : JobId) (j : Job) : Job → Prop
  | renewed (t : LeaseToken) (n : DateTime) (d : Int) (hs : j.status = .leased) (ht : j.leaseToken = some t)
      (hn : .claimed id t n ∈ w.log) (hd : millis n ≤ d) :
      RowStep cfg w id j (j.afterUpdate cfg w.clock .leased (some d) none none)
  | finished (hs : j.status = .leased) : RowStep cfg w id j (j.finished (millis (w.clock + cfg.pollInterval)))

section
variable {P : Platform} {cfg : StoreConfig} {w w' : QueueWorld} {op : QueueOp} {job : JobId} {bound m : Int}
  {before : List QueueEvent} {j j' : Job} {token : LeaseToken} {c : ClaimTx}

theorem QueueWorld.Waits.of_claimable (h : w.Waits job bound j) (hj : j.claimable m = true) : bound ≤ m := by
  unfold Job.claimable at hj
  simp only [Bool.or_eq_true, Bool.and_eq_true, beq_iff_eq, decide_eq_true_eq, Option.any_eq_true] at hj
  rcases hj with ⟨hs, hrun⟩ | ⟨hs, d, hd, hlt⟩
  · have hready := h.ready hs
    omega
  · obtain ⟨-, ⟨d', hd', hle⟩, -⟩ := h.leased hs
    rw [hd] at hd'
    cases hd'
    omega

/-- A lease that was not claimed earlier stays so while the clock goes on and other jobs are claimed. -/
theorem QueueWorld.Waits.mono (h : w.Waits job bound j) (hclock : w.clock ≤ w'.clock)
    (hlog : ∀ t n, j.leaseToken = some t → .claimed job t n ∈ w'.log →
      .claimed job t n ∈ w.log ∨ bound ≤ millis n) : w'.Waits job bound j := by
  refine ⟨h.ready, fun hs => ?_⟩
  obtain ⟨hpassed, hdeadline, htokens⟩ := h.leased hs
  refine ⟨hpassed.trans (Job.millis_mono hclock), hdeadline, fun t n ht hn => ?_⟩
  rcases hlog t n ht hn with hn | hn
  · exact htokens t n ht hn
  · exact hn

theorem RowStep.item (h : RowStep cfg w job j j') : j'.item = j.item := by
  cases h with
  | renewed t n d hs ht hn hd => rfl
  | finished hs =>
    unfold Job.finished
    split <;> rfl

theorem RowStep.waits (h : RowStep cfg w job j j') (hj : w.Waits job bound j) (hr : j.item.isRecurring = true) :
    w.Waits job bound j' := by
  cases h with
  | renewed t n d hs ht hn hd =>
    obtain ⟨hpassed, -, htokens⟩ := hj.leased hs
    have hne : JobStatus.leased ≠ .ready := by decide
    exact ⟨fun h => absurd h hne, fun _ => ⟨hpassed, ⟨d, rfl, (htokens t n ht hn).trans hd⟩, htokens⟩⟩
  | finished hs =>
    obtain ⟨hpassed, -, -⟩ := hj.leased hs
    have hnext : millis w.clock ≤ millis (w.clock + cfg.pollInterval) :=
      Job.millis_mono (Int.le_add_of_nonneg_right cfg.pollInterval_pos.le)
    unfold Job.finished
    rw [if_pos hr]
    have hne : JobStatus.ready ≠ .leased := by decide
    exact ⟨fun _ => hpassed.trans hnext, fun h => absurd h hne⟩

/-- An allowed step that is not a claim's, seen from the row of a recurring job. -/
theorem rows_of_allowed (hop : op.isClaim = false) (hallowed : w.allows op = true) (h : w.step P cfg op = some w')
    (hj : w.db.ingestJobs.lookup job = some j) (hr : j.item.isRecurring = true) :
    ∃ j', w'.db.ingestJobs.lookup job = some j' ∧ (j' = j ∨ RowStep cfg w job j j') := by
  cases op with
  | beginClaim _ _ | stepClaim _ | abortClaim _ => cases hop
  | tick time =>
    simp only [QueueWorld.step] at h
    split at h
    · cases h
      exact ⟨j, hj, .inl rfl⟩
    · cases h
  | call lease call =>
    simp only [QueueWorld.step] at h
    split at h
    · cases h
    · cases htx : call.tx P cfg lease w.clock w.db with
      | error e =>
        rw [htx] at h
        cases h
        exact ⟨j, hj, .inl rfl⟩
      | ok r =>
        obtain ⟨u, d⟩ := r
        rw [htx] at h
        cases h
        cases hc : call.isCommit with
        | true => exact ⟨j, (WorkerCall.commits hc htx).jobs.lookup hj, .inl rfl⟩
        | false =>
          cases call with
          | retry _ _ | fail _ _ => cases hallowed
          | renew leaseUntil =>
            obtain ⟨row, hrow, hholds, -, hjobs⟩ := leaseUpdate_ok htx
            by_cases hid : job = lease.jobId
            · subst hid
              rw [hj] at hrow
              cases hrow
              unfold Job.holds at hholds
              simp only [Bool.and_eq_true, beq_iff_eq] at hholds
              obtain ⟨e, he, hpast⟩ := List.any_eq_true.1 hallowed
              cases e with
              | failed _ _ => cases hpast
              | agedOut _ _ => cases hpast
              | claimed id t n =>
                simp only [Bool.and_eq_true, beq_iff_eq, decide_eq_true_eq] at hpast
                obtain ⟨⟨rfl, rfl⟩, hn⟩ := hpast
                refine ⟨_, by rw [hjobs, Table.lookup_insert_if, if_pos rfl], .inr ?_⟩
                exact .renewed lease.token n _ hholds.1.1 hholds.1.2 he (Job.millis_mono hn)
            · exact ⟨j, by rw [hjobs, Table.lookup_insert_if, if_neg hid, hj], .inl rfl⟩
          | complete =>
            obtain ⟨row, hrow, hs, -, rfl⟩ := complete_ok htx
            by_cases hid : job = lease.jobId
            · subst hid
              rw [hj] at hrow
              cases hrow
              exact ⟨_, by rw [Db.setJob, Table.lookup_insert_if, if_pos rfl], .inr (.finished hs)⟩
            · exact ⟨j, by rw [Db.setJob, Table.lookup_insert_if, if_neg hid, hj], .inl rfl⟩
          | commitPoll _ | recordSourceSuccess _ _ _ _ | deliver _ | advanceFanout _ | publishContent _
          | cleanupContent _ _ | recordRefreshFailure _ _ | evaluateArticleRules _ _ _
          | applyRuleBatch _ _ _ _ _ _ => cases hc
  | enqueue id item =>
    simp only [QueueWorld.step] at h
    cases h
    cases htx : enqueueWorkTx id item w.clock w.db with
    | error e =>
      rw [commit_of_error htx]
      exact ⟨j, hj, .inl rfl⟩
    | ok r =>
      rw [commit_of_ok htx]
      exact ⟨j, (enqueueWorkTx_commits htx).jobs.lookup hj, .inl rfl⟩
  | reprioritize id =>
    simp only [QueueWorld.step] at h
    split at h
    · cases h
    · cases h
      have hne : job ≠ id := by
        rintro rfl
        have hall : (w.db.ingestJobs.lookup job).all (fun j =>
          j.status == .ready && j.runAtMs == 0 && initialJobRunAt j.item != 0) = true := hallowed
        rw [hj, Option.all_some] at hall
        have hzero : initialJobRunAt j.item = 0 := by
          cases hitem : j.item with
          | pollSource _ | collectWebFeed _ => rfl
          | _ =>
            rw [hitem] at hr
            cases hr
        rw [hzero] at hall
        simp at hall
      refine ⟨j, ?_, .inl rfl⟩
      unfold QueueWorld.reprioritized Table.update
      cases hrow : w.db.ingestJobs.lookup id with
      | none => exact hj
      | some row =>
        show (w.db.ingestJobs.insert id _).lookup job = some j
        rw [Table.lookup_insert_if, if_neg hne, hj]
  | other d =>
    simp only [QueueWorld.step] at h
    split at h
    · rename_i hk
      cases h
      exact ⟨j, by rw [hk.1]; exact hj, .inl rfl⟩
    · cases h

/-- A step that is not a claim's keeps a job back. -/
theorem QueueWorld.HeldBack.quiet (h : w.HeldBack job bound before) (hop : op.isClaim = false)
    (hallowed : w.allows op = true) (hstep : w.step P cfg op = some w') : w'.HeldBack job bound before := by
  have hquiet : QuietStep cfg w w' := quiet_of_step hop hstep
  have hclaimed : ∀ t n, .claimed job t n ∈ w'.log → .claimed job t n ∈ w.log := by
    intro t n hn
    rcases hquiet.log with hlog | ⟨id, t', hlog⟩
    · rwa [hlog] at hn
    · rw [hlog] at hn
      simpa using hn
  obtain ⟨j, hj, hr, hwaits⟩ := h.row
  obtain ⟨j', hj', hrow⟩ := rows_of_allowed hop hallowed hstep hj hr
  refine ⟨⟨j', hj', ?_, ?_⟩, ?_, ?_⟩
  · rcases hrow with rfl | hrow
    · exact hr
    · rw [hrow.item, hr]
  · have hwaits' : w.Waits job bound j' := by
      rcases hrow with rfl | hrow
      · exact hwaits
      · exact hrow.waits hwaits hr
    exact hwaits'.mono hquiet.clock fun t n _ hn => .inl (hclaimed t n hn)
  · rw [hquiet.claims]
    exact h.locked
  · obtain ⟨new, hnew, htimes⟩ := h.log
    rcases hquiet.log with hlog | ⟨id, t, hlog⟩
    · exact ⟨new, hlog.trans hnew, htimes⟩
    · refine ⟨.failed id t :: new, by rw [hlog, hnew]; rfl, fun t' n hn => ?_⟩
      rcases List.mem_cons.1 hn with hn | hn
      · cases hn
      · exact htimes t' n hn

/-! ## Claims -/

/-- What a statement of a claim does to the rows it has locked. -/
inductive ClaimMove (cfg : StoreConfig) (w : QueueWorld) (token : LeaseToken) (c : ClaimTx) : QueueWorld → Prop
  | go (c' : ClaimTx) (hnow : c'.now = c.now) (huntil : c'.leaseUntil = c.leaseUntil)
      (hlocked : c'.locked = c.locked ∨ ∃ id row, c'.locked = id :: c.locked ∧
        (c.view cfg w.db).ingestJobs.lookup id = some row ∧ row.claimable (millis c.now) = true) :
      ClaimMove cfg w token c (w.setClaim token c')
  | rollback : ClaimMove cfg w token c { w with claims := w.claims.erase token }
  | commit (leased : Option (JobId × Job)) (d db' : Db) (hd : d.ingestJobs = (c.view cfg w.db).ingestJobs)
      (hdb : db' = match leased with
        | some row => d.setJob row.1 (row.2.leasedBy token c.leaseUntil)
        | none => d)
      (hleased : ∀ row, leased = some row → c.phase = .lease row.1 row.2) :
      ClaimMove cfg w token c
        { w with db := db', claims := w.claims.erase token, log := c.events token leased ++ w.log }

theorem commitClaim_moves {leased : Option (JobId × Job)}
    (hleased : ∀ row, leased = some row → c.phase = .lease row.1 row.2) :
    ClaimMove cfg w token c (w.commitClaim cfg token c leased) := by
  unfold QueueWorld.commitClaim
  cases hw : c.writes cfg token w.clock leased w.db with
  | error e => exact .rollback
  | ok r =>
    obtain ⟨d, hj, -, hdb⟩ := writes_ok hw
    exact .commit leased d _ hj hdb hleased

theorem stepClaim_moves (P : Platform) : ClaimMove cfg w token c (w.stepClaim P cfg token c) := by
  unfold QueueWorld.stepClaim
  cases hphase : c.phase with
  | select =>
    simp only
    cases hsel : (c.view cfg w.db).selectClaim P (millis c.now) c.excluded cfg.perOriginConcurrency
        (w.lockedByOthers token) with
    | none => exact commitClaim_moves fun row hrow => absurd hrow (Option.some_ne_none row).symm
    | some row =>
      obtain ⟨hview, hclaimable, -⟩ := selectClaim_spec hsel
      exact .go _ rfl rfl (.inr ⟨row.1, row.2, rfl, hview, hclaimable⟩)
  | reserve id j =>
    simp only
    split <;> exact .go _ rfl rfl (.inl rfl)
  | age id j =>
    simp only
    split <;> exact .go _ rfl rfl (.inl rfl)
  | count id j =>
    simp only
    split <;> exact .go _ rfl rfl (.inl rfl)
  | busy id j =>
    simp only
    split <;> exact .go _ rfl rfl (.inl rfl)
  | lease id j =>
    refine commitClaim_moves fun row hrow => ?_
    cases hrow
    exact hphase

/-- A claim that goes on locks a job only when its time has come. -/
theorem QueueWorld.HeldBack.setClaim {c' : ClaimTx} (h : w.HeldBack job bound before) (hinv : QueueInv P cfg w)
    (hc : w.claims.lookup token = some c) (hnow : c'.now = c.now)
    (hlocked : c'.locked = c.locked ∨ ∃ id row, c'.locked = id :: c.locked ∧
      (c.view cfg w.db).ingestJobs.lookup id = some row ∧ row.claimable (millis c.now) = true) :
    (w.setClaim token c').HeldBack job bound before := by
  obtain ⟨j, hj, hr, hwaits⟩ := h.row
  refine ⟨⟨j, hj, hr, ⟨hwaits.ready, hwaits.leased⟩⟩, fun t c₁ hc₁ hmem => ?_, h.log⟩
  rw [QueueWorld.setClaim, Table.lookup_insert_if] at hc₁
  split at hc₁
  · cases hc₁
    rw [hnow]
    rcases hlocked with hsame | ⟨id, row, hcons, hview, hclaimable⟩
    · exact h.locked token c hc (hsame ▸ hmem)
    · rw [hcons] at hmem
      rcases List.mem_cons.1 hmem with rfl | hmem
      · -- the selected row is the committed one, or the claim has it already
        rcases view_cases hview with hrow | ⟨e, he, rfl, -⟩
        · rw [hj] at hrow
          cases hrow
          exact hwaits.of_claimable hclaimable
        · exact h.locked token c hc ((hinv.claim token c hc).aged e he).1
      · exact h.locked token c hc hmem
  · exact h.locked t c₁ hc₁ hmem

/-- A claim commits no row of the job before its time. -/
theorem QueueWorld.HeldBack.commit (h : w.HeldBack job bound before) (hinv : QueueInv P cfg w)
    (hahead : w.LeasesAhead) (hc : w.claims.lookup token = some c) {leased : Option (JobId × Job)} {d db' : Db}
    (hd : d.ingestJobs = (c.view cfg w.db).ingestJobs)
    (hdb : db' = match leased with
      | some row => d.setJob row.1 (row.2.leasedBy token c.leaseUntil)
      | none => d)
    (hleased : ∀ row, leased = some row → c.phase = .lease row.1 row.2) :
    { w with db := db', claims := w.claims.erase token, log := c.events token leased ++ w.log : QueueWorld }.HeldBack
      job bound before := by
  have hok := hinv.claim token c hc
  obtain ⟨j, hj, hr, hwaits⟩ := h.row
  have hpassed : bound ≤ millis c.now → bound ≤ millis w.clock := fun hle => hle.trans (Job.millis_mono hok.now_le)
  -- only this claim's events are new, and none of them has an old token
  have hevents : ∀ t n, .claimed job t n ∈ c.events token leased →
      (∃ row, leased = some (job, row)) ∧ t = token ∧ n = c.now := by
    intro t n hn
    unfold ClaimTx.events at hn
    rcases List.mem_append.1 hn with hn | hn
    · obtain ⟨row, hrow, he⟩ := Option.map_eq_some_iff.1 (Option.mem_toList.1 hn)
      cases he
      exact ⟨⟨row.2, hrow⟩, rfl, rfl⟩
    · obtain ⟨row, -, he⟩ := List.mem_map.1 hn
      cases he
  have hlockedRow : ∀ {row}, leased = some (job, row) → bound ≤ millis c.now := by
    intro row hrow
    have hphase := hleased _ hrow
    exact h.locked token c hc (hok.row job row (by rw [hphase]; rfl)).1
  have htimes : ∀ t n, .claimed job t n ∈ c.events token leased → bound ≤ millis n := by
    intro t n hn
    obtain ⟨⟨row, hrow⟩, -, rfl⟩ := hevents t n hn
    exact hlockedRow hrow
  have hrows : ∃ j', db'.ingestJobs.lookup job = some j' ∧ j'.item.isRecurring = true ∧
      { w with db := db', claims := w.claims.erase token, log := c.events token leased ++ w.log : QueueWorld }.Waits
        job bound j' := by
    have hview : ∃ v, d.ingestJobs.lookup job = some v := by
      rw [hd, view_lookup, hj]
      cases ((c.aged.reverse.find? fun e => e.1 = job).map fun e =>
        e.2.agedOut (millis (c.now + cfg.pollInterval))) with
      | none => exact ⟨j, rfl⟩
      | some v => exact ⟨v, rfl⟩
    obtain ⟨j', hj'⟩ : ∃ j', db'.ingestJobs.lookup job = some j' := by
      obtain ⟨v, hv⟩ := hview
      cases leased with
      | none => exact ⟨v, by rw [hdb]; exact hv⟩
      | some row =>
        by_cases hid : job = row.1
        · exact ⟨_, by rw [hdb]; exact (Table.lookup_insert_if ..).trans (if_pos hid)⟩
        · exact ⟨v, by rw [hdb]; exact ((Table.lookup_insert_if ..).trans (if_neg hid)).trans hv⟩
    refine ⟨j', hj', ?_⟩
    rcases commit_rows hd hdb hj' with hsame | ⟨e, he, heid, rfl⟩ | ⟨row, hrow, rfl⟩
    · rw [hj] at hsame
      cases hsame
      refine ⟨hr, hwaits.mono (le_refl _) fun t n _ hn => ?_⟩
      rcases List.mem_append.1 hn with hn | hn
      · exact .inr (htimes t n hn)
      · exact .inl hn
    · obtain ⟨hmem, row, hrow, hitem, -⟩ := hok.aged e he
      rw [heid] at hmem hrow
      rw [hj] at hrow
      cases hrow
      have hre : e.2.item.isRecurring = true := by rw [hitem, hr]
      have hnow := h.locked token c hc hmem
      have hnext : millis c.now ≤ millis (c.now + cfg.pollInterval) :=
        Job.millis_mono (Int.le_add_of_nonneg_right cfg.pollInterval_pos.le)
      refine ⟨by rw [Job.agedOut_item, hre], ⟨fun _ => ?_, fun hs => absurd hs (Job.agedOut_status _ _)⟩⟩
      unfold Job.agedOut
      rw [if_pos hre]
      exact hnow.trans hnext
    · have hnow := hlockedRow hrow
      have hphase := hleased _ hrow
      obtain ⟨-, hrowView⟩ := hok.row job row (by rw [hphase]; rfl)
      have hitem : row.item.isRecurring = true := by
        rcases view_cases hrowView with hsame | ⟨e, he, heid, rfl⟩
        · rw [hj] at hsame
          cases hsame
          exact hr
        · obtain ⟨-, row', hrow', hitem, -⟩ := hok.aged e he
          rw [heid, hj] at hrow'
          cases hrow'
          rw [Job.agedOut_item, hitem, hr]
      have hne : JobStatus.leased ≠ .ready := by decide
      refine ⟨hitem, ⟨fun hs => absurd hs hne, fun _ => ⟨hpassed hnow, ⟨_, rfl, ?_⟩, fun t n ht hn => ?_⟩⟩⟩
      · exact hnow.trans (Job.millis_mono (hahead token c hc))
      · rcases List.mem_append.1 hn with hn | hn
        · exact htimes t n hn
        · cases ht
          have hold := (hinv.logToken job token n hn).2
          rw [hc] at hold
          cases hold
  refine ⟨hrows, fun t c₁ hc₁ hmem => ?_, ?_⟩
  · rw [Table.lookup_erase_if] at hc₁
    split at hc₁
    · cases hc₁
    · exact h.locked t c₁ hc₁ hmem
  · obtain ⟨new, hnew, hold⟩ := h.log
    refine ⟨c.events token leased ++ new, ?_, fun t n hn => ?_⟩
    · show c.events token leased ++ w.log = _
      rw [hnew, List.append_assoc]
    · rcases List.mem_append.1 hn with hn | hn
      · exact htimes t n hn
      · exact hold t n hn

/-- Every allowed step keeps a job back. -/
theorem QueueWorld.HeldBack.step (h : w.HeldBack job bound before) (hinv : QueueInv P cfg w) (hahead : w.LeasesAhead)
    (hallowed : w.allows op = true) (hstep : w.step P cfg op = some w') : w'.HeldBack job bound before := by
  cases hop : op.isClaim with
  | false => exact h.quiet hop hallowed hstep
  | true =>
    obtain ⟨j, hj, hr, hwaits⟩ := h.row
    cases op with
    | tick _ | call _ _ | enqueue _ _ | reprioritize _ | other _ => cases hop
    | beginClaim t leaseUntil =>
      simp only [QueueWorld.step] at hstep
      split at hstep
      · cases hstep
      · cases hstep
        refine ⟨⟨j, hj, hr, ⟨hwaits.ready, hwaits.leased⟩⟩, fun t' c hc hmem => ?_, h.log⟩
        rw [Table.lookup_insert_if] at hc
        split at hc
        · cases hc
          exact absurd hmem List.not_mem_nil
        · exact h.locked t' c hc hmem
    | abortClaim t =>
      cases hstep
      refine ⟨⟨j, hj, hr, ⟨hwaits.ready, hwaits.leased⟩⟩, fun t' c hc hmem => ?_, h.log⟩
      rw [Table.lookup_erase_if] at hc
      split at hc
      · cases hc
      · exact h.locked t' c hc hmem
    | stepClaim t =>
      obtain ⟨c, hc, rfl⟩ := Option.map_eq_some_iff.1 hstep
      have hmove : ClaimMove cfg w t c (w.stepClaim P cfg t c) := stepClaim_moves P
      generalize w.stepClaim P cfg t c = w' at hmove
      cases hmove with
      | go c' hnow _ hlocked => exact h.setClaim hinv hc hnow hlocked
      | rollback =>
        refine ⟨⟨j, hj, hr, ⟨hwaits.ready, hwaits.leased⟩⟩, fun t' c hc hmem => ?_, h.log⟩
        rw [Table.lookup_erase_if] at hc
        split at hc
        · cases hc
        · exact h.locked t' c hc hmem
      | commit leased d db' hd hdb hleased => exact h.commit hinv hahead hc hd hdb hleased

theorem QueueWorld.LeasesAhead.step (h : w.LeasesAhead) (hallowed : w.allows op = true)
    (hstep : w.step P cfg op = some w') : w'.LeasesAhead := by
  cases hop : op.isClaim with
  | false =>
    have hclaims := (quiet_of_step hop hstep).claims
    intro t c hc
    exact h t c (hclaims ▸ hc)
  | true =>
    cases op with
    | tick _ | call _ _ | enqueue _ _ | reprioritize _ | other _ => cases hop
    | beginClaim t leaseUntil =>
      simp only [QueueWorld.step] at hstep
      split at hstep
      · cases hstep
      · cases hstep
        intro t' c hc
        rw [Table.lookup_insert_if] at hc
        split at hc
        · cases hc
          exact of_decide_eq_true hallowed
        · exact h t' c hc
    | abortClaim t =>
      cases hstep
      intro t' c hc
      rw [Table.lookup_erase_if] at hc
      split at hc
      · cases hc
      · exact h t' c hc
    | stepClaim t =>
      obtain ⟨c, hc, rfl⟩ := Option.map_eq_some_iff.1 hstep
      have hmove : ClaimMove cfg w t c (w.stepClaim P cfg t c) := stepClaim_moves P
      have herase : ∀ t' c', (w.claims.erase t).lookup t' = some c' → c'.now ≤ c'.leaseUntil := by
        intro t' c' hc'
        rw [Table.lookup_erase_if] at hc'
        split at hc'
        · cases hc'
        · exact h t' c' hc'
      generalize w.stepClaim P cfg t c = w' at hmove
      cases hmove with
      | go c' hnow huntil _ =>
        intro t' c₁ hc₁
        rw [QueueWorld.setClaim, Table.lookup_insert_if] at hc₁
        split at hc₁
        · cases hc₁
          rw [hnow, huntil]
          exact h t c hc
        · exact h t' c₁ hc₁
      | rollback => exact herase
      | commit _ _ _ _ _ _ => exact herase

end
/-! ## A failed attempt -/

section
variable {P : Platform} {cfg : StoreConfig} {policy : RetryPolicy} {w w' : RetryWorld} {q : QueueWorld} {a : Attempt}
  {f : FailedAttempt} {retryAt : DateTime} {job : JobId} {bound : Int} {before : List QueueEvent} {db' : Db} {u : Unit}

theorem FailedAttempt.Kept.mono {ms ms' : Int} (h : f.Kept cfg policy ms) (hle : ms ≤ ms') : f.Kept cfg policy ms' :=
  ⟨fun hr => (h.backoff hr).trans hle, fun hr => (h.rateLimit hr).trans hle, fun t ht => (h.retryAfter t ht).trans hle,
    fun hr => (h.nextRun hr).trans hle⟩

/-- A recurring job that can be claimed again when the failed attempt permits it. -/
structure ReadyAgain (cfg : StoreConfig) (policy : RetryPolicy) (q : QueueWorld) (a : Attempt) (row : Job) : Prop where
  status : row.status = .ready
  now_le : millis a.now ≤ row.runAtMs
  kept : ∀ stored before, FailedAttempt.Kept cfg policy ⟨a, stored, q.clock, before⟩ row.runAtMs

/-- The row of a job after its worker has given it back. -/
structure GivenBack (cfg : StoreConfig) (policy : RetryPolicy) (q : QueueWorld) (a : Attempt) (db' : Db) (row : Job) :
    Prop where
  held : ∃ row₀, q.db.ingestJobs.lookup a.lease.jobId = some row₀ ∧ row₀.status = .leased ∧
    row₀.leaseToken = some a.lease.token ∧ row.item = row₀.item
  jobs : db'.ingestJobs = q.db.ingestJobs.insert a.lease.jobId row
  ready : row.item.isRecurring = true → ReadyAgain cfg policy q a row

/-- The row of a recurring job after its last attempt. -/
theorem exhausted_ready {row : Job} (hretry : policy.retryAt P a = some retryAt) (hnow : a.now ≤ a.failedAt)
    (hclock : a.failedAt ≤ q.clock) (hexhausted : policy.exhausted a = true) (hr : row.item.isRecurring = true) :
    ReadyAgain cfg policy q a (row.afterUpdate cfg q.clock .failed none
      ((if a.error.rateLimited then some retryAt else a.error.notBefore).map millis) (some a.diagnostic)) := by
  obtain ⟨hbackoff, -, hserver, hlimited⟩ := RetryPolicy.retryAt_ge hretry
  have hnext : millis a.now ≤ millis (q.clock + cfg.pollInterval) :=
    Job.millis_mono ((hnow.trans hclock).trans (Int.le_add_of_nonneg_right cfg.pollInterval_pos.le))
  unfold Job.afterUpdate
  rw [if_pos ⟨rfl, hr⟩]
  -- a rate limit demands the computed time; another failure the server's, if it gave one
  cases hrate : a.error.rateLimited with
  | true =>
    rw [if_pos rfl]
    refine ⟨rfl, hnext.trans (le_max_left ..), fun stored before => ⟨fun _ => ?_, fun h => ?_, fun t ht => ?_, fun _ => ?_⟩⟩
    · exact (Job.millis_mono hbackoff).trans (le_max_right ..)
    · exact (Job.millis_mono (hlimited h)).trans (le_max_right ..)
    · exact (Job.millis_mono (hserver t ht)).trans (le_max_right ..)
    · exact le_max_left ..
  | false =>
    rw [if_neg Bool.false_ne_true]
    have hnoBackoff : ¬(policy.exhausted a = false ∨ a.error.rateLimited = true) := by simp [hexhausted, hrate]
    have hnoLimit : ¬a.error.rateLimited = true := by simp [hrate]
    cases hserved : a.error.notBefore with
    | none =>
      refine ⟨rfl, hnext, fun stored before => ⟨fun h => absurd h hnoBackoff, fun h => absurd h hnoLimit, ?_, ?_⟩⟩
      · intro t ht
        rw [hserved] at ht
        cases ht
      · exact fun _ => le_refl _
    | some t =>
      refine ⟨rfl, hnext.trans (le_max_left ..), fun stored before =>
        ⟨fun h => absurd h hnoBackoff, fun h => absurd h hnoLimit, ?_, ?_⟩⟩
      · intro t' ht'
        rw [hserved] at ht'
        cases ht'
        exact le_max_right ..
      · exact fun _ => le_max_left ..

theorem giveBack_ok (hretry : policy.retryAt P a = some retryAt) (hnow : a.now ≤ a.failedAt)
    (hclock : a.failedAt ≤ q.clock) (h : (policy.giveBack a retryAt).tx P cfg a.lease q.clock q.db = .ok (u, db')) :
    ∃ row, GivenBack cfg policy q a db' row := by
  obtain ⟨hbackoff, hge, hserver, hlimited⟩ := RetryPolicy.retryAt_ge hretry
  have hholds : ∀ {row : Job}, row.holds a.lease.token (sqlMillis q.clock) = true →
      row.status = .leased ∧ row.leaseToken = some a.lease.token := by
    intro row hrow
    unfold Job.holds at hrow
    simp only [Bool.and_eq_true, beq_iff_eq] at hrow
    exact hrow.1
  unfold RetryPolicy.giveBack at h
  cases hexhausted : policy.exhausted a with
  | false =>
    rw [hexhausted, if_neg Bool.false_ne_true] at h
    obtain ⟨row, hrow, hheld, -, hjobs⟩ := leaseUpdate_ok h
    obtain ⟨hstatus, htoken⟩ := hholds hheld
    have hupdate : row.afterUpdate cfg q.clock .ready none (some (millis retryAt)) (some a.diagnostic) =
        row.leaseUpdated .ready none (some (millis retryAt)) (some a.diagnostic) := by
      unfold Job.afterUpdate
      rw [if_neg (by simp)]
    rw [hupdate] at hjobs
    refine ⟨row.leaseUpdated .ready none (some (millis retryAt)) (some a.diagnostic),
      ⟨row, hrow, hstatus, htoken, rfl⟩, hjobs, fun _ => ⟨rfl, Job.millis_mono hge, fun stored before => ?_⟩⟩
    refine ⟨fun _ => Job.millis_mono hbackoff, fun hr => Job.millis_mono (hlimited hr), fun t ht =>
      Job.millis_mono (hserver t ht), fun he => ?_⟩
    rw [hexhausted] at he
    cases he
  | true =>
    rw [hexhausted, if_pos rfl] at h
    obtain ⟨row, hrow, hheld, -, hjobs⟩ := leaseUpdate_ok h
    obtain ⟨hstatus, htoken⟩ := hholds hheld
    have hitem : ∀ runAt, (row.afterUpdate cfg q.clock .failed none runAt (some a.diagnostic)).item = row.item := by
      intro runAt
      unfold Job.afterUpdate
      dsimp only
      split <;> rfl
    refine ⟨_, ⟨row, hrow, hstatus, htoken, hitem _⟩, hjobs, fun hr => ?_⟩
    rw [hitem] at hr
    exact exhausted_ready hretry hnow hclock hexhausted hr

/-- A call that gives the job back writes nothing else that a claim reads. -/
structure GiveBackStep (cfg : StoreConfig) (policy : RetryPolicy) (q : QueueWorld) (a : Attempt) (q' : QueueWorld) :
    Prop where
  row : ∃ row, GivenBack cfg policy q a q'.db row
  unlocked : q.isLocked a.lease.jobId = false
  clock : q'.clock = q.clock
  claims : q'.claims = q.claims
  log : q'.log = q.log ∨ q'.log = .failed a.lease.jobId a.lease.token :: q.log

theorem GiveBackStep.claimed {q' : QueueWorld} (h : GiveBackStep cfg policy q a q') {t : LeaseToken} {n : DateTime}
    (hn : .claimed job t n ∈ q'.log) : .claimed job t n ∈ q.log := by
  rcases h.log with hlog | hlog
  · rwa [hlog] at hn
  · rw [hlog] at hn
    simpa using hn

/-- Jobs that were held back before an attempt fails stay so. -/
theorem QueueWorld.HeldBack.giveBack {q' : QueueWorld} (h : q.HeldBack job bound before)
    (hstep : GiveBackStep cfg policy q a q') (hclaimed : .claimed a.lease.jobId a.lease.token a.now ∈ q.log) :
    q'.HeldBack job bound before := by
  obtain ⟨row, hgiven⟩ := hstep.row
  obtain ⟨j, hj, hr, hwaits⟩ := h.row
  refine ⟨?_, ?_, ?_⟩
  · by_cases hid : job = a.lease.jobId
    · subst hid
      obtain ⟨row₀, hrow₀, hleased, htoken, hitem⟩ := hgiven.held
      rw [hj] at hrow₀
      cases hrow₀
      -- the claim of this attempt was not earlier than the bound, and the new time is not before the claim
      have hnow : bound ≤ millis a.now := (hwaits.leased hleased).2.2 a.lease.token a.now htoken hclaimed
      have hready := hgiven.ready (by rw [hitem, hr])
      refine ⟨row, by rw [hgiven.jobs, Table.lookup_insert_if, if_pos rfl], by rw [hitem, hr],
        fun _ => hnow.trans hready.now_le, fun hs => ?_⟩
      rw [hready.status] at hs
      cases hs
    · refine ⟨j, by rw [hgiven.jobs, Table.lookup_insert_if, if_neg hid, hj], hr, hwaits.mono ?_ ?_⟩
      · rw [hstep.clock]
      · exact fun t n _ hn => .inl (hstep.claimed hn)
  · rw [hstep.claims]
    exact h.locked
  · obtain ⟨new, hnew, htimes⟩ := h.log
    rcases hstep.log with hlog | hlog
    · exact ⟨new, hlog.trans hnew, htimes⟩
    · refine ⟨.failed a.lease.jobId a.lease.token :: new, by rw [hlog, hnew]; rfl, fun t n hn => ?_⟩
      rcases List.mem_cons.1 hn with hn | hn
      · cases hn
      · exact htimes t n hn

/-- A job that has just been given back is held back until the time on its row. -/
theorem GiveBackStep.heldBack {q' : QueueWorld} (h : GiveBackStep cfg policy q a q') {row : Job}
    (hgiven : GivenBack cfg policy q a q'.db row) (hr : row.item.isRecurring = true) :
    q'.HeldBack a.lease.jobId row.runAtMs q'.log := by
  refine ⟨⟨row, by rw [hgiven.jobs, Table.lookup_insert_if, if_pos rfl], hr, fun _ => le_refl _, fun hs => ?_⟩,
    fun t c hc hmem => ?_, [], rfl, fun t n hn => absurd hn List.not_mem_nil⟩
  · rw [(hgiven.ready hr).status] at hs
    cases hs
  · rw [h.claims] at hc
    have hlocked := isLocked_iff.2 ⟨t, c, hc, hmem⟩
    rw [h.unlocked] at hlocked
    cases hlocked

/-! ## Runs -/

/-- The invariant of a run: every job whose failure was stored is held back until a time that the failure demands. -/
structure RetryInv (P : Platform) (cfg : StoreConfig) (policy : RetryPolicy) (w : RetryWorld) : Prop where
  queue : QueueInv P cfg w.queue
  ahead : w.queue.LeasesAhead
  held : ∀ f ∈ w.failures, f.stored = true → f.attempt.lease.item.isRecurring = true →
    ∃ bound, w.queue.HeldBack f.job bound f.before ∧ f.Kept cfg policy bound

/-- The store's answer to the call that gives the job back. -/
theorem giveBack_cases {call : WorkerCall} (hcall : call = policy.giveBack a retryAt) {q' : QueueWorld}
    (hretry : policy.retryAt P a = some retryAt) (hnow : a.now ≤ a.failedAt) (hclock : a.failedAt ≤ q.clock)
    (hstep : q.step P cfg (.call a.lease call) = some q') :
    ((call.tx P cfg a.lease q.clock q.db).isOk = false ∧ q' = q) ∨ GiveBackStep cfg policy q a q' := by
  simp only [QueueWorld.step] at hstep
  split at hstep
  · cases hstep
  · rename_i hlocked
    cases htx : call.tx P cfg a.lease q.clock q.db with
    | error e =>
      rw [htx] at hstep
      cases hstep
      exact .inl ⟨rfl, rfl⟩
    | ok r =>
      obtain ⟨u, d⟩ := r
      rw [htx] at hstep
      cases hstep
      have hgiven := giveBack_ok hretry hnow hclock (hcall ▸ htx)
      refine .inr ⟨hgiven, Bool.eq_false_iff.2 hlocked, rfl, rfl, ?_⟩
      dsimp only
      split
      · exact .inr rfl
      · exact .inl rfl

theorem RetryInv.fails (h : RetryInv P cfg policy w) (hfails : w.Fails a)
    (hstep : w.step P cfg policy (.fails a) = some w') : RetryInv P cfg policy w' := by
  obtain ⟨hclaimed, hitem, hnow, hclock⟩ := hfails
  simp only [RetryWorld.step, if_pos (show w.Fails a from ⟨hclaimed, hitem, hnow, hclock⟩)] at hstep
  cases hretry : policy.retryAt P a with
  | none =>
    rw [hretry] at hstep
    cases hstep
    refine ⟨h.queue, h.ahead, fun f hf hstored hr => ?_⟩
    rcases List.mem_cons.1 hf with rfl | hf
    · cases hstored
    · exact h.held f hf hstored hr
  | some retryAt =>
    rw [hretry] at hstep
    obtain ⟨q', hq', rfl⟩ := Option.map_eq_some_iff.1 hstep
    have hqueue : QueueInv P cfg q' := h.queue.step hq'
    have hcases := giveBack_cases rfl hretry hnow hclock hq'
    have hahead : q'.LeasesAhead := by
      rcases hcases with ⟨-, rfl⟩ | hgive
      · exact h.ahead
      · exact fun t c hc => h.ahead t c (hgive.claims ▸ hc)
    refine ⟨hqueue, hahead, fun f hf hstored hr => ?_⟩
    rcases List.mem_cons.1 hf with rfl | hf
    · rcases hcases with ⟨hrefused, -⟩ | hgive
      · rw [hrefused] at hstored
        cases hstored
      · obtain ⟨row, hgiven⟩ := hgive.row
        obtain ⟨row₀, hrow₀, -, -, hrowItem⟩ := hgiven.held
        have hrecurring : row.item.isRecurring = true := by
          rw [hrow₀] at hitem
          have hsame : row₀.item = a.lease.item := Option.some.inj hitem
          rw [hrowItem, hsame]
          exact hr
        exact ⟨row.runAtMs, hgive.heldBack hgiven hrecurring, (hgiven.ready hrecurring).kept _ _⟩
    · obtain ⟨bound, hheld, hkept⟩ := h.held f hf hstored hr
      refine ⟨bound, ?_, hkept⟩
      rcases hcases with ⟨-, rfl⟩ | hgive
      · exact hheld
      · exact hheld.giveBack hgive hclaimed

theorem RetryInv.step {op : RetryOp} (h : RetryInv P cfg policy w) (hstep : w.step P cfg policy op = some w') :
    RetryInv P cfg policy w' := by
  cases op with
  | queue op =>
    simp only [RetryWorld.step] at hstep
    split at hstep
    · rename_i hallowed
      obtain ⟨q', hq', rfl⟩ := Option.map_eq_some_iff.1 hstep
      refine ⟨h.queue.step hq', h.ahead.step hallowed hq', fun f hf hstored hr => ?_⟩
      obtain ⟨bound, hheld, hkept⟩ := h.held f hf hstored hr
      exact ⟨bound, hheld.step h.queue h.ahead hallowed hq', hkept⟩
    · cases hstep
  | fails a =>
    by_cases hfails : w.Fails a
    · exact h.fails hfails hstep
    · simp only [RetryWorld.step, if_neg hfails] at hstep
      cases hstep

theorem RetryWorld.Start.retryInv (h : w.Start) : RetryInv P cfg policy w := by
  refine ⟨h.queue.inv, fun t c hc => ?_, fun f hf => ?_⟩
  · rw [h.queue.claims] at hc
    cases hc
  · rw [h.failures] at hf
    cases hf

/-- What a claim after a stored failure respects. -/
theorem RetryInv.kept (h : RetryInv P cfg policy w) (hf : f ∈ w.failures) (hstored : f.stored = true)
    (hr : f.attempt.lease.item.isRecurring = true) {n : DateTime} (hn : w.ClaimedAfter f f.job n) :
    f.Kept cfg policy (millis n) := by
  obtain ⟨bound, hheld, hkept⟩ := h.held f hf hstored hr
  obtain ⟨new, hnew, htimes⟩ := hheld.log
  obtain ⟨new', hnew', token, hmem⟩ := hn
  obtain rfl := List.append_cancel_right (hnew'.symm.trans hnew)
  exact hkept.mono (htimes token n hmem)

/-- A stored failure holds its job back in every run, and there is a time for every retry. -/
theorem retry_times (policy : RetryPolicy) (hstart : w.Start) {ops : List RetryOp}
    (hrun : run (RetryWorld.step P cfg policy) w ops = some w') :
    w'.RetriesKept cfg policy ∧ ∀ a, policy.InRange a → (policy.retryAt P a).isSome = true := by
  have hinv : RetryInv P cfg policy w' := run_inv' (RetryInv P cfg policy) (fun _ _ _ hi hs => hi.step hs)
    hstart.retryInv hrun
  refine ⟨⟨fun f hf hstored hr n hn => hinv.kept hf hstored hr hn, ?_⟩, fun a ha => RetryPolicy.retryAt_isSome ha⟩
  intro f hf hstored hr honly t ht job n hcollects hn
  obtain rfl := honly job hcollects
  exact (hinv.kept hf hstored hr hn).retryAfter t ht

end

namespace Sample

theorem thirtySeconds_nonneg : (0 : Int) ≤ 30000000000 := by decide

theorem noJitter_nonneg : (0 : Int) ≤ 0 := Int.le_refl 0

def retryPolicy : RetryPolicy :=
  { retryAttempts := 2, rateLimitDelay := 30000000000, retryJitter := 0
    retryAttempts_pos := Nat.two_pos, rateLimitDelay_nonneg := thirtySeconds_nonneg, retryJitter_nonneg := noJitter_nonneg }

def retryWorld : RetryWorld := { queue, failures := [] }

theorem retryWorld_start : retryWorld.Start := ⟨queue_start, rfl⟩

/-- The first attempt of a job: the source asks to be left alone for 100 seconds. -/
def askedToWait (job : JobId) : Attempt :=
  { lease := { jobId := job, item := .pollSource ⟨1⟩, token := ⟨1⟩, deadline := 10000000000, attempt := 0 }
    now := 0, failedAt := 0, error := .fetch (.retryAfter 429 100000000000), diagnostic := "HTTP 429" }

/-- The job is claimed again when its time has come. -/
def waiting : List RetryOp :=
  .queue (.enqueue (.random 1) (.pollSource ⟨1⟩)) :: (claim 1 10000000000).map .queue ++
    .fails (askedToWait (.random 1)) :: .queue (.tick 100000000000) :: (claim 2 110000000000).map .queue

def ranRetries (cfg : StoreConfig) (ops : List RetryOp) : RetryWorld :=
  (run (RetryWorld.step platform cfg retryPolicy) retryWorld ops).getD retryWorld

end Sample

theorem retry_times_waiting :
    (Sample.ranRetries Sample.storeConfig Sample.waiting).RetriesKept Sample.storeConfig Sample.retryPolicy ∧
    QueueEvent.claimed (.random 1) ⟨2⟩ 100000000000 ∈ (Sample.ranRetries Sample.storeConfig Sample.waiting).queue.log ∧
    (Sample.ranRetries Sample.storeConfig Sample.waiting).failures.map (·.stored) = [true] := by
  have hsome : (run (RetryWorld.step Sample.platform Sample.storeConfig Sample.retryPolicy) Sample.retryWorld
      Sample.waiting).isSome := by decide +kernel
  have hrun := run_getD hsome Sample.retryWorld
  exact ⟨(retry_times Sample.retryPolicy Sample.retryWorld_start hrun).1, by decide +kernel, by decide +kernel⟩

namespace Sample

/-- A job for another subscription to the same source comes before that time. -/
def notWaiting : List RetryOp :=
  .queue (.enqueue (.random 1) (.pollSource ⟨1⟩)) :: (claim 1 10000000000).map .queue ++
    .fails (askedToWait (.random 1)) :: .queue (.enqueue (.random 2) (.pollSource ⟨1⟩)) ::
    .queue (.tick 1000000000) :: (claim 2 11000000000).map .queue

theorem everySecond_pos : (0 : Int) < 1000000000 := by decide

/-- Sources are collected every second. -/
def busyConfig : StoreConfig := { storeConfig with pollInterval := 1000000000, pollInterval_pos := everySecond_pos }

def failsWith500 (token : Nat) (attempt : Nat) (now : DateTime) : Attempt :=
  { lease := { jobId := .random 1, item := .pollSource ⟨1⟩, token := ⟨token⟩, deadline := now + 10000000000, attempt }
    now, failedAt := now, error := .fetch (.http 500), diagnostic := "HTTP 500" }

/-- The second attempt is the last one; the next regular run comes after one second, the backoff would be two. -/
def exhausting : List RetryOp :=
  .queue (.enqueue (.random 1) (.pollSource ⟨1⟩)) :: (claim 1 10000000000).map .queue ++
    .fails (failsWith500 1 0 0) :: .queue (.tick 1000000000) :: (claim 2 11000000000).map .queue ++
    .fails (failsWith500 2 1 1000000000) :: .queue (.tick 2000000000) :: (claim 3 12000000000).map .queue

end Sample

/-- Another job of the source is claimed before the server's time, and a job whose attempts are exhausted before the
backoff. -/
theorem retries_not_honoured :
    (∃ w, run (RetryWorld.step Sample.platform Sample.storeConfig Sample.retryPolicy) Sample.retryWorld
      Sample.notWaiting = some w ∧ ¬ w.RetriesHonoured Sample.retryPolicy) ∧
    ∃ w, run (RetryWorld.step Sample.platform Sample.busyConfig Sample.retryPolicy) Sample.retryWorld
      Sample.exhausting = some w ∧ ¬ w.RetriesHonoured Sample.retryPolicy := by
  have hsome : (run (RetryWorld.step Sample.platform Sample.storeConfig Sample.retryPolicy) Sample.retryWorld
      Sample.notWaiting).isSome := by decide +kernel
  have hsome' : (run (RetryWorld.step Sample.platform Sample.busyConfig Sample.retryPolicy) Sample.retryWorld
      Sample.exhausting).isSome := by decide +kernel
  refine ⟨⟨Sample.ranRetries Sample.storeConfig Sample.notWaiting, run_getD hsome Sample.retryWorld, fun h => ?_⟩,
    Sample.ranRetries Sample.busyConfig Sample.exhausting, run_getD hsome' Sample.retryWorld, fun h => ?_⟩
  · have hjob : ((Sample.ranRetries Sample.storeConfig Sample.notWaiting).queue.db.ingestJobs.lookup (.random 2)).any
        (fun j => j.item.isRecurring && j.item.collectSource == some ⟨1⟩) = true := by decide +kernel
    obtain ⟨j, hj, hitem⟩ := Option.any_eq_true _ _ |>.1 hjob
    simp only [Bool.and_eq_true, beq_iff_eq] at hitem
    have hearly := h.retryAfter ⟨Sample.askedToWait (.random 1), true, 0, [.claimed (.random 1) ⟨1⟩ 0]⟩
      (by decide +kernel) rfl 100000000000 rfl (.random 2) 1000000000 ⟨j, hj, hitem.1, hitem.2⟩
      ⟨[.claimed (.random 2) ⟨2⟩ 1000000000], by decide +kernel, ⟨2⟩, List.mem_singleton_self _⟩
    exact absurd hearly (by decide)
  · have hearly := h.backoff ⟨Sample.failsWith500 2 1 1000000000, true, 1000000000,
        [.failed (.random 1) ⟨2⟩, .claimed (.random 1) ⟨2⟩ 1000000000, .claimed (.random 1) ⟨1⟩ 0]⟩
      (by decide +kernel) rfl 2000000000
      ⟨[.claimed (.random 1) ⟨3⟩ 2000000000], by decide +kernel, ⟨3⟩, List.mem_singleton_self _⟩
    exact absurd hearly (by decide)

end Inoreader
