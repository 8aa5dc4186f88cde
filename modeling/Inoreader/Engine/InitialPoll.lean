import Mathlib.Data.List.Forall2
import Inoreader.Engine.Poll
import Inoreader.Library.Run

/-!
# The initial poll of a source

The runs on one source exclude each other, so the system is a sequence of runs with steps of the rest of
the program in between. `CollectEffect` says what a run can do; the invariant ties the commits made so
far and the backlog to the first answer that was committed.
-/

namespace Inoreader
open Lib

/-- The records that an answer about unknown items becomes. -/
def Response.Is (P : Platform) (source : SourceId) : Response → List PolledRecord → Prop
  | .parsed values, records => List.Forall₂
      (fun v p => p.action = .deliver ∧ SourceRecord.fromParsed P.parseUrl p.record.id source v = .ok p.record) values records
  | .collected values, records => records = values.map fun record => { record, action := .deliver }

/-- No continuation job exists for the record. -/
def Db.NoBackfillJob (db : Db) (r : SourceRecordId) : Prop :=
  ∀ n, db.ingestJobs.lookup (.record .backfill r n) = none

/-- Random ids are drawn once: those of a run differ and no job is known for them. -/
structure Remote.Fresh (remote : Remote) (db : Db) : Prop where
  injective : Function.Injective remote.newRecord
  newRecord : ∀ n, db.NoBackfillJob (remote.newRecord n)
  collected : ∀ source values, remote.collect source = .ok values →
    (values.map (·.id)).Nodup ∧ ∀ v ∈ values, db.NoBackfillJob v.id

inductive CollectOp
  | run (lease : LeasedWork) (remote : Remote)
  | other (db : Db)

def JobId.isBackfillOf (r : SourceRecordId) : JobId → Bool
  | .record .backfill r' _ => decide (r' = r)
  | _ => false

/-- The rest of the program leaves the state of the source alone and makes no continuation job for a
record that the source has deferred. -/
def KeepsPolls (source : SourceId) (db db' : Db) : Prop :=
  Table.AgreeOn (fun k => k.1 = source) db.pollBacklog db'.pollBacklog ∧
  db'.pollState.lookup source = db.pollState.lookup source ∧
  Table.AgreeOn (fun k => k.1 = source) db.sourceRecordIdentity db'.sourceRecordIdentity ∧
  ∀ row ∈ db.pollBacklog.rows, row.1.1 = source → ∀ job ∈ db'.ingestJobs.rows, job.1.isBackfillOf row.1.2 = true →
    (db.ingestJobs.lookup job.1).isSome = true

instance (source : SourceId) (db db' : Db) : Decidable (KeepsPolls source db db') :=
  inferInstanceAs (Decidable (_ ∧ _ ∧ _ ∧ _))

section
variable (P : Platform) (parsers : Collectors) (limits : IngestLimits) (source : SourceId)

def Collector.step (w : Collector) : CollectOp → Option Collector
  | .run lease remote =>
    if lease.item.collectSource = some source then some (handleCollection P parsers limits lease remote w).2 else none
  | .other db => if KeepsPolls source w.db db then some { w with db } else none

def FreshRun (w : Collector) : CollectOp → Prop
  | .run _ remote => remote.Fresh w.db
  | .other _ => True

/-- Nothing is known about the source and nothing was asked. -/
structure Collector.Untouched (w : Collector) : Prop where
  commits : w.commits = []
  pollState : w.db.hasCommittedPoll source = false
  backlog : BacklogIs w.db source []
  records : ∀ u, w.db.recordByUpstream source u = none

end

/-! ## What a run does -/

section
variable {P : Platform} {parsers : Collectors} {limits : IngestLimits} {source : SourceId} {w w' : Collector}

/-- The commit of an answer, seen from the state before it. -/
structure Answered (P : Platform) (source : SourceId) (db : Db) (remote : Remote) (response : Response)
    (c : PollCommit) : Prop where
  sourceId : c.sourceId = source
  later : db.hasCommittedPoll source = true → c.remainder = [] ∧ c.incomplete = false
  first : db.hasCommittedPoll source = false → (∀ u, db.recordByUpstream source u = none) →
    response.Is P source (c.records ++ c.remainder) ∧ (c.incomplete = true ↔ c.remainder ≠ []) ∧
      (remote.Fresh db → ((c.records ++ c.remainder).map (·.record.id)).Nodup ∧
        ∀ p ∈ c.records ++ c.remainder, db.NoBackfillJob p.record.id)

/-- The tables that `Collector.Untouched` speaks of. -/
def Db.pollTables (db : Db) : Table (SourceId × SourceRecordId) BacklogRow × Table SourceId SourcePollState ×
    Table (SourceId × String) IdentityRow × Table JobId Job :=
  (db.pollBacklog, db.pollState, db.sourceRecordIdentity, db.ingestJobs)

/-- What a run on the source can do. -/
inductive CollectEffect (P : Platform) (limits : IngestLimits) (source : SourceId) (remote : Remote)
    (w w' : Collector) : Prop
  | idle (h : w' = w)
  | drained (c : PollCommit) (lease : LeasedWork) (clock : DateTime)
      (hp : pendingPoll source limits.fanoutBatch w.db = .ok (some c, w.db))
      (hc : commitPoll lease clock c w.db = .ok ((), w'.db)) (hcommits : w'.commits = w.commits ++ [(none, c)])
      (hf : w'.fetches = w.fetches)
  | asked (hp : pendingPoll source limits.fanoutBatch w.db = .ok (none, w.db))
      (hk : w'.db.pollTables = w.db.pollTables) (hcommits : w'.commits = w.commits)
  | answered (response : Response) (c : PollCommit) (lease : LeasedWork) (clock : DateTime)
      (hp : pendingPoll source limits.fanoutBatch w.db = .ok (none, w.db))
      (hc : commitPoll lease clock c w.db = .ok ((), w'.db))
      (hcommits : w'.commits = w.commits ++ [(some response, c)]) (ha : Answered P source w.db remote response c)

theorem store_reads {α : Type} {m : StoreTx α} (hm : Tx.Keeps (fun db => db) m) (w : Collector) :
    (Collector.store m w).2 = w := by
  unfold Collector.store
  cases hr : m w.db with
  | error e => rfl
  | ok r =>
    obtain ⟨a, db⟩ := r
    have hdb : db = w.db := hm _ _ _ hr
    rw [hdb]

theorem store_ok {α : Type} {m : StoreTx α} {a : α} (h : Collector.store m w = (.ok a, w')) :
    m w.db = .ok (a, w'.db) ∧ w'.commits = w.commits ∧ w'.fetches = w.fetches := by
  unfold Collector.store at h
  cases hr : m w.db with
  | error e =>
    rw [hr] at h
    cases h
  | ok r =>
    rw [hr] at h
    cases h
    exact ⟨rfl, rfl, rfl⟩

theorem activeDeliveryCount_reads (source : SourceId) : Tx.Keeps (fun db => db) (activeDeliveryCount source) := by
  refine Tx.keeps_bind Tx.keeps_get fun db => Tx.keeps_loop (fun _ id => ?_) _ _
  split
  · exact Tx.keeps_pure _
  · exact Tx.keeps_bind (Tx.keeps_orThrow _ _) fun _ => Tx.keeps_pure _

theorem pendingPoll_reads (source : SourceId) (limit : Nat) : Tx.Keeps (fun db => db) (pendingPoll source limit) := by
  refine Tx.keeps_bind (Tx.keeps_require _ _) fun _ => Tx.keeps_bind (Tx.keeps_require _ _) fun _ => ?_
  refine Tx.keeps_bind Tx.keeps_get fun db => ?_
  dsimp only
  split
  · exact Tx.keeps_pure _
  · exact Tx.keeps_bind (Tx.keeps_require _ _) fun _ => Tx.keeps_bind (Tx.keeps_require _ _) fun _ => Tx.keeps_pure _

theorem sourceById_reads (source : SourceId) : Tx.Keeps (fun db => db) (sourceById source) :=
  Tx.keeps_bind Tx.keeps_get fun _ => Tx.keeps_orThrow _ _

theorem commit_cases {response : Option Response} {lease : LeasedWork} {clock : DateTime} {c : PollCommit}
    {r : Except IngestError Unit} (h : Collector.commit response lease clock c w = (r, w')) :
    (w' = w ∧ ∃ e, r = .error e) ∨ (r = .ok () ∧ commitPoll lease clock c w.db = .ok ((), w'.db) ∧
      w'.commits = w.commits ++ [(response, c)] ∧ w'.fetches = w.fetches) := by
  unfold Collector.commit at h
  cases hr : commitPoll lease clock c w.db with
  | error e =>
    rw [hr] at h
    cases h
    exact .inl ⟨rfl, _, rfl⟩
  | ok p =>
    obtain ⟨u, db⟩ := p
    rw [hr] at h
    cases h
    exact .inr ⟨rfl, rfl, rfl, rfl⟩

theorem drainBacklog_cases {lease : LeasedWork} {remote : Remote} {r : Except IngestError Bool}
    (h : drainBacklog limits lease source remote w = (r, w')) :
    (CollectEffect P limits source remote w w' ∧ r ≠ .ok false) ∨
      (w' = w ∧ r = .ok false ∧ pendingPoll source limits.fanoutBatch w.db = .ok (none, w.db)) := by
  unfold drainBacklog at h
  rcases Proc.bind_of_reads (store_reads (activeDeliveryCount_reads source) w) h with ⟨rfl, e, rfl⟩ | ⟨active, -, h⟩
  · exact .inl ⟨.idle rfl, by simp⟩
  · split at h
    · obtain ⟨rfl, rfl⟩ := Proc.pure_eq.1 h
      exact .inl ⟨.idle rfl, by simp⟩
    · rcases Proc.bind_of_reads (store_reads (pendingPoll_reads source _) w) h with ⟨rfl, e, rfl⟩ | ⟨pending, hp, h⟩
      · exact .inl ⟨.idle rfl, by simp⟩
      · have hp := (store_ok hp).1
        cases pending with
        | none =>
          obtain ⟨rfl, rfl⟩ := Proc.pure_eq.1 h
          exact .inr ⟨rfl, rfl, hp⟩
        | some c =>
          rcases Proc.bind_eq.1 h with ⟨e, hc, rfl⟩ | ⟨_, w₁, hc, h⟩
          · rcases commit_cases hc with ⟨rfl, -⟩ | ⟨hr, -⟩
            · exact .inl ⟨.idle rfl, by simp⟩
            · cases hr
          · obtain ⟨rfl, rfl⟩ := Proc.pure_eq.1 h
            rcases commit_cases hc with ⟨-, e, he⟩ | ⟨-, hcommit, hcommits, hf⟩
            · cases he
            · exact .inl ⟨.drained c lease remote.clock hp hcommit hcommits hf, by simp⟩

/-- A run drains the backlog, or it goes on with `ask` from the same state. -/
theorem drainBacklog_bind {lease : LeasedWork} {remote : Remote} {ask : EngineProc Unit} {r : Except IngestError Unit}
    (hask : pendingPoll source limits.fanoutBatch w.db = .ok (none, w.db) → ask w = (r, w') →
      CollectEffect P limits source remote w w')
    (h : (do if ← drainBacklog limits lease source remote then pure () else ask : EngineProc Unit) w = (r, w')) :
    CollectEffect P limits source remote w w' := by
  rcases Proc.bind_eq.1 h with ⟨e, he, rfl⟩ | ⟨done, w₁, hd, h⟩
  · rcases drainBacklog_cases (P := P) he with ⟨heff, -⟩ | ⟨-, hr, -⟩
    · exact heff
    · cases hr
  · rcases drainBacklog_cases (P := P) hd with ⟨heff, hne⟩ | ⟨rfl, hr, hp⟩
    · cases done with
      | true =>
        obtain ⟨-, rfl⟩ := Proc.pure_eq.1 h
        exact heff
      | false => exact absurd rfl hne
    · cases hr
      exact hask hp h

/-- The loop over an answer about unknown items makes one new record of each item, in order. -/
theorem polledRecords_unknown {α : Type} {upstream : α → String} {duplicate : String} {known : String → Option SourceRecord}
    {revised : SourceRecord → α → Except ModelError RecordRevision} {created : Nat → α → Except ModelError SourceRecord}
    {seen : List String} {n : Nat} {values : List α} {records : List PolledRecord} (hknown : ∀ u, known u = none)
    (h : polledRecords upstream duplicate known revised created seen n values = .ok records) :
    List.Forall₂ (fun e p => p.action = .deliver ∧ created e.2 e.1 = .ok p.record) (values.zipIdx n) records := by
  induction values generalizing seen n records with
  | nil =>
    cases h
    exact .nil
  | cons v values ih =>
    rw [polledRecords] at h
    simp only [hknown] at h
    split at h
    · cases h
    · cases hv : created n v with
      | error e =>
        simp only [hv, Except.parse, Except.mapError, Except.map] at h
        cases h
      | ok record =>
        simp only [hv, Except.parse, Except.mapError, Except.map] at h
        cases hrest : polledRecords upstream duplicate known revised created (upstream v :: seen) (n + 1) values with
        | error e =>
          rw [hrest] at h
          cases h
        | ok rest =>
          rw [hrest] at h
          cases h
          rw [List.zipIdx_cons]
          exact .cons ⟨rfl, hv⟩ (ih hrest)

section
variable {remote : Remote} {revision size : Nat} {records : List PolledRecord} {url : Url} {validators : CacheValidators}

theorem collectedCommit_records (isInitial : Bool) :
    (collectedCommit limits source revision remote isInitial size records url validators).records ++
      (collectedCommit limits source revision remote isInitial size records url validators).remainder = records := by
  unfold collectedCommit
  dsimp only
  split
  · exact List.take_append_drop _ _
  · exact List.append_nil _

theorem collectedCommit_later :
    (collectedCommit limits source revision remote false size records url validators).remainder = [] ∧
      (collectedCommit limits source revision remote false size records url validators).incomplete = false :=
  ⟨rfl, rfl⟩

theorem collectedCommit_first (hsize : records.length = size) :
    (collectedCommit limits source revision remote true size records url validators).incomplete = true ↔
      (collectedCommit limits source revision remote true size records url validators).remainder ≠ [] := by
  unfold collectedCommit
  dsimp only
  by_cases hcut : limits.initialFeedItems < records.length
  · have hdrop : records.drop limits.initialFeedItems ≠ [] := by
      rw [Ne, List.drop_eq_nil_iff]
      omega
    simp [← hsize, hcut, hdrop]
  · simp [← hsize, hcut]

end

/-- A commit built from an answer about whose items nothing was known. -/
theorem Answered.of_records {remote : Remote} {response : Response} {revision size : Nat} {records : List PolledRecord}
    {url : Url} {validators : CacheValidators}
    (hnew : (∀ u, w.db.recordByUpstream source u = none) → response.Is P source records ∧ records.length = size ∧
      (remote.Fresh w.db → (records.map (·.record.id)).Nodup ∧ ∀ p ∈ records, w.db.NoBackfillJob p.record.id)) :
    Answered P source w.db remote response (collectedCommit limits source revision remote
      (!w.db.hasCommittedPoll source) size records url validators) := by
  refine ⟨rfl, fun hpoll => ?_, fun hpoll hknown => ?_⟩
  · rw [hpoll]
    exact collectedCommit_later
  · obtain ⟨his, hsize, hfresh⟩ := hnew hknown
    rw [collectedCommit_records]
    refine ⟨his, ?_, hfresh⟩
    rw [hpoll]
    exact collectedCommit_first hsize

theorem require_cases {p : Prop} [Decidable p] {e : IngestError} {α : Type} {k : Unit → EngineProc α}
    {r : Except IngestError α} (h : (Proc.require p e >>= k) w = (r, w')) :
    (w' = w ∧ ∃ e, r = .error e) ∨ (p ∧ k () w = (r, w')) := by
  by_cases hp : p
  · have hreads : ((Proc.require p e : EngineProc Unit) w).2 = w := by simp [Proc.require, hp]; rfl
    rcases Proc.bind_of_reads hreads h with h | ⟨_, -, h⟩
    · exact .inl h
    · exact .inr ⟨hp, h⟩
  · simp only [Proc.require, hp, if_false] at h
    rcases Proc.bind_eq.1 h with ⟨e', he, rfl⟩ | ⟨a, w₁, ha, -⟩
    · exact .inl ⟨(Proc.throw_eq.1 he).2, e', rfl⟩
    · exact absurd (Proc.throw_eq.1 ha).1 (by simp)

/-- The state after a request. -/
def Collector.requested (w : Collector) : Collector := { w with fetches := w.fetches + 1 }

theorem CollectEffect.of_requested {remote : Remote} (hp : pendingPoll source limits.fanoutBatch w.db = .ok (none, w.db))
    (h : w' = w.requested) : CollectEffect P limits source remote w w' := by
  subst h
  exact .asked hp rfl rfl

/-- The part of a run that commits an answer. -/
theorem CollectEffect.of_commit {remote : Remote} {response : Response} {c : PollCommit} {lease : LeasedWork}
    {r : Except IngestError Unit} (hp : pendingPoll source limits.fanoutBatch w.db = .ok (none, w.db))
    (ha : Answered P source w.db remote response c)
    (h : Collector.commit (some response) lease remote.clock c w.requested = (r, w')) :
    CollectEffect P limits source remote w w' := by
  rcases commit_cases h with ⟨rfl, -⟩ | ⟨-, hc, hcommits, -⟩
  · exact .asked hp rfl rfl
  · exact .answered response c lease remote.clock hp hc hcommits ha

theorem recordSourceSuccess_pollTables (lease : LeasedWork) (now : DateTime) (source : SourceId) (atTime : DateTime)
    (incomplete : Bool) (durationMs : Nat) :
    Tx.Keeps Db.pollTables (recordSourceSuccess lease now source atTime incomplete durationMs) :=
  Tx.keeps_bind (assertLease_keeps _ _) fun _ => Tx.keeps_bind (Tx.keeps_modify fun _ => rfl) fun _ =>
    recordSubscriptionActivity_keeps (fun _ _ => rfl) _ _ _ _ _ _

theorem map_eq_of_forall₂ {α β γ : Type} {R : α → β → Prop} {f : α → γ} {g : β → γ} {xs : List α} {ys : List β}
    (h : List.Forall₂ R xs ys) (hR : ∀ x y, R x y → g y = f x) : ys.map g = xs.map f := by
  induction h with
  | nil => rfl
  | cons hxy _ ih => rw [List.map_cons, List.map_cons, hR _ _ hxy, ih]

/-- The records that `poll` makes of a page of unknown items. -/
theorem parsedRecords_spec {remote : Remote} {parsed : List ParsedRecord} {records : List PolledRecord} {db : Db}
    (h : List.Forall₂ (fun e p => p.action = PollAction.deliver ∧
      SourceRecord.fromParsed P.parseUrl (remote.newRecord e.2) source e.1 = .ok p.record) (parsed.zipIdx 0) records) :
    (Response.parsed parsed).Is P source records ∧ records.length = parsed.length ∧
      (remote.Fresh db → (records.map (·.record.id)).Nodup ∧ ∀ p ∈ records, db.NoBackfillJob p.record.id) := by
  have hid : ∀ (e : ParsedRecord × Nat) (p : PolledRecord), p.action = PollAction.deliver ∧
      SourceRecord.fromParsed P.parseUrl (remote.newRecord e.2) source e.1 = .ok p.record →
      p.record.id = remote.newRecord e.2 := by
    rintro ⟨v, n⟩ p ⟨-, hp⟩
    unfold SourceRecord.fromParsed at hp
    split at hp
    · cases hp
    · rw [← Except.ok.inj hp]
  have hids : records.map (·.record.id) = ((parsed.zipIdx 0).map (·.2)).map remote.newRecord := by
    rw [List.map_map]
    exact map_eq_of_forall₂ h hid
  refine ⟨?_, ?_, fun hfresh => ⟨?_, fun p hp => ?_⟩⟩
  · have hparsed : List.Forall₂ (fun v p => p.action = PollAction.deliver ∧
        SourceRecord.fromParsed P.parseUrl p.record.id source v = .ok p.record) ((parsed.zipIdx 0).map (·.1)) records := by
      rw [List.forall₂_map_left_iff]
      refine h.imp fun e p hep => ⟨hep.1, ?_⟩
      rw [hid e p hep]
      exact hep.2
    rwa [List.zipIdx_map_fst] at hparsed
  · rw [← h.length_eq, List.length_zipIdx]
  · rw [hids, List.zipIdx_map_snd]
    exact (List.nodup_range').map hfresh.injective
  · have hmem : p.record.id ∈ records.map (·.record.id) := List.mem_map_of_mem hp
    rw [hids] at hmem
    obtain ⟨n, -, hn⟩ := List.mem_map.1 hmem
    rw [← hn]
    exact hfresh.newRecord n

/-- The records that `collect_web_feed` makes of a collection of unknown items. -/
theorem collectedRecords_spec {remote : Remote} {definition : SourceDefinition} {collected : List SourceRecord}
    {records : List PolledRecord} {db : Db} (hremote : remote.collect definition = .ok collected)
    (h : List.Forall₂ (fun e p => p.action = PollAction.deliver ∧
      (Except.ok e.1 : Except ModelError SourceRecord) = .ok p.record) (collected.zipIdx 0) records) :
    (Response.collected collected).Is P source records ∧ records.length = collected.length ∧
      (remote.Fresh db → (records.map (·.record.id)).Nodup ∧ ∀ p ∈ records, db.NoBackfillJob p.record.id) := by
  have hrecords : records = collected.map fun record => { record, action := .deliver } := by
    have hmap : records.map (fun p => p) = (collected.zipIdx 0).map fun e => { record := e.1, action := .deliver } :=
      map_eq_of_forall₂ h fun e p hep => by rw [Except.ok.inj hep.2, ← hep.1]
    rw [List.map_id'] at hmap
    rw [hmap, ← List.zipIdx_map_fst 0 collected, List.map_map, List.zipIdx_map_fst]
    rfl
  have hids : records.map (·.record.id) = collected.map (·.id) := by
    rw [hrecords, List.map_map]
    rfl
  refine ⟨hrecords, ?_, fun hfresh => ?_⟩
  · rw [hrecords, List.length_map]
  · obtain ⟨hnodup, hnone⟩ := hfresh.collected definition collected hremote
    refine ⟨hids ▸ hnodup, fun p hp => ?_⟩
    have hmem : p.record.id ∈ records.map (·.record.id) := List.mem_map_of_mem hp
    rw [hids] at hmem
    obtain ⟨v, hv, hvid⟩ := List.mem_map.1 hmem
    rw [← hvid]
    exact hnone v hv

theorem fetchFeed_effect {lease : LeasedWork} {remote : Remote} {r : Except IngestError Unit}
    (hp : pendingPoll source limits.fanoutBatch w.db = .ok (none, w.db))
    (h : fetchFeed P parsers limits lease source remote w = (r, w')) : CollectEffect P limits source remote w w' := by
  unfold fetchFeed at h
  rcases Proc.bind_of_reads (store_reads (sourceById_reads source) w) h with ⟨rfl, -⟩ | ⟨definition, -, h⟩
  · exact .idle rfl
  rcases Proc.bind_of_reads (m := Collector.read _) rfl h with ⟨rfl, -⟩ | ⟨known, -, h⟩
  · exact .idle rfl
  rcases Proc.bind_eq.1 h with ⟨e, he, rfl⟩ | ⟨page, w₁, hpage, h⟩
  · exact .of_requested hp (Prod.mk.inj he).2.symm
  obtain rfl : w.requested = w₁ := (Prod.mk.inj hpage).2
  rcases require_cases h with ⟨hw, -⟩ | ⟨-, h⟩
  · exact .of_requested hp hw
  split at h
  · rcases require_cases h with ⟨hw, -⟩ | ⟨-, h⟩
    · exact .of_requested hp hw
    cases r with
    | error e =>
      refine .of_requested hp ?_
      unfold Collector.store at h
      split at h
      · cases h
      · exact (Prod.mk.inj h).2.symm
    | ok u =>
      obtain ⟨hs, hcommits, -⟩ := store_ok h
      exact .asked hp (recordSourceSuccess_pollTables _ _ _ _ _ _ _ _ _ hs) hcommits
  · rcases Proc.bind_of_reads (m := Proc.ofExcept _) rfl h with ⟨hw, -⟩ | ⟨parsed, -, h⟩
    · exact .of_requested hp hw
    rcases Proc.bind_of_reads (m := Collector.read _) rfl h with ⟨hw, -⟩ | ⟨isInitial, hinit, h⟩
    · exact .of_requested hp hw
    rcases Proc.bind_of_reads (m := Collector.read _) rfl h with ⟨hw, -⟩ | ⟨known', hknown, h⟩
    · exact .of_requested hp hw
    rcases Proc.bind_of_reads (m := Proc.ofExcept _) rfl h with ⟨hw, -⟩ | ⟨records, hrecords, h⟩
    · exact .of_requested hp hw
    rcases require_cases h with ⟨hw, -⟩ | ⟨-, h⟩
    · exact .of_requested hp hw
    have hinit : isInitial = !w.db.hasCommittedPoll source := (Except.ok.inj (Prod.mk.inj hinit).1).symm
    have hknown : known' = w.db.recordByUpstream source := (Except.ok.inj (Prod.mk.inj hknown).1).symm
    rw [hinit] at h
    refine .of_commit hp (Answered.of_records fun hunknown => ?_) h
    have hnew := polledRecords_unknown (by rw [hknown]; exact hunknown) (Prod.mk.inj hrecords).1
    exact parsedRecords_spec hnew

theorem collectPages_effect {lease : LeasedWork} {remote : Remote} {r : Except IngestError Unit}
    (hp : pendingPoll source limits.fanoutBatch w.db = .ok (none, w.db))
    (h : collectPages limits lease source remote w = (r, w')) : CollectEffect P limits source remote w w' := by
  unfold collectPages at h
  rcases require_cases h with ⟨rfl, -⟩ | ⟨-, h⟩
  · exact .idle rfl
  rcases Proc.bind_of_reads (store_reads (sourceById_reads source) w) h with ⟨rfl, -⟩ | ⟨definition, -, h⟩
  · exact .idle rfl
  rcases Proc.bind_of_reads (m := Collector.read _) rfl h with ⟨rfl, -⟩ | ⟨isInitial, hinit, h⟩
  · exact .idle rfl
  rcases Proc.bind_eq.1 h with ⟨e, he, rfl⟩ | ⟨collected, w₁, hcollected, h⟩
  · exact .of_requested hp (Prod.mk.inj he).2.symm
  obtain rfl : w.requested = w₁ := (Prod.mk.inj hcollected).2
  rcases require_cases h with ⟨hw, -⟩ | ⟨-, h⟩
  · exact .of_requested hp hw
  rcases Proc.bind_of_reads (m := Collector.read _) rfl h with ⟨hw, -⟩ | ⟨known, hknown, h⟩
  · exact .of_requested hp hw
  rcases Proc.bind_of_reads (m := Proc.ofExcept _) rfl h with ⟨hw, -⟩ | ⟨records, hrecords, h⟩
  · exact .of_requested hp hw
  rcases require_cases h with ⟨hw, -⟩ | ⟨-, h⟩
  · exact .of_requested hp hw
  have hinit : isInitial = !w.db.hasCommittedPoll source := (Except.ok.inj (Prod.mk.inj hinit).1).symm
  have hknown : known = w.db.recordByUpstream source := (Except.ok.inj (Prod.mk.inj hknown).1).symm
  rw [hinit] at h
  refine .of_commit hp (Answered.of_records fun hunknown => ?_) h
  have hnew := polledRecords_unknown (by rw [hknown]; exact hunknown) (Prod.mk.inj hrecords).1
  have hremote : remote.collect definition = .ok collected := by
    have := (Prod.mk.inj hcollected).1
    cases hc : remote.collect definition with
    | error e =>
      rw [hc] at this
      cases this
    | ok values =>
      rw [hc] at this
      cases this
      rfl
  exact collectedRecords_spec hremote hnew

theorem handleCollection_effect {lease : LeasedWork} {remote : Remote} (hitem : lease.item.collectSource = some source) :
    CollectEffect P limits source remote w (handleCollection P parsers limits lease remote w).2 := by
  have hpoll : ∀ {r : Except IngestError Unit} {w' : Collector}, poll P parsers limits lease source remote w = (r, w') →
      CollectEffect P limits source remote w w' :=
    fun h => drainBacklog_bind (fun hp h' => fetchFeed_effect hp h') h
  have hcollect : ∀ {r : Except IngestError Unit} {w' : Collector}, collectWebFeed limits lease source remote w = (r, w') →
      CollectEffect P limits source remote w w' :=
    fun h => drainBacklog_bind (fun hp h' => collectPages_effect hp h') h
  have hdispatch : ∀ {r : Except IngestError Unit} {w' : Collector},
      (do
        let definition ← Collector.store (sourceById source)
        if definition.kind.isCollected then collectWebFeed limits lease source remote
        else poll P parsers limits lease source remote : EngineProc Unit) w = (r, w') →
      CollectEffect P limits source remote w w' := by
    intro r w' h
    rcases Proc.bind_of_reads (store_reads (sourceById_reads source) w) h with ⟨rfl, -⟩ | ⟨definition, -, h⟩
    · exact .idle rfl
    split at h
    · exact hcollect h
    · exact hpoll h
  unfold handleCollection
  cases hi : lease.item with
  | pollSource s =>
    rw [hi] at hitem
    cases hitem
    exact hdispatch rfl
  | refreshSource s =>
    rw [hi] at hitem
    cases hitem
    exact hdispatch rfl
  | collectWebFeed s =>
    rw [hi] at hitem
    cases hitem
    exact hcollect rfl
  | fanOut _ _ _ | extractFullText _ _ _ _ | cleanupContent _ _ | evaluateArticleRules _ _ _ | applyRule _ _ _ _ _ =>
    rw [hi] at hitem
    cases hitem

/-! ## The invariant -/

/-- The first answer was committed: its records are those committed so far, in order, and then the backlog. -/
structure Draining (P : Platform) (source : SourceId) (w : Collector) (rows : List BacklogRow) (response : Response)
    (first : PollCommit) (drains : List PollCommit) (later : List (Option Response × PollCommit)) : Prop where
  polled : w.db.hasCommittedPoll source = true
  backlog : BacklogIs w.db source rows
  commits : w.commits = (some response, first) :: (drains.map fun c => (none, c)) ++ later
  order : response.Is P source ((first :: drains).flatMap (·.records) ++ rows.map (·.polled))
  once : (((first :: drains).flatMap (·.records) ++ rows.map (·.polled)).map (·.record.upstreamId)).Nodup
  waits : rows ≠ [] → later = []
  jobs : ∀ row ∈ rows, w.db.NoBackfillJob row.record.id

def PollInv (P : Platform) (source : SourceId) (w : Collector) : Prop :=
  w.Untouched source ∨ ∃ rows response first drains later, Draining P source w rows response first drains later

theorem PollInv.backlog (h : PollInv P source w) : ∃ rows, BacklogIs w.db source rows := by
  rcases h with h | ⟨rows, _, _, _, _, h⟩
  · exact ⟨[], h.backlog⟩
  · exact ⟨rows, h.backlog⟩

/-- What the invariant says about one source survives a step that keeps its tables. -/
theorem PollInv.congr (h : PollInv P source w) (hcommits : w'.commits = w.commits)
    (hbacklog : ∀ r, w'.db.pollBacklog.lookup (source, r) = w.db.pollBacklog.lookup (source, r))
    (hpoll : w'.db.pollState.lookup source = w.db.pollState.lookup source)
    (hknown : ∀ u, w'.db.sourceRecordIdentity.lookup (source, u) = w.db.sourceRecordIdentity.lookup (source, u))
    (hjobs : ∀ r row, w.db.pollBacklog.lookup (source, r) = some row → w.db.NoBackfillJob r → w'.db.NoBackfillJob r) :
    PollInv P source w' := by
  rcases h with h | ⟨rows, response, first, drains, later, h⟩
  · refine .inl ⟨hcommits.trans h.commits, ?_, h.backlog.congr hbacklog, fun u => ?_⟩
    · unfold Db.hasCommittedPoll
      rw [hpoll]
      exact h.pollState
    · unfold Db.recordByUpstream
      rw [hknown u]
      exact h.records u
  · refine .inr ⟨rows, response, first, drains, later, ?_⟩
    refine { h with polled := ?_, backlog := h.backlog.congr hbacklog, commits := hcommits.trans h.commits, jobs := ?_ }
    · unfold Db.hasCommittedPoll
      rw [hpoll]
      exact h.polled
    · intro row hrow
      exact hjobs row.record.id row ((h.backlog.lookup _ _).2 ⟨hrow, rfl⟩) (h.jobs row hrow)

theorem commitPoll_polled {lease : LeasedWork} {clock : DateTime} {c : PollCommit} {db db' : Db} {u : Unit}
    (hrun : commitPoll lease clock c db = .ok (u, db')) : db'.hasCommittedPoll c.sourceId = true := by
  unfold Db.hasCommittedPoll
  rw [(commitPoll_ok hrun).2.1]
  rfl

/-- A commit makes continuation jobs for its own records only. -/
theorem NoBackfillJob.commit {lease : LeasedWork} {clock : DateTime} {c : PollCommit} {db db' : Db} {u : Unit}
    {r : SourceRecordId} (hrun : commitPoll lease clock c db = .ok (u, db')) (h : db.NoBackfillJob r)
    (hr : r ∉ c.records.map (·.record.id)) : db'.NoBackfillJob r := by
  intro n
  rcases commitPoll_jobs lease clock c _ _ hrun (.record .backfill r n) with e | ⟨-, item, ms, origin, hA, -⟩
  · rw [e]
    exact h n
  · rcases hA with ⟨p, -, -, hid, -⟩ | ⟨p, -, url, hid, -⟩ | ⟨last, d, -, hlast, hid, -⟩
    · cases hid
    · cases hid
    · cases hid
      exact absurd (List.mem_map_of_mem (List.mem_of_getLast? hlast)) hr

/-- An incomplete commit makes a new continuation job, if its last record had none. -/
theorem commitPoll_continues {lease : LeasedWork} {clock : DateTime} {c : PollCommit} {db db' : Db} {u : Unit}
    (hrun : commitPoll lease clock c db = .ok (u, db')) (hnone : ∀ p ∈ c.records, db.NoBackfillJob p.record.id)
    (hinc : c.incomplete = true) :
    ∃ id j, db.ingestJobs.lookup id = none ∧ db'.ingestJobs.lookup id = some j ∧ j.item = .refreshSource c.sourceId := by
  obtain ⟨last, j, hlast, hj, hitem⟩ := (commitPoll_ok hrun).2.2 hinc
  exact ⟨_, j, hnone last (List.mem_of_getLast? hlast) _, hj, hitem⟩

/-- The promises about one commit: it is incomplete exactly if it leaves a backlog, and then a new job goes on. -/
structure CommitKept (source : SourceId) (db db' : Db) (c : PollCommit) : Prop where
  incomplete : c.incomplete = true ↔ db'.backlog source ≠ []
  continues : c.incomplete = true → ∃ id j, db.ingestJobs.lookup id = none ∧ db'.ingestJobs.lookup id = some j ∧
    j.item = .refreshSource source

/-- A drained batch moves from the backlog to the commits. -/
theorem Draining.drain {rows : List BacklogRow} {response : Response} {first c : PollCommit} {drains : List PollCommit}
    {later : List (Option Response × PollCommit)} {lease : LeasedWork} {clock : DateTime}
    (h : Draining P source w rows response first drains later)
    (hp : pendingPoll source limits.fanoutBatch w.db = .ok (some c, w.db))
    (hc : commitPoll lease clock c w.db = .ok ((), w'.db)) (hcommits : w'.commits = w.commits ++ [(none, c)]) :
    Draining P source w' (rows.drop limits.fanoutBatch) response first (drains ++ [c]) [] ∧
      CommitKept source w.db w'.db c := by
  obtain ⟨-, ⟨-, hnone⟩ | ⟨hrows, -, c', hc', hsource, hrecords, hrem, hinc⟩⟩ := pendingPoll_ok h.backlog hp
  · cases hnone
  cases hc'
  subst hsource
  have hbacklog := h.backlog.commit_drains hrem hrecords hc
  have hlater := h.waits hrows
  have hids := h.backlog.nodup_ids
  rw [← List.take_append_drop limits.fanoutBatch rows, List.map_append, List.nodup_append] at hids
  have hrecs : c.records.map (·.record.id) = (rows.take limits.fanoutBatch).map (·.record.id) := by
    rw [hrecords, List.map_map]
    rfl
  have hall : (first :: (drains ++ [c])).flatMap (·.records) ++ (rows.drop limits.fanoutBatch).map (·.polled) =
      (first :: drains).flatMap (·.records) ++ rows.map (·.polled) := by
    conv_rhs => rw [← List.take_append_drop limits.fanoutBatch rows, List.map_append, ← hrecords]
    simp
  constructor
  · constructor
    case polled => exact commitPoll_polled hc
    case backlog => exact hbacklog
    case commits => rw [hcommits, h.commits, hlater]; simp
    case order => rw [hall]; exact h.order
    case once => rw [hall]; exact h.once
    case waits => exact fun _ => rfl
    case jobs =>
      intro row hrow
      refine NoBackfillJob.commit hc (h.jobs row (List.mem_of_mem_drop hrow)) ?_
      rw [hrecs]
      exact fun hmem => hids.2.2 _ hmem _ (List.mem_map_of_mem (f := (·.record.id)) hrow) rfl
  · refine ⟨by rw [hbacklog.backlog_eq]; exact hinc, commitPoll_continues hc fun p hp' => ?_⟩
    rw [hrecords] at hp'
    obtain ⟨row, hrow, rfl⟩ := List.mem_map.1 hp'
    exact h.jobs row (List.mem_of_mem_take hrow)

/-- The first commit of an untouched source. -/
theorem Draining.start {response : Response} {c : PollCommit} {remote : Remote} {lease : LeasedWork} {clock : DateTime}
    (h : w.Untouched source) (hfresh : remote.Fresh w.db) (hc : commitPoll lease clock c w.db = .ok ((), w'.db))
    (hcommits : w'.commits = w.commits ++ [(some response, c)]) (ha : Answered P source w.db remote response c) :
    Draining P source w' c.deferred response c [] [] ∧ CommitKept source w.db w'.db c := by
  obtain ⟨his, hinc, hids⟩ := ha.first h.pollState h.records
  obtain ⟨hnodup, hnone⟩ := hids hfresh
  obtain ⟨⟨d, d', hpersist, hb, -⟩, -⟩ := commitPoll_ok hc
  have hsource := ha.sourceId
  subst hsource
  obtain ⟨hidentities, -⟩ := persistBacklog_ok (h.backlog.congr fun r => by rw [hb]) (.inl rfl) hpersist
  rw [List.map_append, List.nodup_append] at hnodup
  have hdisjoint : ∀ p ∈ c.remainder, p.record.id ∉ c.records.map (·.record.id) := fun p hp hmem =>
    hnodup.2.2 _ hmem _ (List.mem_map_of_mem (f := (·.record.id)) hp) rfl
  have hbacklog := h.backlog.commit_defers hdisjoint hc
  have hdeferred : ∀ row ∈ c.deferred, row.polled ∈ c.remainder := fun row hrow => by
    rw [← deferred_polled c]
    exact List.mem_map_of_mem hrow
  have hall : [c].flatMap (·.records) ++ c.deferred.map (·.polled) = c.records ++ c.remainder := by
    rw [deferred_polled]
    simp
  constructor
  · constructor
    case polled => exact commitPoll_polled hc
    case backlog => exact hbacklog
    case commits => rw [hcommits, h.commits]; simp
    case order => rw [hall]; exact his
    case once => rw [hall]; exact hidentities.2
    case waits => exact fun _ => rfl
    case jobs =>
      intro row hrow
      have hmem := hdeferred row hrow
      exact NoBackfillJob.commit hc (hnone row.polled (List.mem_append_right _ hmem)) (hdisjoint row.polled hmem)
  · have hempty : c.deferred = [] ↔ c.remainder = [] := by
      rw [← deferred_polled c, List.map_eq_nil_iff]
    refine ⟨?_, commitPoll_continues hc fun p hp => hnone p (List.mem_append_left _ hp)⟩
    rw [hbacklog.backlog_eq, Ne, hempty]
    exact hinc

/-- A later answer is committed as a whole. -/
theorem Draining.later {response : Response} {first : PollCommit} {drains : List PollCommit}
    {later : List (Option Response × PollCommit)} {response' : Response} {c : PollCommit} {remote : Remote}
    {lease : LeasedWork} {clock : DateTime} (h : Draining P source w [] response first drains later)
    (hc : commitPoll lease clock c w.db = .ok ((), w'.db)) (hcommits : w'.commits = w.commits ++ [(some response', c)])
    (ha : Answered P source w.db remote response' c) :
    Draining P source w' [] response first drains (later ++ [(some response', c)]) ∧
      CommitKept source w.db w'.db c := by
  obtain ⟨hrem, hinc⟩ := ha.later h.polled
  have hsource := ha.sourceId
  subst hsource
  have hbacklog : BacklogIs w'.db c.sourceId [] := by
    have := h.backlog.commit_defers (by simp [hrem]) hc
    rwa [PollCommit.deferred, hrem] at this
  constructor
  · exact
      { h with
        polled := commitPoll_polled hc
        backlog := hbacklog
        commits := by rw [hcommits, h.commits]; simp
        waits := fun hne => absurd rfl hne
        jobs := by simp }
  · refine ⟨by rw [hbacklog.backlog_eq, hinc]; simp, fun h' => ?_⟩
    rw [hinc] at h'
    cases h'

theorem append_singleton_ne {α : Type} {xs : List α} {x : α} (h : xs = xs ++ [x]) : False := by
  have := congrArg List.length h
  simp at this

/-- One run on the source keeps the invariant, asks nothing while there is a backlog and keeps the promises
about its commit. -/
theorem PollInv.effect {remote : Remote} (h : PollInv P source w) (hfresh : remote.Fresh w.db)
    (heff : CollectEffect P limits source remote w w') :
    PollInv P source w' ∧ (w.db.backlog source ≠ [] → w'.fetches = w.fetches) ∧
      ∀ response c, w'.commits = w.commits ++ [(response, c)] → CommitKept source w.db w'.db c := by
  have hempty : pendingPoll source limits.fanoutBatch w.db = .ok (none, w.db) → w.db.backlog source = [] := by
    intro hp
    obtain ⟨rows, hrows⟩ := h.backlog
    obtain ⟨-, ⟨hnil, -⟩ | ⟨-, -, c, hc, -⟩⟩ := pendingPoll_ok hrows hp
    · rw [hrows.backlog_eq, hnil]
    · cases hc
  cases heff with
  | idle hw =>
    subst hw
    exact ⟨h, fun _ => rfl, fun _ _ hc => (append_singleton_ne hc).elim⟩
  | asked hp hk hcommits =>
    unfold Db.pollTables at hk
    obtain ⟨hb, hs, hi, hj⟩ : w'.db.pollBacklog = w.db.pollBacklog ∧ w'.db.pollState = w.db.pollState ∧
        w'.db.sourceRecordIdentity = w.db.sourceRecordIdentity ∧ w'.db.ingestJobs = w.db.ingestJobs := by
      simpa using hk
    refine ⟨h.congr hcommits (fun r => by rw [hb]) (by rw [hs]) (fun u => by rw [hi]) ?_,
      fun hne => absurd (hempty hp) hne, fun _ _ hc => ?_⟩
    · intro r row _ hnone n
      rw [hj]
      exact hnone n
    · rw [hcommits] at hc
      exact (append_singleton_ne hc).elim
  | drained c lease clock hp hc hcommits hf =>
    rcases h with h | ⟨rows, response, first, drains, later, h⟩
    · obtain ⟨-, ⟨-, hnone⟩ | ⟨hne, -⟩⟩ := pendingPoll_ok h.backlog hp
      · cases hnone
      · exact absurd rfl hne
    · obtain ⟨hd, hkept⟩ := h.drain hp hc hcommits
      refine ⟨.inr ⟨_, response, first, _, _, hd⟩, fun _ => hf, fun response' c' hc' => ?_⟩
      rw [hcommits, List.append_cancel_left_eq] at hc'
      cases hc'
      exact hkept
  | answered response' c lease clock hp hc hcommits ha =>
    have hlast : ∀ {Q : PollCommit → Prop}, Q c → ∀ response₁ c₁, w'.commits = w.commits ++ [(response₁, c₁)] → Q c₁ := by
      intro Q hQ response₁ c₁ hc₁
      rw [hcommits, List.append_cancel_left_eq] at hc₁
      cases hc₁
      exact hQ
    rcases h with h | ⟨rows, response, first, drains, later, h⟩
    · obtain ⟨hd, hkept⟩ := Draining.start h hfresh hc hcommits ha
      exact ⟨.inr ⟨_, response', c, [], [], hd⟩, fun hne => absurd (hempty hp) hne, hlast hkept⟩
    · have hnil : rows = [] := by rw [← h.backlog.backlog_eq]; exact hempty hp
      subst hnil
      obtain ⟨hd, hkept⟩ := h.later hc hcommits ha
      exact ⟨.inr ⟨_, response, first, drains, _, hd⟩, fun hne => absurd (hempty hp) hne, hlast hkept⟩

theorem PollInv.other {db : Db} (h : PollInv P source w) (hk : KeepsPolls source w.db db) :
    PollInv P source { w with db } := by
  obtain ⟨hb, hs, hi, hj⟩ := hk
  refine h.congr rfl (fun r => hb.lookup (by simp)) hs (fun u => hi.lookup (by simp)) fun r row hrow hnone n => ?_
  show db.ingestJobs.lookup (.record .backfill r n) = none
  cases hjob : db.ingestJobs.lookup (.record .backfill r n) with
  | none => rfl
  | some j =>
    have hsome := hj ((source, r), row) (Table.mem_rows.2 hrow) rfl (.record .backfill r n, j) (Table.mem_rows.2 hjob)
      (by simp [JobId.isBackfillOf])
    rw [hnone n] at hsome
    cases hsome

theorem PollInv.step {op : CollectOp} (h : PollInv P source w) (hfresh : FreshRun w op)
    (hstep : w.step P parsers limits source op = some w') : PollInv P source w' := by
  cases op with
  | run lease remote =>
    simp only [Collector.step] at hstep
    split at hstep
    · rename_i hitem
      cases hstep
      exact (h.effect hfresh (handleCollection_effect hitem)).1
    · cases hstep
  | other db =>
    simp only [Collector.step] at hstep
    split at hstep
    · rename_i hk
      cases hstep
      exact h.other hk
    · cases hstep

/-- For every run on a source of which nothing was known: the records of the first answer that was committed
are the committed ones and then the backlog, in order and each once; nothing is fetched while there is a
backlog; and a commit is incomplete exactly if it leaves a backlog, and then enqueues a new `RefreshSource`. -/
theorem initial_poll_in_order (hstart : w.Untouched source) {ops : List CollectOp}
    (hfresh : Along (Collector.step P parsers limits source) FreshRun w ops)
    (hrun : run (Collector.step P parsers limits source) w ops = some w') :
    ((w'.commits = [] ∧ w'.db.backlog source = []) ∨ ∃ response first drains later,
      w'.commits = (some response, first) :: (drains.map fun c => (none, c)) ++ later ∧
      response.Is P source ((first :: drains).flatMap (·.records) ++ (w'.db.backlog source).map (·.polled)) ∧
      (((first :: drains).flatMap (·.records) ++ (w'.db.backlog source).map (·.polled)).map
        (·.record.upstreamId)).Nodup ∧
      (w'.db.backlog source ≠ [] → later = [])) ∧
    ∀ op w'', FreshRun w' op → w'.step P parsers limits source op = some w'' →
      (w'.db.backlog source ≠ [] → w''.fetches = w'.fetches) ∧
      ∀ response c, w''.commits = w'.commits ++ [(response, c)] →
        (c.incomplete = true ↔ w''.db.backlog source ≠ []) ∧
        (c.incomplete = true → ∃ id j, w'.db.ingestJobs.lookup id = none ∧ w''.db.ingestJobs.lookup id = some j ∧
          j.item = .refreshSource source) := by
  have hinv : PollInv P source w' := run_inv (PollInv P source) (fun _ _ _ h hf hs => h.step hf hs) (.inl hstart) hfresh hrun
  constructor
  · rcases hinv with h | ⟨rows, response, first, drains, later, h⟩
    · exact .inl ⟨h.commits, h.backlog.backlog_eq⟩
    · rw [h.backlog.backlog_eq]
      exact .inr ⟨response, first, drains, later, h.commits, h.order, h.once, h.waits⟩
  · intro op w'' hf hstep
    cases op with
    | run lease remote =>
      simp only [Collector.step] at hstep
      split at hstep
      · rename_i hitem
        cases hstep
        have heff : CollectEffect P limits source remote w' (handleCollection P parsers limits lease remote w').2 :=
          handleCollection_effect hitem
        obtain ⟨-, hfetch, hcommit⟩ := hinv.effect hf heff
        exact ⟨hfetch, fun response c hc => ⟨(hcommit response c hc).incomplete, (hcommit response c hc).continues⟩⟩
      · cases hstep
    | other db =>
      simp only [Collector.step] at hstep
      split at hstep
      · cases hstep
        exact ⟨fun _ => rfl, fun _ _ hc => (append_singleton_ne hc).elim⟩
      · cases hstep

end

namespace Sample

def pollLease : LeasedWork :=
  { jobId := .random 1, item := .pollSource ⟨1⟩, token := ⟨1⟩, deadline := 1000000000, attempt := 0 }

def collector : Collector :=
  { db := { db with ingestJobs := (∅ : Table JobId Job).insert (.random 1) (job pollLease.item pollLease.token) }
    fetches := 0, commits := [] }

def item (upstreamId : String) : ParsedRecord :=
  { categories := none, upstreamId, originalUrl := "https://example.com/item", absoluteUrl := none
    title := upstreamId, description := none, descriptionMediaType := none, contentHtml := none, publishedAt := none }

def threeItems : Collectors :=
  { parseXml := fun _ _ => .ok [item "a", item "b", item "c"], parseJson := fun _ _ => .error ""
    parseRssCoalescingIdentical := fun _ _ => .error "" }

def remote : Remote :=
  { now := 0, clock := 0, elapsedMs := 1, degraded := false, newRecord := fun n => ⟨n + 10⟩
    fetch := fun url _ => .ok { finalUrl := url, contentType := none, body := [], validators := {}, notModified := false }
    collect := fun _ => .error (.rejected "") }

def oneByOne : IngestLimits :=
  { initialFeedItems := 1, fanoutBatch := 1, maxInputBytes := 1, initialFeedItems_pos := Nat.one_pos
    fanoutBatch_pos := Nat.one_pos, maxInputBytes_pos := Nat.one_pos }

theorem collector_untouched : collector.Untouched ⟨1⟩ := by
  refine ⟨rfl, rfl, ⟨List.Pairwise.nil, fun r row => ?_⟩, fun _ => rfl⟩
  constructor
  · rintro hrow
    cases hrow
  · rintro ⟨hrow, -⟩
    cases hrow

theorem remote_fresh : remote.Fresh collector.db := by
  constructor
  case injective =>
    intro m n h
    have := congrArg SourceRecordId.uuid h
    simp only [remote] at this
    omega
  case newRecord =>
    intro n m
    show ((∅ : Table JobId Job).insert (.random 1) _).lookup _ = none
    rw [Table.lookup_insert_if, if_neg (by simp), Table.lookup_empty]
  case collected =>
    intro source values h
    cases h

end Sample

theorem initial_poll_in_order_three :
    ∃ w, run (Collector.step Sample.platform Sample.threeItems Sample.oneByOne ⟨1⟩) Sample.collector
        [.run Sample.pollLease Sample.remote] = some w ∧ (w.db.backlog ⟨1⟩).length = 2 ∧
      ∃ response first drains, w.commits = (some response, first) :: (drains.map fun c => (none, c)) ∧
        response.Is Sample.platform ⟨1⟩ ((first :: drains).flatMap (·.records) ++ (w.db.backlog ⟨1⟩).map (·.polled)) := by
  have hsome : (run (Collector.step Sample.platform Sample.threeItems Sample.oneByOne ⟨1⟩) Sample.collector
      [.run Sample.pollLease Sample.remote]).isSome := by decide +kernel
  obtain ⟨w, hrun⟩ := Option.isSome_iff_exists.1 hsome
  have hlength : (w.db.backlog ⟨1⟩).length = 2 ∧ w.commits.length = 1 := by
    have : (run (Collector.step Sample.platform Sample.threeItems Sample.oneByOne ⟨1⟩) Sample.collector
        [.run Sample.pollLease Sample.remote]).map (fun w => ((w.db.backlog ⟨1⟩).length, w.commits.length)) = some (2, 1) := by
      decide +kernel
    rw [hrun] at this
    simpa using this
  have hfresh : Along (Collector.step Sample.platform Sample.threeItems Sample.oneByOne ⟨1⟩) FreshRun Sample.collector
      [.run Sample.pollLease Sample.remote] := ⟨Sample.remote_fresh, fun _ _ => trivial⟩
  refine ⟨w, hrun, hlength.1, ?_⟩
  rcases (initial_poll_in_order Sample.collector_untouched hfresh hrun).1 with ⟨hnil, -⟩ |
      ⟨response, first, drains, later, hcommits, his, -, hwaits⟩
  · rw [hnil] at hlength
    simp at hlength
  · refine ⟨response, first, drains, ?_, his⟩
    rw [hcommits, hwaits (fun hnil => by rw [hnil] at hlength; simp at hlength)]
    simp

end Inoreader
