import Inoreader.Lib.Paging
import Inoreader.Library.Links
import Inoreader.Library.Run
import Inoreader.Store.Jobs

/-!
# Fan-out (`IngestWorker::fanout`)

A fan-out job reads its record and one page of the source's subscriptions, delivers to each and leaves
a continuation behind the last one it delivered to. `fanout` is the run in which no store call fails;
every call reads the clock itself and every delivery draws a fresh article id.
-/

namespace Inoreader
open Lib Tx

/-- What the calls of one run take from outside: the times and the ids. -/
structure Calls where
  clock : Nat → DateTime
  newArticle : Nat → ArticleId

section
variable (P : Platform) (limits : IngestLimits)

def deliverAll (calls : Calls) (lease : LeasedWork) (record : SourceRecord) (now : DateTime)
    (targets : List (DeliveryTarget × Nat)) : StoreTx Unit :=
  Tx.loop (fun _ entry => do
    let _ ← deliver P lease (calls.clock entry.2)
      { target := entry.1, record, proposedArticleId := calls.newArticle entry.2, deliveredAt := now }) () targets

def fanout (calls : Calls) (lease : LeasedWork) (source : SourceId) (recordId : SourceRecordId)
    (after : Option SubscriptionId) (now : DateTime) : StoreTx Unit := do
  let record ← recordById recordId
  let targets ← deliveryTargets source after limits.fanoutBatch
  deliverAll P calls lease record now targets.zipIdx
  match targets.getLast? with
  | none => pure ()
  | some last => advanceFanout lease (calls.clock targets.length) last.subscriptionId

end

def Job.isPending (j : Job) : Bool := j.status == .ready || j.status == .leased

def WorkItem.fansOut (r : SourceRecordId) : WorkItem → Bool
  | .fanOut _ r' _ => decide (r' = r)
  | _ => false

/-- One fan-out job of the record is claimed, run and completed. -/
structure FanoutStep (P : Platform) (limits : IngestLimits) (cfg : StoreConfig) (r : SourceRecordId) (id : JobId)
    (db db' : Db) : Prop where
  run : ∃ job source after token deadline calls now done db₁,
    db.ingestJobs.lookup id = some job ∧ job.isPending ∧ job.item = .fanOut source r after ∧
    fanout P limits calls { jobId := id, item := job.item, token, deadline, attempt := job.attempt } source r after now
      (db.setJob id (job.leasedBy token deadline)) = .ok ((), db₁) ∧
    complete cfg done id token db₁ = .ok ((), db')

/-- Fan-out jobs of the record are run until none is left. -/
inductive Drains (P : Platform) (limits : IngestLimits) (cfg : StoreConfig) (r : SourceRecordId) : Db → Db → Prop
  | done {db : Db} (h : ∀ id job, db.ingestJobs.lookup id = some job → job.item.fansOut r → ¬ job.isPending) :
      Drains P limits cfg r db db
  | step {db db₁ db' : Db} {id : JobId} (h : FanoutStep P limits cfg r id db db₁)
      (h' : Drains P limits cfg r db₁ db') : Drains P limits cfg r db db'

/-- The subscription takes deliveries. -/
def Db.takes (db : Db) (id : SubscriptionId) : Bool :=
  match db.subscriptions.lookup id with
  | some s => db.deliverable s
  | none => false

/-- The tables that decide who gets deliveries. -/
def Db.audience (db : Db) :
    Table WorkspaceId Workspace × Table SubscriptionId Subscription × Table SubscriptionId SourceId ×
      Table SourceRecordId SourceRecord :=
  (db.workspaces, db.subscriptions, db.subscriptionSources, db.sourceRecords)

/-- The used part of a page, as ids. -/
def Db.page (db : Db) (source : SourceId) (after : Option SubscriptionId) (limit : Nat) : List SubscriptionId :=
  Paging.page SubscriptionId.uuid db.takes limit (db.linkedSubscriptions source) (after.map (·.uuid))

section
variable {P : Platform} {limits : IngestLimits} {cfg : StoreConfig} {db db' : Db} {source : SourceId}
  {r : SourceRecordId}

/-! ## One page -/

/-- The target of a subscription that takes deliveries. -/
def Db.targetOf (db : Db) (id : SubscriptionId) : Option DeliveryTarget :=
  (db.subscriptions.lookup id).bind fun s =>
    if db.deliverable s then some { workspaceId := s.workspaceId, subscriptionId := s.id } else none

theorem targetLoop_ok {ids : List SubscriptionId} {acc targets : List DeliveryTarget} {d d' : Db}
    (hrun : loop (fun (targets : List DeliveryTarget) id => do
      let s ← Tx.orThrow (db.subscriptions.lookup id) StoreError.notFound
      if s.status.isActive then
        let workspace ← Tx.orThrow (db.workspaces.lookup s.workspaceId) .notFound
        if workspace.acceptsDelivery then
          pure (targets ++ [{ workspaceId := s.workspaceId, subscriptionId := s.id }])
        else pure targets
      else pure targets) acc ids d = .ok (targets, d')) :
    d' = d ∧ targets = acc ++ ids.filterMap db.targetOf := by
  induction ids generalizing acc with
  | nil =>
    cases hrun
    simp
  | cons id ids ih =>
    rw [loop] at hrun
    obtain ⟨acc', d₁, h₁, hrun⟩ := bind_ok.1 hrun
    obtain ⟨s, hs, h₁⟩ := bind_orThrow_ok.1 h₁
    have hturn : d₁ = d ∧ acc' = acc ++ (db.targetOf id).toList := by
      unfold Db.targetOf Db.deliverable
      by_cases hact : s.status.isActive = true
      · rw [if_pos hact] at h₁
        obtain ⟨w, hw, h₁⟩ := bind_orThrow_ok.1 h₁
        by_cases hacc : w.acceptsDelivery = true
        · rw [if_pos hacc] at h₁
          cases h₁
          simp [hs, hw, hact, hacc]
        · rw [if_neg hacc] at h₁
          cases h₁
          simp [hs, hw, hact, hacc]
      · rw [if_neg hact] at h₁
        cases h₁
        simp [hs, hact]
    obtain ⟨hd, rfl⟩ := hturn
    rw [hd] at hrun
    obtain ⟨hd', ht⟩ := ih hrun
    refine ⟨hd', ?_⟩
    rw [ht, List.append_assoc]
    cases hto : db.targetOf id with
    | none => simp [hto]
    | some x => simp [hto]

theorem deliveryTargets_ok {after : Option SubscriptionId} {limit : Nat} {targets : List DeliveryTarget}
    (hrun : deliveryTargets source after limit db = .ok (targets, db')) :
    db' = db ∧ targets = (db.targetPage source after limit).filterMap db.targetOf := by
  unfold deliveryTargets at hrun
  obtain ⟨-, hrun⟩ := bind_require_ok.1 hrun
  rw [bind_run, get_run] at hrun
  exact targetLoop_ok hrun

/-- Rows are stored under the ids of their documents. -/
structure KeyedRows (db : Db) : Prop where
  subscription : ∀ id s, db.subscriptions.lookup id = some s → s.id = id
  record : ∀ id v, db.sourceRecords.lookup id = some v → v.id = id

theorem KeyedRows.congr (h : KeyedRows db) (ha : db'.audience = db.audience) : KeyedRows db' := by
  simp only [Db.audience, Prod.mk.injEq] at ha
  obtain ⟨-, hs, -, hr⟩ := ha
  exact ⟨by rw [hs]; exact h.subscription, by rw [hr]; exact h.record⟩

theorem targetOf_eq_some (h : KeyedRows db) {id : SubscriptionId} {target : DeliveryTarget} :
    db.targetOf id = some target ↔ target.subscriptionId = id ∧ ∃ s, db.subscriptions.lookup id = some s ∧
      db.deliverable s = true ∧ target.workspaceId = s.workspaceId := by
  unfold Db.targetOf
  rw [Option.bind_eq_some_iff]
  constructor
  · rintro ⟨s, hs, ht⟩
    split at ht
    · rename_i hd
      cases ht
      exact ⟨h.subscription id s hs, s, hs, hd, rfl⟩
    · cases ht
  · rintro ⟨rfl, s, hs, hd, hw⟩
    refine ⟨s, hs, ?_⟩
    rw [if_pos hd, h.subscription _ s hs, ← hw]

theorem map_targetOf (h : KeyedRows db) (ids : List SubscriptionId) :
    (ids.filterMap db.targetOf).map (·.subscriptionId) = ids.filter db.takes := by
  induction ids with
  | nil => rfl
  | cons id ids ih =>
    cases ht : db.targetOf id with
    | none =>
      have hn : db.takes id = false := by
        unfold Db.targetOf at ht
        unfold Db.takes
        cases hs : db.subscriptions.lookup id with
        | none => rfl
        | some s =>
          simp only [hs, Option.bind_some] at ht
          split at ht
          · cases ht
          · simpa using ‹¬ db.deliverable s = true›
      rw [List.filterMap_cons_none ht, ih, List.filter_cons_of_neg (by simp [hn])]
    | some target =>
      obtain ⟨hid, s, hs, hd, -⟩ := (targetOf_eq_some h).1 ht
      have hy : db.takes id = true := by simp [Db.takes, hs, hd]
      rw [List.filterMap_cons_some ht, List.map_cons, ih, List.filter_cons_of_pos hy, hid]

theorem targetPage_eq (source : SourceId) (after : Option SubscriptionId) (limit : Nat) :
    db.targetPage source after limit =
      (Paging.after SubscriptionId.uuid (db.linkedSubscriptions source) (after.map (·.uuid))).take limit := by
  unfold Db.targetPage
  cases after with
  | none => simp [Paging.after]
  | some a => simp [Paging.after]

theorem targets_page (h : KeyedRows db) (source : SourceId) (after : Option SubscriptionId) (limit : Nat) :
    ((db.targetPage source after limit).filterMap db.targetOf).map (·.subscriptionId) = db.page source after limit := by
  rw [map_targetOf h, targetPage_eq]
  rfl

/-! ## One job -/

theorem deliver_audience (lease : LeasedWork) (now : DateTime) (commit : DeliveryCommit) :
    Keeps Db.audience (deliver P lease now commit) :=
  deliver_keeps (by refine ⟨⟨?_, ?_, ?_⟩, ?_, ?_, ?_, ?_⟩ <;> intros <;> rfl) _ _ _

/-- The target names a subscription that takes deliveries, in its workspace. -/
def Db.Takes (db : Db) (target : DeliveryTarget) : Prop :=
  ∃ s, db.subscriptions.lookup target.subscriptionId = some s ∧ db.deliverable s = true ∧
    target.workspaceId = s.workspaceId

theorem takes_congr (ha : db'.audience = db.audience) (target : DeliveryTarget) : db'.Takes target ↔ db.Takes target := by
  simp only [Db.audience, Prod.mk.injEq] at ha
  obtain ⟨hw, hs, -⟩ := ha
  unfold Db.Takes Db.deliverable
  rw [hw, hs]

theorem deliverAll_links (calls : Calls) (lease : LeasedWork) (record : SourceRecord) (now : DateTime)
    (targets : List (DeliveryTarget × Nat)) (htakes : ∀ e ∈ targets, db.Takes e.1) :
    wp (deliverAll P calls lease record now targets) (fun _ db' =>
      db'.audience = db.audience ∧ JobsGrow IsArticleRuleJob db db' ∧
      ∀ w t r', db'.Linked w t r' ↔ db.Linked w t r' ∨
        (r' = record.id ∧ ∃ e ∈ targets, e.1.subscriptionId = t ∧ e.1.workspaceId = w)) db := by
  induction targets generalizing db with
  | nil =>
    simp only [deliverAll, loop, wp_pure, List.not_mem_nil, false_and, exists_false, and_false, or_false]
    exact ⟨trivial, .refl _, fun _ _ _ => trivial⟩
  | cons e targets ih =>
    intro u db' hrun
    unfold deliverAll at hrun
    rw [loop] at hrun
    obtain ⟨_, d₁, h₁, hrun⟩ := bind_ok.1 hrun
    obtain ⟨result, d₂, h₂, h₁⟩ := bind_ok.1 h₁
    cases h₁
    have ha := deliver_audience _ _ _ _ _ _ h₂
    have htail : ∀ e' ∈ targets, d₁.Takes e'.1 := fun e' he' => (takes_congr ha _).2 (htakes e' (by simp [he']))
    obtain ⟨hau, hjobs, hlink⟩ := ih htail u db' hrun
    refine ⟨hau.trans ha, (deliver_jobs _ _ _ _ _ h₂).trans hjobs, fun w t r' => ?_⟩
    obtain ⟨s, hs, hdel, hw⟩ := htakes e (by simp)
    rw [hlink, deliver_linked h₂]
    simp only [List.mem_cons]
    constructor
    · rintro ((h | ⟨rfl, rfl, rfl, -⟩) | ⟨rfl, e', he', hrest⟩)
      · exact .inl h
      · exact .inr ⟨rfl, e, .inl rfl, rfl, rfl⟩
      · exact .inr ⟨rfl, e', .inr he', hrest⟩
    · rintro (h | ⟨rfl, e', rfl | he', rfl, rfl⟩)
      · exact .inl (.inl h)
      · exact .inl (.inr ⟨rfl, rfl, rfl, s, hs, hw.symm, hdel⟩)
      · exact .inr ⟨rfl, e', he', rfl, rfl⟩

/-- What a fan-out run does: it links the used part of its page and leaves a continuation behind it. -/
structure FanoutEffect (db : Db) (lease : LeasedWork) (source : SourceId) (r : SourceRecordId)
    (page : List SubscriptionId) (db' : Db) : Prop where
  audience : db'.audience = db.audience
  linked : ∀ w t r', db'.Linked w t r' ↔ db.Linked w t r' ∨ (r' = r ∧ t ∈ page ∧ db.Takes ⟨w, t⟩)
  jobs : JobsGrow (fun id j => IsArticleRuleJob id j ∨ ∃ last, page.getLast? = some last ∧
    IsContinuation lease last id j) db db'
  continued : ∀ last, page.getLast? = some last → ∃ j,
    db'.ingestJobs.lookup (.fanoutContinuation lease.jobId last) = some j ∧ j.item = .fanOut source r (some last)

theorem advanceFanout_continued {lease : LeasedWork} {now : DateTime} {last : SubscriptionId}
    {after : Option SubscriptionId} {u : Unit} (hitem : lease.item = .fanOut source r after)
    (hrun : advanceFanout lease now last db = .ok (u, db')) :
    ∃ j, db'.ingestJobs.lookup (.fanoutContinuation lease.jobId last) = some j ∧ j.item = .fanOut source r (some last) := by
  unfold advanceFanout at hrun
  simp only [hitem] at hrun
  obtain ⟨_, -, hrun⟩ := (bind_ok_of_reads (assertLease_keeps _ _)).1 hrun
  rcases enqueueWork_ok hrun with ⟨j, hj, hji, rfl⟩ | ⟨-, origin, -, rfl⟩
  · exact ⟨j, hj, hji⟩
  · exact ⟨_, by rw [Db.setJob, Table.lookup_insert_if, if_pos rfl], rfl⟩

theorem fanout_effect {calls : Calls} {lease : LeasedWork} {after : Option SubscriptionId} {now : DateTime} {u : Unit}
    (hk : KeyedRows db) (hitem : lease.item = .fanOut source r after)
    (hrun : fanout P limits calls lease source r after now db = .ok (u, db')) :
    FanoutEffect db lease source r (db.page source after limits.fanoutBatch) db' := by
  unfold fanout at hrun
  have hrec : Keeps (fun d => d) (recordById r) := keeps_bind keeps_get fun _ => keeps_orThrow _ _
  obtain ⟨record, hr, hrun⟩ := (bind_ok_of_reads hrec).1 hrun
  have hrid : record.id = r := by
    unfold recordById at hr
    rw [bind_run, get_run] at hr
    cases hl : db.sourceRecords.lookup r with
    | none => simp [hl, orThrow, throw_run] at hr
    | some v =>
      simp only [hl, orThrow, pure_run, Except.ok.injEq, Prod.mk.injEq, and_true] at hr
      rw [← hr]
      exact hk.record r v hl
  have htk : Keeps (fun d => d) (deliveryTargets source after limits.fanoutBatch) :=
    fun _ _ _ h => (deliveryTargets_ok h).1
  obtain ⟨targets, ht, hrun⟩ := (bind_ok_of_reads htk).1 hrun
  obtain ⟨-, htargets⟩ := deliveryTargets_ok ht
  have hpage := targets_page hk source after limits.fanoutBatch
  rw [← htargets] at hpage
  have htakes : ∀ target ∈ targets, db.Takes target := by
    intro target hmem
    rw [htargets, List.mem_filterMap] at hmem
    obtain ⟨id, -, hid⟩ := hmem
    obtain ⟨rfl, s, hs, hdel, hw⟩ := (targetOf_eq_some hk).1 hid
    exact ⟨s, hs, hdel, hw⟩
  obtain ⟨_, d₁, h₁, hrun⟩ := bind_ok.1 hrun
  have hzip : ∀ e ∈ targets.zipIdx, db.Takes e.1 := fun e he => htakes e.1 (List.fst_mem_of_mem_zipIdx he)
  obtain ⟨ha, hjobs, hlink⟩ := deliverAll_links calls lease record now targets.zipIdx hzip _ d₁ h₁
  have hlinked : ∀ w t r', d₁.Linked w t r' ↔ db.Linked w t r' ∨
      (r' = r ∧ t ∈ db.page source after limits.fanoutBatch ∧ db.Takes ⟨w, t⟩) := by
    intro w t r'
    rw [hlink, hrid, ← hpage]
    refine or_congr Iff.rfl (and_congr Iff.rfl ?_)
    constructor
    · rintro ⟨e, he, rfl, rfl⟩
      have hmem := List.fst_mem_of_mem_zipIdx he
      exact ⟨List.mem_map_of_mem hmem, htakes _ hmem⟩
    · rintro ⟨ht, s, hs, hdel, rfl⟩
      obtain ⟨target, hmem, rfl⟩ := List.mem_map.1 ht
      obtain ⟨s', hs', -, hw⟩ := htakes target hmem
      rw [hs] at hs'
      cases hs'
      obtain ⟨n, hn⟩ := List.mem_iff_getElem?.1 hmem
      exact ⟨(target, n), List.mem_zipIdx_iff_getElem?.2 hn, rfl, hw⟩
  have hlast : (db.page source after limits.fanoutBatch).getLast? = targets.getLast?.map (·.subscriptionId) := by
    rw [← hpage, List.getLast?_map]
  cases hl : targets.getLast? with
  | none =>
    simp only [hl] at hrun
    cases hrun
    rw [hl] at hlast
    exact ⟨ha, hlinked, hjobs.mono fun _ _ h => .inl h, by simp [hlast]⟩
  | some last =>
    simp only [hl] at hrun
    rw [hl] at hlast
    refine ⟨(advanceFanout_keeps (f := Db.audience) (fun _ _ _ => rfl) _ _ _ _ _ _ hrun).trans ha, ?_, ?_, ?_⟩
    · have ho := advanceFanout_keeps (f := Db.libraryOrigins) (fun _ _ _ => rfl) _ _ _ _ _ _ hrun
      unfold Db.Linked at hlinked ⊢
      rw [ho]
      exact hlinked
    · refine (hjobs.mono fun _ _ h => .inl h).trans ((advanceFanout_jobs _ _ _ _ _ hrun).mono fun _ _ h => .inr ?_)
      exact ⟨_, hlast, h⟩
    · intro y hy
      rw [hlast] at hy
      cases hy
      exact advanceFanout_continued hitem hrun

/-! ## The chain of continuations -/

/-- The job is a continuation of `root`, of a continuation of `root`, and so on. -/
def JobId.Continues (root : JobId) : JobId → Prop
  | .fanoutContinuation parent _ => parent = root ∨ Continues root parent
  | _ => False

theorem JobId.Continues.trans {root mid : JobId} {last : SubscriptionId} {id : JobId}
    (hmid : mid = .fanoutContinuation root last) (h : mid.Continues id) : root.Continues id := by
  induction id with
  | fanoutContinuation parent a ih =>
    rcases h with rfl | h
    · exact .inr (hmid ▸ .inl rfl)
    · exact .inr (ih h)
  | _ => exact h.elim

theorem JobId.not_continues_self (root : JobId) (last : SubscriptionId) :
    ¬ (JobId.fanoutContinuation root last).Continues root := by
  suffices h : ∀ id : JobId, sizeOf id ≤ sizeOf root → ¬ (JobId.fanoutContinuation root last).Continues id from
    h root (Nat.le_refl _)
  intro id
  induction id with
  | fanoutContinuation parent a ih =>
    intro hsize hc
    simp only [JobId.fanoutContinuation.sizeOf_spec] at hsize
    rcases hc with rfl | hc
    · simp only [JobId.fanoutContinuation.sizeOf_spec] at hsize
      omega
    · exact ih (by omega) hc
  | _ => exact fun _ h => h

/-- The fan-out of the record stands at the cursor `after`: one job is pending and nothing continues it. -/
structure Chain (db : Db) (source : SourceId) (r : SourceRecordId) (id : JobId) (after : Option SubscriptionId) :
    Prop where
  keyed : KeyedRows db
  pending : ∃ job, db.ingestJobs.lookup id = some job ∧ job.isPending ∧ job.item = .fanOut source r after
  only : ∀ id' job, db.ingestJobs.lookup id' = some job → job.item.fansOut r → job.isPending → id' = id
  fresh : ∀ id', id.Continues id' → db.ingestJobs.lookup id' = none

/-- What the claim, the run and the completion of a fan-out job do together. -/
structure StepEffect (db : Db) (source : SourceId) (r : SourceRecordId) (id : JobId) (page : List SubscriptionId)
    (db' : Db) : Prop where
  audience : db'.audience = db.audience
  linked : ∀ w t r', db'.Linked w t r' ↔ db.Linked w t r' ∨ (r' = r ∧ t ∈ page ∧ db.Takes ⟨w, t⟩)
  completed : ∃ job, db'.ingestJobs.lookup id = some job ∧ job.isPending = false
  others : ∀ id', id' ≠ id → db'.ingestJobs.lookup id' = db.ingestJobs.lookup id' ∨
    (db.ingestJobs.lookup id' = none ∧ ∃ job, db'.ingestJobs.lookup id' = some job ∧ job.isPending ∧
      (IsArticleRuleJob id' job ∨ ∃ last, page.getLast? = some last ∧ id' = .fanoutContinuation id last ∧
        job.item = .fanOut source r (some last)))
  continued : ∀ last, page.getLast? = some last → ∃ job,
    db'.ingestJobs.lookup (.fanoutContinuation id last) = some job ∧ job.item = .fanOut source r (some last)

theorem FanoutStep.effect {id : JobId} {after : Option SubscriptionId} {job : Job} (hk : KeyedRows db)
    (hstep : FanoutStep P limits cfg r id db db') (hjob : db.ingestJobs.lookup id = some job)
    (hitem : job.item = .fanOut source r after) :
    StepEffect db source r id (db.page source after limits.fanoutBatch) db' := by
  obtain ⟨job', source', after', token, deadline, calls, now, done, d₁, hjob', -, hitem', hrun, hdone⟩ := hstep
  rw [hjob] at hjob'
  cases hjob'
  rw [hitem] at hitem'
  cases hitem'
  have he : FanoutEffect (db.setJob id (job.leasedBy token deadline))
      { jobId := id, item := job.item, token, deadline, attempt := job.attempt } source r
      (db.page source after limits.fanoutBatch) d₁ := fanout_effect (hk.congr rfl) hitem hrun
  obtain ⟨row, hrow, -, -, rfl⟩ := complete_ok hdone
  have hlease : d₁.ingestJobs.lookup id = some (job.leasedBy token deadline) := by
    refine he.jobs.lookup ?_
    rw [Db.setJob, Table.lookup_insert_if, if_pos rfl]
  rw [hlease] at hrow
  cases hrow
  constructor
  case audience => exact he.audience
  case linked => exact he.linked
  case completed =>
    refine ⟨_, by rw [Db.setJob, Table.lookup_insert_if, if_pos rfl], ?_⟩
    have hrec : (job.leasedBy token deadline).item.isRecurring = false := by
      show job.item.isRecurring = false
      rw [hitem]
      rfl
    simp [Job.finished, hrec, Job.isPending]
  case others =>
    intro id' hne
    rw [Db.setJob, Table.lookup_insert_if, if_neg hne]
    rcases he.jobs id' with e | ⟨hn, item, ms, origin, hA, hj⟩
    · rw [e, Db.setJob, Table.lookup_insert_if, if_neg hne]
      exact .inl rfl
    · rw [Db.setJob, Table.lookup_insert_if, if_neg hne] at hn
      refine .inr ⟨hn, _, hj, rfl, ?_⟩
      rcases hA with hA | ⟨last, hlast, src, rec, a, hli, hid, hji⟩
      · exact .inl hA
      · rw [show job.item = .fanOut source r after from hitem] at hli
        cases hli
        exact .inr ⟨last, hlast, hid, hji⟩
  case continued =>
    intro last hlast
    obtain ⟨j, hj, hji⟩ := he.continued last hlast
    refine ⟨j, ?_, hji⟩
    rw [Db.setJob, Table.lookup_insert_if, if_neg, hj]
    intro heq
    have := congrArg sizeOf heq
    simp only [JobId.fanoutContinuation.sizeOf_spec] at this
    omega

/-- The chain after one step: it stands at the last subscription of the page, or nothing is pending. -/
theorem Chain.step {id : JobId} {after : Option SubscriptionId} (h : Chain db source r id after)
    (he : StepEffect db source r id (db.page source after limits.fanoutBatch) db') :
    ((db.page source after limits.fanoutBatch).getLast? = none ∧
      ∀ id' job, db'.ingestJobs.lookup id' = some job → job.item.fansOut r → ¬ job.isPending) ∨
    ∃ last, (db.page source after limits.fanoutBatch).getLast? = some last ∧
      Chain db' source r (.fanoutContinuation id last) (some last) := by
  -- a pending fan-out job after the step is the continuation
  have hpending : ∀ id' job, db'.ingestJobs.lookup id' = some job → job.item.fansOut r → job.isPending →
      ∃ last, (db.page source after limits.fanoutBatch).getLast? = some last ∧ id' = .fanoutContinuation id last := by
    intro id' job hj hf hp
    by_cases hid : id' = id
    · subst hid
      obtain ⟨job', hj', hp'⟩ := he.completed
      rw [hj] at hj'
      cases hj'
      rw [hp'] at hp
      cases hp
    · rcases he.others id' hid with e | ⟨-, job', hj', -, ⟨_, _, _, _, _, _, -, hi⟩ | ⟨last, hlast, hid', -⟩⟩
      · rw [e] at hj
        exact absurd (h.only id' job hj hf hp) hid
      · rw [hj] at hj'
        cases hj'
        rw [hi] at hf
        cases hf
      · exact ⟨last, hlast, hid'⟩
  cases hlast : (db.page source after limits.fanoutBatch).getLast? with
  | none =>
    refine .inl ⟨rfl, fun id' job hj hf hp => ?_⟩
    obtain ⟨last, hl, -⟩ := hpending id' job hj hf hp
    rw [hlast] at hl
    cases hl
  | some last =>
    refine .inr ⟨last, rfl, h.keyed.congr he.audience, ?_, fun id' job hj hf hp => ?_, fun id' hc => ?_⟩
    · obtain ⟨job, hj, hi⟩ := he.continued last hlast
      refine ⟨job, hj, ?_, hi⟩
      have hne : JobId.fanoutContinuation id last ≠ id := by
        intro heq
        have := congrArg sizeOf heq
        simp only [JobId.fanoutContinuation.sizeOf_spec] at this
        omega
      rcases he.others _ hne with e | ⟨-, job', hj', hp, -⟩
      · rw [e, h.fresh (.fanoutContinuation id last) (Or.inl rfl)] at hj
        cases hj
      · rw [hj] at hj'
        cases hj'
        exact hp
    · obtain ⟨last', hl, rfl⟩ := hpending id' job hj hf hp
      rw [hlast] at hl
      cases hl
      rfl
    · have hne : id' ≠ id := by
        rintro rfl
        exact JobId.not_continues_self _ last hc
      rcases he.others id' hne with e | ⟨-, job, -, -, ⟨_, _, _, _, _, _, rfl, -⟩ | ⟨last', hl, rfl, -⟩⟩
      · rw [e]
        exact h.fresh id' (hc.trans rfl)
      · exact hc.elim
      · rw [hlast] at hl
        cases hl
        have hself : (JobId.fanoutContinuation id last).Continues (.fanoutContinuation id last) → False := by
          rintro (heq | hc')
          · have := congrArg sizeOf heq
            simp only [JobId.fanoutContinuation.sizeOf_spec] at this
            omega
          · exact JobId.not_continues_self _ last hc'
        exact (hself hc).elim

theorem page_congr (ha : db'.audience = db.audience) (source : SourceId) :
    db'.linkedSubscriptions source = db.linkedSubscriptions source ∧ db'.takes = db.takes := by
  simp only [Db.audience, Prod.mk.injEq] at ha
  obtain ⟨hw, hs, hss, -⟩ := ha
  refine ⟨?_, funext fun id => ?_⟩
  · simp only [Db.linkedSubscriptions, Db.subscribers, hs, hss]
  · simp only [Db.takes, Db.deliverable, hs, hw]

theorem Drains.eq_of_done (hd : Drains P limits cfg r db db')
    (h : ∀ id job, db.ingestJobs.lookup id = some job → job.item.fansOut r → ¬ job.isPending) : db' = db := by
  cases hd with
  | done => rfl
  | step hstep =>
    obtain ⟨job, source, after, _, _, _, _, _, _, hj, hp, hi, -⟩ := hstep
    exact absurd hp (h _ job hj (by simp [hi, WorkItem.fansOut]))

/-- The links after a chain has been drained: those it had, and those of the pages the reader visits. -/
theorem Drains.linked {id : JobId} {after : Option SubscriptionId} (hd : Drains P limits cfg r db db')
    (hc : Chain db source r id after) (w : WorkspaceId) (t : SubscriptionId) :
    db'.Linked w t r ↔ db.Linked w t r ∨
      (Paging.Visited SubscriptionId.uuid db.takes limits.fanoutBatch (db.linkedSubscriptions source)
        (after.map (·.uuid)) t ∧ db.Takes ⟨w, t⟩) := by
  induction hd generalizing id after with
  | done h =>
    obtain ⟨job, hj, hp, hi⟩ := hc.pending
    exact absurd hp (h id job hj (by simp [hi, WorkItem.fansOut]))
  | @step db d₁ db' id' hstep hd ih =>
    obtain ⟨job, hj, hp, hi⟩ := hc.pending
    have hid : id' = id := by
      obtain ⟨job', source', after', _, _, _, _, _, _, hj', hp', hi', -⟩ := hstep
      exact hc.only id' job' hj' (by simp [hi', WorkItem.fansOut]) hp'
    subst hid
    have he := hstep.effect hc.keyed hj hi
    rw [Paging.visited_step]
    rcases hc.step he with ⟨hlast, hdone⟩ | ⟨last, hlast, hc'⟩
    · rw [hd.eq_of_done hdone, he.linked]
      have hnil : db.page source after limits.fanoutBatch = [] := List.getLast?_eq_none_iff.1 hlast
      unfold Db.page at hnil
      simp [Db.page, hnil]
    · obtain ⟨hl, ht⟩ := page_congr he.audience source
      rw [ih hc', he.linked, hl, ht, takes_congr he.audience]
      unfold Db.page at hlast ⊢
      simp only [hlast, Option.some.injEq, exists_eq_left', true_and, Option.map_some]
      constructor
      · rintro ((h | ⟨h, htk⟩) | ⟨h, htk⟩)
        · exact .inl h
        · exact .inr ⟨.inl h, htk⟩
        · exact .inr ⟨.inr h, htk⟩
      · rintro (h | ⟨h | h, htk⟩)
        · exact .inl (.inl h)
        · exact .inl (.inr ⟨h, htk⟩)
        · exact .inr ⟨h, htk⟩

theorem linkedSubscriptions_sorted (db : Db) (source : SourceId) :
    (db.linkedSubscriptions source).Pairwise fun x y => x.uuid < y.uuid := by
  have hsorted : (db.linkedSubscriptions source).Pairwise fun x y => x.uuid ≤ y.uuid :=
    List.pairwise_insertionSort (fun x y : SubscriptionId => x.uuid ≤ y.uuid) _
  have hnodup : (db.linkedSubscriptions source).Nodup := by
    unfold Db.linkedSubscriptions
    rw [(List.perm_insertionSort _ _).nodup_iff]
    refine List.Nodup.filter _ ?_
    exact db.subscriptionSources.nodup_rows.sublist (List.filter_sublist.map _)
  refine (hsorted.and hnodup).imp fun {x y} h => ?_
  obtain ⟨hle, hne⟩ := h
  refine lt_of_le_of_ne hle fun he => hne ?_
  cases x
  cases y
  simpa using he

/-- Every linked subscription that takes deliveries gets a link and no other subscription does, exactly
if no such subscription without a link stands behind a whole page of subscriptions that take none. -/
theorem fanout_complete_iff {id : JobId} (hstart : Chain db source r id none) (hd : Drains P limits cfg r db db') :
    ((∀ t s, t ∈ db.linkedSubscriptions source → db.subscriptions.lookup t = some s → db.deliverable s = true →
        db'.Linked s.workspaceId t r) ∧
      ∀ t w, db.takes t = false → db'.Linked w t r → db.Linked w t r) ↔
    ∀ t s, t ∈ db.linkedSubscriptions source → db.subscriptions.lookup t = some s → db.deliverable s = true →
      db.Linked s.workspaceId t r ∨
        ¬ Paging.Blocked db.takes limits.fanoutBatch (db.linkedSubscriptions source) t := by
  have hlinked := hd.linked hstart
  have hvisited : ∀ {t}, Paging.Visited SubscriptionId.uuid db.takes limits.fanoutBatch
      (db.linkedSubscriptions source) none t ↔ t ∈ db.linkedSubscriptions source ∧ db.takes t = true ∧
        ¬ Paging.Blocked db.takes limits.fanoutBatch (db.linkedSubscriptions source) t :=
    Paging.visited_iff (linkedSubscriptions_sorted db source)
  simp only [Option.map_none, hvisited] at hlinked
  constructor
  · rintro ⟨hall, -⟩ t s hmem hs hdel
    rcases (hlinked _ _).1 (hall t s hmem hs hdel) with h | ⟨⟨-, -, h⟩, -⟩
    · exact .inl h
    · exact .inr h
  · intro hcond
    refine ⟨fun t s hmem hs hdel => (hlinked _ _).2 ?_, fun t w ht hl => ?_⟩
    · rcases hcond t s hmem hs hdel with h | h
      · exact .inl h
      · exact .inr ⟨⟨hmem, by simp [Db.takes, hs, hdel], h⟩, s, hs, hdel, rfl⟩
    · rcases (hlinked _ _).1 hl with h | ⟨⟨-, ht', -⟩, -⟩
      · exact h
      · rw [ht] at ht'
        cases ht'

end

namespace Sample

def limits : IngestLimits :=
  { initialFeedItems := 1, fanoutBatch := 1, maxInputBytes := 1, initialFeedItems_pos := by decide
    fanoutBatch_pos := by decide, maxInputBytes_pos := by decide }

def config : StoreConfig :=
  { pollInterval := 1000000000, perOriginConcurrency := 1, maxRetryAge := 1000000000, pollInterval_pos := by decide
    perOriginConcurrency_pos := by decide, maxRetryAge_pos := by decide }

def calls : Calls := { clock := fun n => n, newArticle := fun n => ⟨n + 1⟩ }

/-- The small library with a paused subscription in front of the active one. -/
def pausedFirst : Db :=
  { db with
    subscriptions := ((∅ : Table SubscriptionId Subscription).insert ⟨1⟩
      (subscription 1 (.paused { reason := "rest", actor := 1, atTime := 0 }))).insert ⟨2⟩ (subscription 2 .active)
    subscriptionSources := ((∅ : Table SubscriptionId SourceId).insert ⟨1⟩ ⟨1⟩).insert ⟨2⟩ ⟨1⟩ }

/-- One fan-out job of record 1 is claimed, run and completed. -/
def runFanout (d : Db) (id : JobId) (after : Option SubscriptionId) (token : LeaseToken) : Db :=
  let j := (d.ingestJobs.lookup id).getD (job lease.item lease.token)
  (complete config 6 id token).commit ((fanout platform limits calls
    { jobId := id, item := j.item, token, deadline := 1000000000, attempt := j.attempt } ⟨1⟩ ⟨1⟩ after 5).commit
      (d.setJob id (j.leasedBy token 1000000000)))

theorem chain_of_rows {d : Db} (hs : d.subscriptions.All fun id s => s.id = id)
    (hr : d.sourceRecords.All fun id v => v.id = id) (hj : d.ingestJobs.All fun id _ => id = fanoutJob)
    (hp : d.ingestJobs.lookup fanoutJob = some (job lease.item lease.token)) : Chain d ⟨1⟩ ⟨1⟩ fanoutJob none := by
  refine ⟨⟨hs, hr⟩, ⟨_, hp, rfl, rfl⟩, fun id' j h _ _ => hj id' j h, fun id' hc => ?_⟩
  cases h : d.ingestJobs.lookup id' with
  | none => rfl
  | some j =>
    rw [hj id' j h] at hc
    exact hc.elim

end Sample

/-- A page of one subscription that happens to be paused ends the fan-out in front of an active one. -/
theorem fanout_misses_active : ∃ db',
    Chain Sample.pausedFirst ⟨1⟩ ⟨1⟩ Sample.fanoutJob none ∧
    Drains Sample.platform Sample.limits Sample.config ⟨1⟩ Sample.pausedFirst db' ∧
    (⟨2⟩ : SubscriptionId) ∈ Sample.pausedFirst.linkedSubscriptions ⟨1⟩ ∧ Sample.pausedFirst.takes ⟨2⟩ = true ∧
    ¬ db'.Linked ⟨1⟩ ⟨2⟩ ⟨1⟩ := by
  have hstep : FanoutStep Sample.platform Sample.limits Sample.config ⟨1⟩ Sample.fanoutJob Sample.pausedFirst _ :=
    ⟨_, ⟨1⟩, none, ⟨1⟩, 1000000000, Sample.calls, 5, 6, _, rfl, rfl, rfl, rfl, rfl⟩
  refine ⟨_, Sample.chain_of_rows ?_ ?_ ?_ rfl, .step hstep (.done ?_), by decide, by decide, ?_⟩
  · rw [Table.all_iff_rows]
    decide
  · rw [Table.all_iff_rows]
    decide
  · rw [Table.all_iff_rows]
    decide
  · refine Table.all_iff_rows.2 ?_
    decide
  · rintro ⟨a, ha⟩
    cases ha

theorem fanout_complete_iff_one : ∃ db',
    Drains Sample.platform Sample.limits Sample.config ⟨1⟩ Sample.db db' ∧ db'.Linked ⟨1⟩ ⟨1⟩ ⟨1⟩ := by
  have hchain : Chain Sample.db ⟨1⟩ ⟨1⟩ Sample.fanoutJob none := by
    refine Sample.chain_of_rows ?_ ?_ ?_ rfl
    all_goals
      rw [Table.all_iff_rows]
      decide
  set mid := Sample.runFanout Sample.db Sample.fanoutJob none ⟨1⟩ with hmid
  set db' := Sample.runFanout mid (.fanoutContinuation Sample.fanoutJob ⟨1⟩) (some ⟨1⟩) ⟨2⟩ with hdb'
  have hfirst : FanoutStep Sample.platform Sample.limits Sample.config ⟨1⟩ Sample.fanoutJob Sample.db mid :=
    ⟨_, ⟨1⟩, none, ⟨1⟩, 1000000000, Sample.calls, 5, 6, _, rfl, rfl, rfl, rfl, rfl⟩
  have hsecond : FanoutStep Sample.platform Sample.limits Sample.config ⟨1⟩
      (.fanoutContinuation Sample.fanoutJob ⟨1⟩) mid db' :=
    ⟨_, ⟨1⟩, some ⟨1⟩, ⟨2⟩, 1000000000, Sample.calls, 5, 6, _, rfl, rfl, rfl, rfl, rfl⟩
  have hdrain : Drains Sample.platform Sample.limits Sample.config ⟨1⟩ Sample.db db' := by
    refine .step hfirst (.step hsecond (.done (Table.all_iff_rows.2 ?_)))
    rw [hdb', hmid]
    decide
  refine ⟨db', hdrain, ((fanout_complete_iff hchain hdrain).2 ?_).1 ⟨1⟩ (Sample.subscription 1 .active) (by decide)
    (by decide) (by decide)⟩
  rintro t s hmem - -
  refine .inr ?_
  rintro ⟨front, window, rest, hl, hlen, -, hrest⟩
  have hone : Sample.db.linkedSubscriptions ⟨1⟩ = [⟨1⟩] := by decide
  rw [hone] at hl
  have := congrArg List.length hl
  have hpos := List.length_pos_of_mem hrest
  simp only [List.length_append, List.length_cons, List.length_nil] at this
  have hb : window.length = 1 := hlen
  omega

end Inoreader
