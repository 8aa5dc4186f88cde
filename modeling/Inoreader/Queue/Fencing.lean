import Inoreader.Library.Run
import Inoreader.Queue.Invariant

/-!
# Lease fencing

Every statement of a claim keeps the invariant of the queue, and so does every run. The fence follows:
the row of a job carries the token of its latest claim only, and every call of a worker looks for its
own token there.
-/

namespace Inoreader
open Lib Tx

section
variable {P : Platform} {cfg : StoreConfig} {w w' : QueueWorld} {db db' : Db} {c : ClaimTx} {token : LeaseToken}

/-! ## The end of a claim -/

theorem ageOut_ok {now failedAt : DateTime} {id : JobId} {row : Job} {u : Unit}
    (h : ageOut cfg now failedAt id row db = .ok (u, db')) :
    db'.ingestJobs = db.ingestJobs.insert id (row.agedOut (millis (now + cfg.pollInterval))) ∧
      db'.sources = db.sources := by
  unfold ageOut at h
  rw [bind_run, modify_run] at h
  cases hs : row.item.workSource with
  | none =>
    simp only [hs] at h
    cases h
    exact ⟨rfl, rfl⟩
  | some source =>
    simp only [hs] at h
    have hj := recordSourceFailure_keeps (f := Db.ingestJobs) (fun _ _ => rfl) (fun _ _ => rfl) _ _ _ _ _ _ h
    have hk := recordSourceFailure_keeps (f := Db.sources) (fun _ _ => rfl) (fun _ _ => rfl) _ _ _ _ _ _ h
    exact ⟨hj, hk⟩

theorem ageLoop_ok {now failedAt : DateTime} {rows : List (JobId × Job)} {u : Unit}
    (h : loop (fun _ e => ageOut cfg now failedAt e.1 e.2) () rows db = .ok (u, db')) :
    db'.ingestJobs = rows.foldl (fun t e => t.insert e.1 (e.2.agedOut (millis (now + cfg.pollInterval)))) db.ingestJobs ∧
      db'.sources = db.sources := by
  induction rows generalizing db with
  | nil =>
    cases h
    exact ⟨rfl, rfl⟩
  | cons e rows ih =>
    rw [loop] at h
    obtain ⟨_, d, h₁, h₂⟩ := bind_ok.1 h
    obtain ⟨hj, hs⟩ := ageOut_ok h₁
    obtain ⟨hj', hs'⟩ := ih h₂
    exact ⟨by rw [hj', hj]; rfl, hs'.trans hs⟩

/-- A claim that commits writes its view and then the lease. -/
theorem writes_ok {clock : DateTime} {leased : Option (JobId × Job)} {u : Unit}
    (h : c.writes cfg token clock leased db = .ok (u, db')) :
    ∃ d, d.ingestJobs = (c.view cfg db).ingestJobs ∧ d.sources = db.sources ∧
      db' = match leased with
        | some row => d.setJob row.1 (row.2.leasedBy token c.leaseUntil)
        | none => d := by
  unfold ClaimTx.writes at h
  obtain ⟨_, d, h₁, h₂⟩ := bind_ok.1 h
  obtain ⟨hj, hs⟩ := ageLoop_ok h₁
  refine ⟨d, hj, hs, ?_⟩
  cases leased with
  | none => cases h₂; rfl
  | some row => cases h₂; rfl

theorem view_of_notMem {id : JobId} (h : ∀ e ∈ c.aged, e.1 ≠ id) :
    (c.view cfg db).ingestJobs.lookup id = db.ingestJobs.lookup id := by
  rw [view_lookup, List.find?_eq_none.2]
  · rfl
  · intro e he
    simpa using h e (List.mem_reverse.1 he)

/-- When a claim ends, what it aged out is visible and its locks are gone. -/
theorem QueueInv.endAged (h : QueueInv P cfg w) (hc : w.claims.lookup token = some c)
    (hj : db'.ingestJobs = (c.view cfg w.db).ingestJobs) (hs : db'.sources = w.db.sources) :
    QueueInv P cfg
      { w with db := db', claims := w.claims.erase token, log := c.events token none ++ w.log } := by
  have hok := h.claim token c hc
  suffices hfollow : Follow { w with claims := w.claims.erase token }
      { w with db := db', claims := w.claims.erase token, log := c.events token none ++ w.log } from
    (h.endClaim token).follow hfollow
  refine ⟨fun id j' hj' => ?_, fun id j hid hl => ?_, fun s d hd => ⟨d, by rw [hs]; exact hd, rfl⟩, rfl, rfl, le_rfl,
    c.events token none, rfl, ?_⟩
  · rw [hj] at hj'
    obtain ⟨j, hj₀, hf, -⟩ := hok.view_follows hj' (millis w.clock)
    exact .inl ⟨j, hj₀, hf⟩
  · obtain ⟨t, c', hc', hid'⟩ := isLocked_iff.1 hl
    rw [Table.lookup_erase_if] at hc'
    split at hc'
    · cases hc'
    · rename_i hne
      show db'.ingestJobs.lookup id = some j
      rw [hj, view_of_notMem]
      · exact hid
      · rintro e he rfl
        exact hne (h.rowLocks t token c' c e.1 hc' hc hid' (hok.aged e he).1)
  · simp [ClaimTx.events]

theorem QueueInv.commitClaim (h : QueueInv P cfg w) (hc : w.claims.lookup token = some c)
    {leased : Option (JobId × Job)} (hleased : ∀ id j, leased = some (id, j) → c.phase = .lease id j) :
    QueueInv P cfg (w.commitClaim cfg token c leased) := by
  unfold QueueWorld.commitClaim
  cases hw : c.writes cfg token w.clock leased w.db with
  | error e => exact h.endClaim token
  | ok r =>
    obtain ⟨u, db'⟩ := r
    obtain ⟨d, hj, hs, rfl⟩ := writes_ok hw
    have haged := h.endAged hc hj hs
    cases leased with
    | none => exact haged
    | some row =>
      obtain ⟨id, j⟩ := row
      have hphase := hleased id j rfl
      have hok := h.claim token c hc
      have hrow : c.phase.row = some (id, j) := by rw [hphase]; rfl
      obtain ⟨hid, hv⟩ := hok.row id j hrow
      have hback : ∀ {i : JobId} {i' : Job}, d.ingestJobs.lookup i = some i' → i'.activeLease (millis c.now) = true →
          ∃ k, w.db.ingestJobs.lookup i = some k ∧ k.activeLease (millis c.now) = true ∧ i'.item = k.item ∧
            i'.originKey = k.originKey := by
        intro i i' hi ha
        rw [hj] at hi
        obtain ⟨k, hk, hf, -⟩ := hok.view_follows hi (millis c.now)
        exact ⟨k, hk, hf.active _ le_rfl ha, hf.item, hf.originKey⟩
      refine haged.lease (by rw [hj]; exact hv) hok.now_le ?_ (h.claimToken token c hc) ?_ ?_ ?_ ?_ ?_
      · rw [Bool.eq_false_iff, Ne, isLocked_iff]
        rintro ⟨t, c', hc', hid'⟩
        rw [Table.lookup_erase_if] at hc'
        split at hc'
        · cases hc'
        · rename_i hne
          exact hne (h.rowLocks t token c' c id hc' hc hid' hid)
      · rw [Table.lookup_erase_if, if_pos rfl]
      · intro i t n hm ht
        rcases List.mem_append.1 hm with hm | hm
        · simp [ClaimTx.events] at hm
        · have hn := (h.logToken i t n hm).2
          rw [ht, hc] at hn
          cases hn
      · intro t c' hc' ha
        rw [Table.lookup_erase_if] at hc'
        split at hc'
        · cases hc'
        · rename_i hne
          have hres := hok.reserved id j hrow (by rw [hphase]; rfl)
          exact hne (h.advisoryLocks t token c' c _ hc' hc ha hres)
      · refine lt_of_le_of_lt (Table.count_le_of_keys fun i i' hi hp => ?_) (hok.room id j hrow (by rw [hphase]; rfl))
        rw [Bool.and_eq_true] at hp
        obtain ⟨k, hk, ha, -, ho⟩ := hback hi hp.1
        exact ⟨k, hk, by rw [Bool.and_eq_true, ← ho]; exact ⟨ha, hp.2⟩⟩
      · intro i i' s hi ha hs'
        obtain ⟨k, hk, hka, hki, -⟩ := hback hi ha
        exact hok.free id j hphase i k s hk hka (hki ▸ hs')

/-! ## The statements of a claim -/

theorem selectClaim_spec {nowMs : Int} {excluded : List OriginKey} {limit : Nat} {locked : List JobId}
    {row : JobId × Job} (h : db.selectClaim P nowMs excluded limit locked = some row) :
    db.ingestJobs.lookup row.1 = some row.2 ∧ row.2.claimable nowMs = true ∧ row.1 ∉ locked := by
  unfold Db.selectClaim at h
  have hm := (List.mem_insertionSort _).1 (List.mem_of_mem_head? h)
  obtain ⟨hrow, hp⟩ := List.mem_filter.1 hm
  simp only [Bool.and_eq_true, Bool.not_eq_true', List.contains_eq_mem, decide_eq_false_iff_not] at hp
  exact ⟨Table.mem_rows.1 hrow, hp.1.1.1.1, hp.2⟩

/-- The facts that stay when a claim goes on to a phase that promises nothing. -/
theorem ClaimOk.toSelect {clock : DateTime} (h : ClaimOk P cfg db clock c) (excluded : List OriginKey) :
    ClaimOk P cfg db clock { c with excluded, phase := .select } :=
  { h with
    row := fun _ _ e => nomatch e
    reserved := fun _ _ e => nomatch e
    room := fun _ _ e => nomatch e
    free := fun _ _ e => nomatch e }

theorem QueueInv.stepClaim (h : QueueInv P cfg w) (hc : w.claims.lookup token = some c) :
    QueueInv P cfg (w.stepClaim P cfg token c) := by
  have hok := h.claim token c hc
  -- a step that takes no new lock
  have hgo : ∀ {c' : ClaimTx}, c'.locked = c.locked → c'.advisory = c.advisory → ClaimOk P cfg w.db w.clock c' →
      QueueInv P cfg (w.setClaim token c') := by
    intro c' hl ha hok'
    exact h.setClaim hc hok' (fun id hid => .inl (hl ▸ hid)) (fun a hm => .inl (ha ▸ hm))
  have hskip : ∀ origin, QueueInv P cfg
      (w.setClaim token { c with excluded := c.excluded ++ [origin], phase := .select }) :=
    fun origin => hgo rfl rfl (hok.toSelect _)
  unfold QueueWorld.stepClaim
  cases hphase : c.phase with
  | select =>
    simp only
    cases hsel : (c.view cfg w.db).selectClaim P (millis c.now) c.excluded cfg.perOriginConcurrency
        (w.lockedByOthers token) with
    | none => exact h.commitClaim hc (fun _ _ e => nomatch e)
    | some row =>
      obtain ⟨id, j⟩ := row
      obtain ⟨hv, hcl, hnot⟩ := selectClaim_spec hsel
      refine h.setClaim hc ?_ (fun i hi => ?_) (fun a ha => .inl ha)
      · refine { hok with
          locked := ?_, row := ?_
          aged := fun e he => ⟨List.mem_cons_of_mem _ (hok.aged e he).1, (hok.aged e he).2⟩
          reserved := fun _ _ _ e => nomatch e
          room := fun _ _ _ e => nomatch e
          free := fun _ _ e => nomatch e }
        · intro i hi
          rcases List.mem_cons.1 hi with rfl | hi
          · obtain ⟨j₀, hj₀, -, e | hl⟩ := hok.view_follows hv 0
            · exact ⟨j₀, hj₀, e ▸ Job.not_active_of_claimable hcl⟩
            · exact hok.locked i hl
          · exact hok.locked i hi
        · intro i i' hi
          cases hi
          exact ⟨List.mem_cons_self, hv⟩
      · rcases List.mem_cons.1 hi with rfl | hi
        · exact .inr hnot
        · exact .inl hi
  | reserve id j =>
    obtain ⟨hid, hv⟩ := hok.row id j (by rw [hphase]; rfl)
    simp only
    split
    · exact hskip _
    · rename_i hfree
      refine h.setClaim hc ?_ (fun i hi => .inl hi) (fun a ha => ?_)
      · refine { hok with
          row := ?_, reserved := ?_
          room := fun _ _ _ e => nomatch e
          free := fun _ _ e => nomatch e }
        · intro i i' hi
          cases hi
          exact ⟨hid, hv⟩
        · intro i i' hi _
          cases hi
          exact List.mem_cons_self
      · rcases List.mem_cons.1 ha with rfl | ha
        · exact .inr hfree
        · exact .inl ha
  | age id j =>
    obtain ⟨hid, hv⟩ := hok.row id j (by rw [hphase]; rfl)
    have hres := hok.reserved id j (by rw [hphase]; rfl) (by rw [hphase]; rfl)
    simp only
    split
    · refine hgo rfl rfl { (hok.toSelect c.excluded) with aged := ?_, row := fun _ _ e => nomatch e }
      intro e he
      rcases List.mem_append.1 he with he | he
      · exact hok.aged e he
      · rw [List.mem_singleton] at he
        subst he
        obtain ⟨j₀, hj₀, hf, -⟩ := hok.view_follows hv 0
        exact ⟨hid, j₀, hj₀, hf.item, hf.originKey⟩
    · refine hgo rfl rfl { hok with
        row := ?_, reserved := ?_
        room := fun _ _ _ e => nomatch e
        free := fun _ _ e => nomatch e }
      · intro i i' hi
        cases hi
        exact ⟨hid, hv⟩
      · intro i i' hi _
        cases hi
        exact hres
  | count id j =>
    obtain ⟨hid, hv⟩ := hok.row id j (by rw [hphase]; rfl)
    have hres := hok.reserved id j (by rw [hphase]; rfl) (by rw [hphase]; rfl)
    simp only
    split
    · rename_i hroom
      refine hgo rfl rfl { hok with
        row := ?_, reserved := ?_, room := ?_
        free := fun _ _ e => nomatch e }
      · intro i i' hi
        cases hi
        exact ⟨hid, hv⟩
      · intro i i' hi _
        cases hi
        exact hres
      · intro i i' hi _
        cases hi
        have hlt : (c.view cfg w.db).activeLeases j.originKey (millis c.now) < cfg.perOriginConcurrency := by
          simpa [originHasCapacity] using hroom
        refine lt_of_le_of_lt (Table.count_le_of_keys fun k k' hk hp => ?_) hlt
        exact ⟨k', hok.view_active hk (Bool.and_eq_true_iff.1 hp).1, hp⟩
    · exact hskip _
  | busy id j =>
    obtain ⟨hid, hv⟩ := hok.row id j (by rw [hphase]; rfl)
    have hres := hok.reserved id j (by rw [hphase]; rfl) (by rw [hphase]; rfl)
    have hroom := hok.room id j (by rw [hphase]; rfl) (by rw [hphase]; rfl)
    simp only
    split
    · exact hskip _
    · rename_i hbusy
      refine hgo rfl rfl { hok with row := ?_, reserved := ?_, room := ?_, free := ?_ }
      · intro i i' hi
        cases hi
        exact ⟨hid, hv⟩
      · intro i i' hi _
        cases hi
        exact hres
      · intro i i' hi _
        cases hi
        exact hroom
      · intro i i' hi k k' s hk ha hs hs'
        cases hi
        refine hbusy (List.any_eq_true.2 ⟨(k, k'), Table.mem_rows.2 (hok.view_active hk ha), ?_⟩)
        simp [ha, hs, hs']
  | lease id j =>
    refine h.commitClaim hc fun i i' e => ?_
    cases e
    exact hphase

/-! ## Steps and runs -/

theorem QueueInv.step {op : QueueOp} (h : QueueInv P cfg w) (hstep : w.step P cfg op = some w') : QueueInv P cfg w' := by
  cases hop : op.isClaim with
  | false => exact h.follow (quiet_of_step hop hstep).follow
  | true =>
    cases op with
    | tick _ | call _ _ | enqueue _ _ | reprioritize _ | other _ => cases hop
    | beginClaim t leaseUntil =>
      simp only [QueueWorld.step] at hstep
      split at hstep
      · cases hstep
      · rename_i hfresh
        cases hstep
        refine h.putClaim (fun t ht => List.mem_cons_of_mem _ ht) List.mem_cons_self ?_ ?_ ?_ ?_
        · rintro t' ht' - rfl
          exact hfresh ht'
        · exact
            { now_le := le_rfl
              locked := by simp
              aged := by simp
              row := by simp [ClaimPhase.row]
              reserved := by simp [ClaimPhase.row]
              room := by simp [ClaimPhase.row]
              free := by simp }
        · simp
        · simp
    | stepClaim t =>
      simp only [QueueWorld.step, Option.map_eq_some_iff] at hstep
      obtain ⟨c, hc, rfl⟩ := hstep
      exact h.stepClaim hc
    | abortClaim t =>
      cases hstep
      exact h.endClaim t

theorem QueueWorld.Start.inv (h : w.Start) : QueueInv P cfg w := by
  have hjobs : ∀ id, w.db.ingestJobs.lookup id = none := fun id => by rw [h.jobs]; exact Table.lookup_empty id
  have hclaims : ∀ t, w.claims.lookup t = none := fun t => by rw [h.claims]; exact Table.lookup_empty t
  constructor
  case claim => intro t c hc; rw [hclaims] at hc; cases hc
  case claimToken => intro t c hc; rw [hclaims] at hc; cases hc
  case rowToken => intro id j t hj; rw [hjobs] at hj; cases hj
  case logToken => intro id t n hm; rw [h.log] at hm; cases hm
  case rowLocks => intro t t' c c' id hc; rw [hclaims] at hc; cases hc
  case advisoryLocks => intro t t' c c' id hc; rw [hclaims] at hc; cases hc
  case origin => intro id j hj; rw [hjobs] at hj; cases hj
  case cap =>
    intro origin
    unfold Db.activeLeases
    rw [h.jobs]
    exact Nat.zero_le _
  case single => intro id id' j j' s hj; rw [hjobs] at hj; cases hj
  case superseded => intro id t t' n n' j _ hj; rw [hjobs] at hj; cases hj

theorem QueueInv.run {ops : List QueueOp} (h : QueueInv P cfg w) (hrun : run (QueueWorld.step P cfg) w ops = some w') :
    QueueInv P cfg w' :=
  run_inv' (QueueInv P cfg) (fun _ _ _ h hstep => h.step hstep) h hrun

/-- A call that changes anything finds the caller's token on the row of its job. -/
theorem call_token {lease : LeasedWork} {call : WorkerCall} (hstep : w.step P cfg (.call lease call) = some w')
    (hne : w'.db ≠ w.db) : ∃ j, w.db.ingestJobs.lookup lease.jobId = some j ∧ j.leaseToken = some lease.token := by
  simp only [QueueWorld.step] at hstep
  split at hstep
  · cases hstep
  · cases htx : call.tx P cfg lease w.clock w.db with
    | error e =>
      rw [htx] at hstep
      cases hstep
      exact absurd rfl hne
    | ok r =>
      obtain ⟨u, d⟩ := r
      rw [htx] at hstep
      cases hstep
      cases hc : call.isCommit with
      | true =>
        have hcur := WorkerCall.fenced hc htx hne
        unfold Db.leaseCurrent at hcur
        rw [Option.any_eq_true] at hcur
        obtain ⟨j, hj, hh⟩ := hcur
        unfold Job.holds at hh
        simp only [Bool.and_eq_true, beq_iff_eq] at hh
        exact ⟨j, hj, hh.1.2⟩
      | false =>
        obtain ⟨j, -, hj, -, ht, -⟩ := WorkerCall.changes hc htx w.log
        exact ⟨j, hj, ht⟩

theorem call_current {lease : LeasedWork} {call : WorkerCall} (hc : call.isCommit)
    (hstep : w.step P cfg (.call lease call) = some w') (hne : w'.db ≠ w.db) : w.db.leaseCurrent lease w.clock := by
  simp only [QueueWorld.step] at hstep
  split at hstep
  · cases hstep
  · cases htx : call.tx P cfg lease w.clock w.db with
    | error e =>
      rw [htx] at hstep
      cases hstep
      exact absurd rfl hne
    | ok r =>
      rw [htx] at hstep
      cases hstep
      exact WorkerCall.fenced hc htx hne

end

namespace Sample

def storeConfig : StoreConfig :=
  { pollInterval := 60000000000, perOriginConcurrency := 1, maxRetryAge := 3600000000000
    pollInterval_pos := by decide, perOriginConcurrency_pos := Nat.one_pos, maxRetryAge_pos := by decide }

def queue : QueueWorld :=
  { db := { db with ingestJobs := ∅ }, clock := 0, claims := ∅, usedTokens := [], log := [] }

theorem queue_start : queue.Start := ⟨rfl, rfl, rfl⟩

/-- One worker's claim from its first statement to its commit. -/
def claim (uuid : Nat) (leaseUntil : DateTime) : List QueueOp :=
  .beginClaim ⟨uuid⟩ leaseUntil :: List.replicate 6 (.stepClaim ⟨uuid⟩)

/-- The lease of the first worker expires and a second worker claims the job. -/
def reclaiming : List QueueOp :=
  .enqueue (.random 1) (.pollSource ⟨1⟩) :: claim 1 1000000000 ++ .tick 2000000000 :: claim 2 3000000000

def firstLease : LeasedWork :=
  { jobId := .random 1, item := .pollSource ⟨1⟩, token := ⟨1⟩, deadline := 1000000000, attempt := 0 }

def reclaimed : QueueWorld := (run (QueueWorld.step platform storeConfig) queue reclaiming).getD queue

end Sample

end Inoreader
