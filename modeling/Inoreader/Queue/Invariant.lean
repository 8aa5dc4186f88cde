import Inoreader.Queue.Rows

/-!
# The invariant of the queue

A claim decides by counting rows and leases later, so between the two nothing may be leased that it
counted on. What keeps this true: a claim holds the advisory lock of its origin from before the count
until it commits, a lease that has expired by a claim's clock cannot be renewed any more, and all
collection jobs of one source have one origin.
-/

namespace Inoreader
open Lib Tx

/-! ## Rows -/

namespace Job
variable {j j' : Job} {m n : Int}

theorem activeLease_iff : j.activeLease m = true ↔ j.status = .leased ∧ ∃ d, j.leaseDeadlineMs = some d ∧ m ≤ d := by
  simp [activeLease, Option.any_eq_true]

theorem activeLease_anti (h : j.activeLease n = true) (hmn : m ≤ n) : j.activeLease m = true := by
  obtain ⟨hs, d, hd, hn⟩ := activeLease_iff.1 h
  exact activeLease_iff.2 ⟨hs, d, hd, hmn.trans hn⟩

theorem activeLease_of_not_leased (h : j.status ≠ .leased) : j.activeLease m = false := by
  simp [activeLease, h]

theorem not_active_of_claimable (h : j.claimable m = true) : j.activeLease m = false := by
  unfold claimable at h
  rw [Bool.or_eq_true] at h
  rcases h with h | h
  · refine activeLease_of_not_leased fun hs => ?_
    rw [hs] at h
    cases h
  · cases hd : j.leaseDeadlineMs with
    | none => simp [activeLease, hd]
    | some d =>
      have hlt : d < m := by
        rw [hd] at h
        simpa using (Bool.and_eq_true_iff.1 h).2
      have hle : ¬ m ≤ d := by omega
      simp [activeLease, hd, hle]

theorem agedOut_item (j : Job) (next : Int) : (j.agedOut next).item = j.item := by unfold agedOut; split <;> rfl

theorem agedOut_originKey (j : Job) (next : Int) : (j.agedOut next).originKey = j.originKey := by
  unfold agedOut; split <;> rfl

theorem agedOut_leaseToken (j : Job) (next : Int) : (j.agedOut next).leaseToken = none := by
  unfold agedOut; split <;> rfl

theorem agedOut_status (j : Job) (next : Int) : (j.agedOut next).status ≠ .leased := by
  unfold agedOut; split <;> simp

/-- The row `j'` may stand where `j` stood at the time `m`: no lease is in it that was not in `j`. -/
structure Follows (m : Int) (j j' : Job) : Prop where
  item : j'.item = j.item
  originKey : j'.originKey = j.originKey
  leaseToken : j'.leaseToken = j.leaseToken ∨ j'.leaseToken = none
  active : ∀ n ≤ m, j'.activeLease n = true → j.activeLease n = true

theorem Follows.refl (m : Int) (j : Job) : j.Follows m j := ⟨rfl, rfl, .inl rfl, fun _ _ h => h⟩

theorem Follows.of_not_leased (hi : j'.item = j.item) (ho : j'.originKey = j.originKey)
    (ht : j'.leaseToken = j.leaseToken ∨ j'.leaseToken = none) (hs : j'.status ≠ .leased) : j.Follows m j' := by
  refine ⟨hi, ho, ht, fun n _ h => ?_⟩
  rw [activeLease_of_not_leased hs] at h
  cases h

theorem millis_le_sqlMillis (t : DateTime) : millis t ≤ sqlMillis t := by
  unfold millis sqlMillis
  omega

theorem millis_mono {s t : DateTime} (h : s ≤ t) : millis s ≤ millis t := Int.ediv_le_ediv (by decide) h

theorem Change.follows {cfg : StoreConfig} {now : DateTime} {log log' : List QueueEvent} {id : JobId}
    (h : j.Change cfg now log log' id j') : j.Follows (millis now) j' := by
  cases h with
  | reprioritized => exact ⟨rfl, rfl, .inl rfl, fun _ _ h => h⟩
  | renewed token deadline hh =>
    refine ⟨rfl, rfl, .inl rfl, fun n hn _ => ?_⟩
    unfold holds at hh
    simp only [Bool.and_eq_true, beq_iff_eq, Option.any_eq_true, decide_eq_true_eq] at hh
    obtain ⟨⟨hs, -⟩, d, hd, hle⟩ := hh
    have := millis_le_sqlMillis now
    exact activeLease_iff.2 ⟨hs, d, hd, by omega⟩
  | retried token runAt diagnostic hh => exact .of_not_leased rfl rfl (.inl rfl) (by simp [afterUpdate, leaseUpdated])
  | failed token runAt diagnostic hh hlog =>
    unfold afterUpdate
    by_cases hr : j.item.isRecurring = true
    · rw [if_pos ⟨rfl, hr⟩]
      exact .of_not_leased rfl rfl (.inr rfl) (by simp [rescheduled])
    · rw [if_neg fun h => hr h.2]
      exact .of_not_leased rfl rfl (.inl rfl) (by simp [leaseUpdated])
  | finished token hs ht =>
    unfold Job.finished
    split
    · exact .of_not_leased rfl rfl (.inr rfl) (by simp)
    · exact .of_not_leased rfl rfl (.inr rfl) (by simp)

end Job

/-! ## Claims in progress -/

namespace ClaimPhase

def row : ClaimPhase → Option (JobId × Job)
  | .select => none
  | .reserve id j | .age id j | .count id j | .busy id j | .lease id j => some (id, j)

/-- The advisory lock of the row's origin is held. -/
def reserved : ClaimPhase → Bool
  | .select | .reserve _ _ => false
  | _ => true

/-- The leases of the row's origin have been counted under the lock. -/
def counted : ClaimPhase → Bool
  | .busy _ _ | .lease _ _ => true
  | _ => false

end ClaimPhase

section
variable (P : Platform) (cfg : StoreConfig)

/-- What a claim in progress relies on in the committed tables. -/
structure ClaimOk (db : Db) (clock : DateTime) (c : ClaimTx) : Prop where
  now_le : c.now ≤ clock
  locked : ∀ id ∈ c.locked, ∃ j, db.ingestJobs.lookup id = some j ∧ j.activeLease (millis c.now) = false
  aged : ∀ e ∈ c.aged, e.1 ∈ c.locked ∧
    ∃ j, db.ingestJobs.lookup e.1 = some j ∧ e.2.item = j.item ∧ e.2.originKey = j.originKey
  row : ∀ id j, c.phase.row = some (id, j) → id ∈ c.locked ∧ (c.view cfg db).ingestJobs.lookup id = some j
  reserved : ∀ id j, c.phase.row = some (id, j) → c.phase.reserved → P.hashtext j.originKey ∈ c.advisory
  room : ∀ id j, c.phase.row = some (id, j) → c.phase.counted →
    db.activeLeases j.originKey (millis c.now) < cfg.perOriginConcurrency
  free : ∀ id j, c.phase = .lease id j → ∀ id' j' s, db.ingestJobs.lookup id' = some j' →
    j'.activeLease (millis c.now) = true → j'.item.collectSource = some s → j.item.collectSource ≠ some s

/-- At most one unexpired lease collects a source. -/
def Db.OneLeasePerSource (db : Db) (nowMs : Int) : Prop :=
  ∀ id id' j j' s, db.ingestJobs.lookup id = some j → db.ingestJobs.lookup id' = some j' →
    j.activeLease nowMs = true → j'.activeLease nowMs = true → j.item.collectSource = some s →
    j'.item.collectSource = some s → id = id'

structure QueueInv (w : QueueWorld) : Prop where
  claim : ∀ t c, w.claims.lookup t = some c → ClaimOk P cfg w.db w.clock c
  claimToken : ∀ t c, w.claims.lookup t = some c → t ∈ w.usedTokens
  rowToken : ∀ id j t, w.db.ingestJobs.lookup id = some j → j.leaseToken = some t →
    t ∈ w.usedTokens ∧ w.claims.lookup t = none
  logToken : ∀ id t n, .claimed id t n ∈ w.log → t ∈ w.usedTokens ∧ w.claims.lookup t = none
  rowLocks : ∀ t t' c c' id, w.claims.lookup t = some c → w.claims.lookup t' = some c' → id ∈ c.locked →
    id ∈ c'.locked → t = t'
  advisoryLocks : ∀ t t' c c' h, w.claims.lookup t = some c → w.claims.lookup t' = some c' → h ∈ c.advisory →
    h ∈ c'.advisory → t = t'
  origin : ∀ id j, w.db.ingestJobs.lookup id = some j → w.db.OriginOk j
  cap : ∀ origin, w.db.activeLeases origin (millis w.clock) ≤ cfg.perOriginConcurrency
  single : w.db.OneLeasePerSource (millis w.clock)
  /-- The token of a claim that another claim of the job came after is not on the row. -/
  superseded : ∀ id t t' n n' j, [QueueEvent.claimed id t' n', .claimed id t n].Sublist w.log →
    w.db.ingestJobs.lookup id = some j → j.leaseToken ≠ some t

end

section
variable {P : Platform} {cfg : StoreConfig} {w w' : QueueWorld} {db db' : Db} {c : ClaimTx} {token : LeaseToken}

theorem isLocked_iff {id : JobId} : w.isLocked id = true ↔ ∃ t c, w.claims.lookup t = some c ∧ id ∈ c.locked := by
  simp only [QueueWorld.isLocked, List.any_eq_true, List.contains_iff_mem]
  constructor
  · rintro ⟨row, hrow, hid⟩
    exact ⟨row.1, row.2, Table.mem_rows.1 hrow, hid⟩
  · rintro ⟨t, c, hc, hid⟩
    exact ⟨(t, c), Table.mem_rows.2 hc, hid⟩

/-! ## The view of a claim -/

theorem view_lookup (c : ClaimTx) (db : Db) (id : JobId) :
    (c.view cfg db).ingestJobs.lookup id =
      ((c.aged.reverse.find? fun e => e.1 = id).map fun e => e.2.agedOut (millis (c.now + cfg.pollInterval))).or
        (db.ingestJobs.lookup id) :=
  Table.lookup_foldl_insert _ _ _ _ _

theorem view_congr {id : JobId} (h : db'.ingestJobs.lookup id = db.ingestJobs.lookup id) :
    (c.view cfg db').ingestJobs.lookup id = (c.view cfg db).ingestJobs.lookup id := by
  rw [view_lookup, view_lookup, h]

/-- A row of the view is the committed one, or one that the claim locked and aged out. -/
theorem view_cases {id : JobId} {v : Job} (hv : (c.view cfg db).ingestJobs.lookup id = some v) :
    db.ingestJobs.lookup id = some v ∨ ∃ e ∈ c.aged, e.1 = id ∧ v = e.2.agedOut (millis (c.now + cfg.pollInterval)) := by
  rw [view_lookup] at hv
  cases hf : c.aged.reverse.find? fun e => e.1 = id with
  | none =>
    rw [hf] at hv
    exact .inl hv
  | some e =>
    rw [hf] at hv
    cases hv
    have hp := List.find?_some hf
    exact .inr ⟨e, List.mem_reverse.1 (List.mem_of_find?_eq_some hf), by simpa using hp, rfl⟩

theorem ClaimOk.view_follows {clock : DateTime} (h : ClaimOk P cfg db clock c) {id : JobId} {v : Job}
    (hv : (c.view cfg db).ingestJobs.lookup id = some v) (m : Int) :
    ∃ j, db.ingestJobs.lookup id = some j ∧ j.Follows m v ∧ (v = j ∨ id ∈ c.locked) := by
  rcases view_cases hv with hj | ⟨e, he, rfl, rfl⟩
  · exact ⟨v, hj, .refl m v, .inl rfl⟩
  · obtain ⟨hl, j, hj, hi, ho⟩ := h.aged e he
    refine ⟨j, hj, ?_, .inr hl⟩
    exact .of_not_leased ((Job.agedOut_item _ _).trans hi) ((Job.agedOut_originKey _ _).trans ho)
      (.inr (Job.agedOut_leaseToken _ _)) (Job.agedOut_status _ _)

/-- A lease that is unexpired by the claim's clock is in its view. -/
theorem ClaimOk.view_active {clock : DateTime} (h : ClaimOk P cfg db clock c) {id : JobId} {j : Job}
    (hj : db.ingestJobs.lookup id = some j) (ha : j.activeLease (millis c.now) = true) :
    (c.view cfg db).ingestJobs.lookup id = some j := by
  rw [view_lookup]
  cases hf : c.aged.reverse.find? fun e => e.1 = id with
  | none => exact hj
  | some e =>
    have he := List.mem_reverse.1 (List.mem_of_find?_eq_some hf)
    have hid : e.1 = id := by simpa using List.find?_some hf
    obtain ⟨hl, -⟩ := h.aged e he
    rw [hid] at hl
    obtain ⟨j', hj', hn⟩ := h.locked id hl
    rw [hj] at hj'
    cases hj'
    rw [hn] at ha
    cases ha

/-! ## Steps that lease nothing -/

/-- Between `w` and `w'` no lease appears and no row moves that a claim has locked. -/
structure Follow (w w' : QueueWorld) : Prop where
  rows : ∀ id j', w'.db.ingestJobs.lookup id = some j' →
    (∃ j, w.db.ingestJobs.lookup id = some j ∧ j.Follows (millis w.clock) j') ∨
      (w'.db.OriginOk j' ∧ j'.status = .ready ∧ j'.leaseToken = none)
  locked : ∀ id j, w.db.ingestJobs.lookup id = some j → w.isLocked id → w'.db.ingestJobs.lookup id = some j
  sources : ∀ s d, w.db.sources.lookup s = some d → ∃ d', w'.db.sources.lookup s = some d' ∧ d'.url = d.url
  claims : w'.claims = w.claims
  usedTokens : w'.usedTokens = w.usedTokens
  clock : w.clock ≤ w'.clock
  log : ∃ events, w'.log = events ++ w.log ∧ ∀ id t n, QueueEvent.claimed id t n ∉ events

theorem QuietStep.follow (h : QuietStep cfg w w') : Follow w w' := by
  refine ⟨fun id j' hj' => ?_, h.locked, h.sources, h.claims, h.usedTokens, h.clock, ?_⟩
  · rcases h.rows id j' hj' with hj | ⟨-, ho, item, ms, origin, rfl⟩ | ⟨j, hj, -, hc⟩
    · exact .inl ⟨j', hj, .refl _ j'⟩
    · exact .inr ⟨ho, rfl, rfl⟩
    · exact .inl ⟨j, hj, hc.follows⟩
  · rcases h.log with e | ⟨id, t, e⟩
    · exact ⟨[], e, by simp⟩
    · exact ⟨[.failed id t], e, by simp⟩

theorem activeLeases_anti {origin : OriginKey} {m n : Int} (h : m ≤ n) : db.activeLeases origin n ≤ db.activeLeases origin m := by
  refine Table.count_mono fun id j _ hp => ?_
  rw [Bool.and_eq_true] at hp ⊢
  exact ⟨Job.activeLease_anti hp.1 h, hp.2⟩

/-- A lease that is active now was active before, under the same item and origin. -/
theorem Follow.active (h : Follow w w') {n : Int} (hn : n ≤ millis w.clock) {id : JobId} {j' : Job}
    (hj' : w'.db.ingestJobs.lookup id = some j') (ha : j'.activeLease n = true) :
    ∃ j, w.db.ingestJobs.lookup id = some j ∧ j.activeLease n = true ∧ j'.item = j.item ∧ j'.originKey = j.originKey := by
  rcases h.rows id j' hj' with ⟨j, hj, hf⟩ | ⟨-, hs, -⟩
  · exact ⟨j, hj, hf.active n hn ha, hf.item, hf.originKey⟩
  · rw [Job.activeLease_of_not_leased (by simp [hs])] at ha
    cases ha

theorem Follow.activeLeases_le (h : Follow w w') {n : Int} (hn : n ≤ millis w.clock) (origin : OriginKey) :
    w'.db.activeLeases origin n ≤ w.db.activeLeases origin n := by
  refine Table.count_le_of_keys fun id j' hj' hp => ?_
  rw [Bool.and_eq_true] at hp
  obtain ⟨j, hj, ha, -, ho⟩ := h.active hn hj' hp.1
  exact ⟨j, hj, by rw [Bool.and_eq_true, ← ho]; exact ⟨ha, hp.2⟩⟩

theorem ClaimOk.follow {t : LeaseToken} (h : ClaimOk P cfg w.db w.clock c) (hf : Follow w w')
    (hc : w.claims.lookup t = some c) : ClaimOk P cfg w'.db w'.clock c := by
  have hle : millis c.now ≤ millis w.clock := Job.millis_mono h.now_le
  have hkept : ∀ id ∈ c.locked, w'.db.ingestJobs.lookup id = w.db.ingestJobs.lookup id := by
    intro id hid
    obtain ⟨j, hj, -⟩ := h.locked id hid
    rw [hj, hf.locked id j hj (isLocked_iff.2 ⟨t, c, hc, hid⟩)]
  constructor
  case now_le => exact le_trans h.now_le hf.clock
  case locked =>
    intro id hid
    rw [hkept id hid]
    exact h.locked id hid
  case aged =>
    intro e he
    have := h.aged e he
    rw [hkept e.1 this.1]
    exact this
  case row =>
    intro id j hrow
    obtain ⟨hid, hv⟩ := h.row id j hrow
    exact ⟨hid, (view_congr (hkept id hid)).trans hv⟩
  case reserved => exact h.reserved
  case room =>
    intro id j hrow hcount
    exact lt_of_le_of_lt (hf.activeLeases_le hle _) (h.room id j hrow hcount)
  case free =>
    intro id j hphase id' j' s hj' ha hs
    obtain ⟨j₀, hj₀, ha₀, hi, -⟩ := hf.active hle hj' ha
    exact h.free id j hphase id' j₀ s hj₀ ha₀ (hi ▸ hs)

/-- Two claims among events and a log are in the log if no claim is among the events. -/
theorem sublist_of_append {id : JobId} {t t' : LeaseToken} {n n' : DateTime} {events log : List QueueEvent}
    (hev : ∀ id t n, QueueEvent.claimed id t n ∉ events)
    (h : [QueueEvent.claimed id t' n', .claimed id t n].Sublist (events ++ log)) :
    [QueueEvent.claimed id t' n', .claimed id t n].Sublist log := by
  induction events with
  | nil => exact h
  | cons e events ih =>
    have hne : e ≠ .claimed id t' n' := fun he => hev id t' n' (by simp [he])
    rw [List.cons_append] at h
    rcases List.sublist_cons_iff.1 h with h | ⟨r, hr, -⟩
    · exact ih (fun id t n hm => hev id t n (by simp [hm])) h
    · exact absurd (List.cons.inj hr).1.symm hne

theorem QueueInv.follow (h : QueueInv P cfg w) (hf : Follow w w') : QueueInv P cfg w' := by
  have hle : millis w.clock ≤ millis w'.clock := Job.millis_mono hf.clock
  obtain ⟨events, hlog, hev⟩ := hf.log
  constructor
  case claim =>
    intro t c hc
    rw [hf.claims] at hc
    exact (h.claim t c hc).follow hf hc
  case claimToken =>
    rw [hf.claims, hf.usedTokens]
    exact h.claimToken
  case rowToken =>
    intro id j' t hj' ht
    rw [hf.claims, hf.usedTokens]
    rcases hf.rows id j' hj' with ⟨j, hj, hj''⟩ | ⟨-, -, hn⟩
    · rcases hj''.leaseToken with e | e
      · exact h.rowToken id j t hj (e ▸ ht)
      · rw [e] at ht
        cases ht
    · rw [hn] at ht
      cases ht
  case logToken =>
    intro id t n hm
    rw [hf.claims, hf.usedTokens]
    rw [hlog, List.mem_append] at hm
    rcases hm with hm | hm
    · exact absurd hm (hev id t n)
    · exact h.logToken id t n hm
  case rowLocks =>
    rw [hf.claims]
    exact h.rowLocks
  case advisoryLocks =>
    rw [hf.claims]
    exact h.advisoryLocks
  case origin =>
    intro id j' hj'
    rcases hf.rows id j' hj' with ⟨j, hj, hj''⟩ | ⟨ho, -⟩
    · have ho := (h.origin id j hj).mono hf.sources
      intro s hs
      rw [hj''.item] at hs
      rw [hj''.originKey]
      exact ho s hs
    · exact ho
  case cap =>
    intro origin
    calc w'.db.activeLeases origin (millis w'.clock)
        ≤ w'.db.activeLeases origin (millis w.clock) := activeLeases_anti hle
      _ ≤ w.db.activeLeases origin (millis w.clock) := hf.activeLeases_le le_rfl origin
      _ ≤ cfg.perOriginConcurrency := h.cap origin
  case single =>
    intro id id' j j' s hj hj' ha ha' hs hs'
    obtain ⟨i, hi, hia, hii, -⟩ := hf.active le_rfl hj (Job.activeLease_anti ha hle)
    obtain ⟨i', hi', hia', hii', -⟩ := hf.active le_rfl hj' (Job.activeLease_anti ha' hle)
    exact h.single id id' i i' s hi hi' hia hia' (hii ▸ hs) (hii' ▸ hs')
  case superseded =>
    intro id t t' n n' j' hsub hj'
    rw [hlog] at hsub
    rcases hf.rows id j' hj' with ⟨j, hj, hj''⟩ | ⟨-, -, hn⟩
    · have hne := h.superseded id t t' n n' j (sublist_of_append hev hsub) hj
      rcases hj''.leaseToken with e | e
      · rw [e]
        exact hne
      · rw [e]
        simp
    · rw [hn]
      simp

/-! ## The locks of the claims -/

theorem QueueInv.endClaim (h : QueueInv P cfg w) (token : LeaseToken) :
    QueueInv P cfg { w with claims := w.claims.erase token } := by
  have hsub : ∀ t c, (w.claims.erase token).lookup t = some c → w.claims.lookup t = some c := by
    intro t c hc
    rw [Table.lookup_erase_if] at hc
    split at hc
    · cases hc
    · exact hc
  have hnone : ∀ t, w.claims.lookup t = none → (w.claims.erase token).lookup t = none := by
    intro t ht
    rw [Table.lookup_erase_if, ht, ite_self]
  exact { h with
    claim := fun t c hc => h.claim t c (hsub t c hc)
    claimToken := fun t c hc => h.claimToken t c (hsub t c hc)
    rowToken := fun id j t hj ht => ⟨(h.rowToken id j t hj ht).1, hnone t (h.rowToken id j t hj ht).2⟩
    logToken := fun id t n hm => ⟨(h.logToken id t n hm).1, hnone t (h.logToken id t n hm).2⟩
    rowLocks := fun t t' c c' id hc hc' => h.rowLocks t t' c c' id (hsub t c hc) (hsub t' c' hc')
    advisoryLocks := fun t t' c c' id hc hc' => h.advisoryLocks t t' c c' id (hsub t c hc) (hsub t' c' hc') }

/-- A claim may take the locks that no other claim holds. -/
theorem QueueInv.putClaim (h : QueueInv P cfg w) {used : List LeaseToken} (hused : ∀ t ∈ w.usedTokens, t ∈ used)
    (htoken : token ∈ used) (hfresh : ∀ t ∈ w.usedTokens, w.claims.lookup t = none → t ≠ token)
    (hok : ClaimOk P cfg w.db w.clock c)
    (hrows : ∀ t c', t ≠ token → w.claims.lookup t = some c' → ∀ id ∈ c.locked, id ∉ c'.locked)
    (hadv : ∀ t c', t ≠ token → w.claims.lookup t = some c' → ∀ a ∈ c.advisory, a ∉ c'.advisory) :
    QueueInv P cfg { w with claims := w.claims.insert token c, usedTokens := used } := by
  have hcases : ∀ t c', (w.claims.insert token c).lookup t = some c' →
      (t = token ∧ c' = c) ∨ (t ≠ token ∧ w.claims.lookup t = some c') := by
    intro t c' hc
    rw [Table.lookup_insert_if] at hc
    split at hc
    · rename_i e
      exact .inl ⟨e, (Option.some.inj hc).symm⟩
    · exact .inr ⟨‹_›, hc⟩
  have hnone : ∀ t, t ∈ w.usedTokens ∧ w.claims.lookup t = none →
      t ∈ used ∧ (w.claims.insert token c).lookup t = none := by
    rintro t ⟨hu, ht⟩
    rw [Table.lookup_insert_if, if_neg (hfresh t hu ht)]
    exact ⟨hused t hu, ht⟩
  refine { h with
    claim := ?_, claimToken := ?_, rowLocks := ?_, advisoryLocks := ?_
    rowToken := fun id j t hj ht => hnone t (h.rowToken id j t hj ht)
    logToken := fun id t n hm => hnone t (h.logToken id t n hm) }
  · intro t c' hc
    rcases hcases t c' hc with ⟨-, rfl⟩ | ⟨-, hc⟩
    · exact hok
    · exact h.claim t c' hc
  · intro t c' hc
    rcases hcases t c' hc with ⟨rfl, -⟩ | ⟨-, hc⟩
    · exact htoken
    · exact hused t (h.claimToken t c' hc)
  · intro t t' c₁ c₂ id h₁ h₂ hid hid'
    rcases hcases t c₁ h₁ with ⟨rfl, rfl⟩ | ⟨hne, k₁⟩ <;> rcases hcases t' c₂ h₂ with ⟨rfl, rfl⟩ | ⟨hne', k₂⟩
    · rfl
    · exact absurd hid' (hrows t' c₂ hne' k₂ id hid)
    · exact absurd hid (hrows t c₁ hne k₁ id hid')
    · exact h.rowLocks t t' c₁ c₂ id k₁ k₂ hid hid'
  · intro t t' c₁ c₂ a h₁ h₂ ha ha'
    rcases hcases t c₁ h₁ with ⟨rfl, rfl⟩ | ⟨hne, k₁⟩ <;> rcases hcases t' c₂ h₂ with ⟨rfl, rfl⟩ | ⟨hne', k₂⟩
    · rfl
    · exact absurd ha' (hadv t' c₂ hne' k₂ a ha)
    · exact absurd ha (hadv t c₁ hne k₁ a ha')
    · exact h.advisoryLocks t t' c₁ c₂ a k₁ k₂ ha ha'

/-- A claim in progress goes on with new locks. -/
theorem QueueInv.setClaim {c' : ClaimTx} (h : QueueInv P cfg w) (hc : w.claims.lookup token = some c)
    (hok : ClaimOk P cfg w.db w.clock c')
    (hrows : ∀ id ∈ c'.locked, id ∈ c.locked ∨ id ∉ w.lockedByOthers token)
    (hadv : ∀ a ∈ c'.advisory, a ∈ c.advisory ∨ a ∉ w.advisoryOfOthers token) :
    QueueInv P cfg (w.setClaim token c') := by
  have hothers : ∀ {β : Type} {f : ClaimTx → List β} {x : β} {t : LeaseToken} {c₁ : ClaimTx}, t ≠ token →
      w.claims.lookup t = some c₁ → x ∈ f c₁ → x ∈ (w.claims.rows.filter (·.1 ≠ token)).flatMap (f ·.2) := by
    intro β f x t c₁ hne h₁ hx
    exact List.mem_flatMap.2 ⟨(t, c₁), List.mem_filter.2 ⟨Table.mem_rows.2 h₁, by simpa using hne⟩, hx⟩
  refine h.putClaim (fun _ ht => ht) (h.claimToken token c hc) ?_ hok ?_ ?_
  · rintro t - ht rfl
    rw [hc] at ht
    cases ht
  · intro t c₁ hne h₁ id hid hid'
    rcases hrows id hid with hl | hl
    · exact hne (h.rowLocks t token c₁ c id h₁ hc hid' hl)
    · exact hl (hothers (f := ClaimTx.locked) hne h₁ hid')
  · intro t c₁ hne h₁ a ha ha'
    rcases hadv a ha with hl | hl
    · exact hne (h.advisoryLocks t token c₁ c a h₁ hc ha' hl)
    · exact hl (hothers (f := ClaimTx.advisory) hne h₁ ha')

/-! ## The lease at the end of a claim -/

/-- A row is leased that no claim has locked, under an origin that no claim has reserved. -/
theorem QueueInv.lease (h : QueueInv P cfg w) {id : JobId} {j : Job} {now leaseUntil : DateTime}
    (hj : w.db.ingestJobs.lookup id = some j) (hnow : now ≤ w.clock) (hlock : w.isLocked id = false)
    (hused : token ∈ w.usedTokens) (hclaim : w.claims.lookup token = none)
    (hlog : ∀ i t n, .claimed i t n ∈ w.log → t ≠ token)
    (hadv : ∀ t c, w.claims.lookup t = some c → P.hashtext j.originKey ∉ c.advisory)
    (hroom : w.db.activeLeases j.originKey (millis now) < cfg.perOriginConcurrency)
    (hfree : ∀ i' j' s, w.db.ingestJobs.lookup i' = some j' → j'.activeLease (millis now) = true →
      j'.item.collectSource = some s → j.item.collectSource ≠ some s) :
    QueueInv P cfg
      { w with db := w.db.setJob id (j.leasedBy token leaseUntil), log := .claimed id token now :: w.log } := by
  have hlookup : ∀ i, (w.db.setJob id (j.leasedBy token leaseUntil)).ingestJobs.lookup i =
      if i = id then some (j.leasedBy token leaseUntil) else w.db.ingestJobs.lookup i :=
    fun i => Table.lookup_insert_if i id _ _
  have hle : millis now ≤ millis w.clock := Job.millis_mono hnow
  have hcount : ∀ origin n, origin ≠ j.originKey →
      (w.db.setJob id (j.leasedBy token leaseUntil)).activeLeases origin n ≤ w.db.activeLeases origin n := by
    intro origin n hne
    refine Table.count_le_of_keys fun i i' hi hp => ?_
    rw [hlookup] at hi
    split at hi
    · cases hi
      have ho : j.originKey = origin := beq_iff_eq.1 (Bool.and_eq_true_iff.1 hp).2
      exact absurd ho.symm hne
    · exact ⟨i', hi, hp⟩
  constructor
  case claim =>
    intro t c (hc : w.claims.lookup t = some c)
    have hok := h.claim t c hc
    have hkept : ∀ i ∈ c.locked, (w.db.setJob id (j.leasedBy token leaseUntil)).ingestJobs.lookup i =
        w.db.ingestJobs.lookup i := by
      intro i hi
      rw [hlookup, if_neg]
      rintro rfl
      rw [isLocked_iff.2 ⟨t, c, hc, hi⟩] at hlock
      cases hlock
    have hview : ∀ i i', c.phase.row = some (i, i') → c.phase.reserved → i'.originKey ≠ j.originKey := by
      intro i i' hrow hres e
      exact hadv t c hc (e ▸ hok.reserved i i' hrow hres)
    constructor
    case now_le => exact hok.now_le
    case locked =>
      intro i hi
      rw [hkept i hi]
      exact hok.locked i hi
    case aged =>
      intro e he
      have := hok.aged e he
      rw [hkept e.1 this.1]
      exact this
    case row =>
      intro i i' hrow
      obtain ⟨hi, hv⟩ := hok.row i i' hrow
      exact ⟨hi, (view_congr (hkept i hi)).trans hv⟩
    case reserved => exact hok.reserved
    case room =>
      intro i i' hrow hcounted
      have hres : c.phase.reserved = true := by
        cases hp : c.phase <;> simp_all [ClaimPhase.counted, ClaimPhase.reserved]
      exact lt_of_le_of_lt (hcount _ _ (hview i i' hrow hres)) (hok.room i i' hrow hcounted)
    case free =>
      intro i i' hphase k k' s hk ha hs hs'
      rw [hlookup] at hk
      split at hk
      · cases hk
        -- both rows collect `s`, so both have its origin, which only one claim can have reserved
        have hrow : c.phase.row = some (i, i') := by rw [hphase]; rfl
        obtain ⟨-, hv⟩ := hok.row i i' hrow
        obtain ⟨i₀, hi₀, hf, -⟩ := hok.view_follows hv 0
        obtain ⟨d, hd, ho⟩ := h.origin i i₀ hi₀ s (hf.item ▸ hs')
        obtain ⟨d', hd', ho'⟩ := h.origin id j hj s hs
        rw [hd] at hd'
        cases hd'
        exact hview i i' hrow (by rw [hphase]; rfl) (hf.originKey.trans (ho.trans ho'.symm))
      · exact hok.free i i' hphase k k' s hk ha hs hs'
  case claimToken => exact h.claimToken
  case rowToken =>
    intro i i' t hi ht
    rw [hlookup] at hi
    split at hi
    · cases hi
      cases ht
      exact ⟨hused, hclaim⟩
    · exact h.rowToken i i' t hi ht
  case logToken =>
    intro i t n hm
    rcases List.mem_cons.1 hm with e | hm
    · cases e
      exact ⟨hused, hclaim⟩
    · exact h.logToken i t n hm
  case rowLocks => exact h.rowLocks
  case advisoryLocks => exact h.advisoryLocks
  case origin =>
    intro i i' hi
    rw [hlookup] at hi
    split at hi
    · cases hi
      exact h.origin id j hj
    · exact h.origin i i' hi
  case cap =>
    intro origin
    by_cases ho : origin = j.originKey
    · subst ho
      have hle₁ : (w.db.setJob id (j.leasedBy token leaseUntil)).activeLeases j.originKey (millis w.clock) ≤
          w.db.activeLeases j.originKey (millis now) + 1 := by
        refine Table.count_le_of_keys_ne id fun i i' hne hi hp => ?_
        rw [hlookup, if_neg hne] at hi
        rw [Bool.and_eq_true] at hp
        exact ⟨i', hi, by rw [Bool.and_eq_true]; exact ⟨Job.activeLease_anti hp.1 hle, hp.2⟩⟩
      exact le_trans hle₁ hroom
    · exact le_trans (hcount origin _ ho) (h.cap origin)
  case single =>
    intro i i' k k' s hi hi' ha ha' hs hs'
    rw [hlookup] at hi hi'
    split at hi <;> split at hi'
    · rename_i e e'
      exact e.trans e'.symm
    · cases hi
      exact absurd hs (hfree i' k' s hi' (Job.activeLease_anti ha' hle) hs')
    · cases hi'
      exact absurd hs' (hfree i k s hi (Job.activeLease_anti ha hle) hs)
    · exact h.single i i' k k' s hi hi' ha ha' hs hs'
  case superseded =>
    intro i t t' n n' i' hsub hi
    have hpair : [QueueEvent.claimed i t' n', .claimed i t n].Sublist w.log ∨
        (i = id ∧ QueueEvent.claimed i t n ∈ w.log) := by
      rcases List.sublist_cons_iff.1 hsub with hs | ⟨r, hr, hs⟩
      · exact .inl hs
      · cases hr
        exact .inr ⟨rfl, List.singleton_sublist.1 hs⟩
    rw [hlookup] at hi
    split at hi
    · cases hi
      have hm : QueueEvent.claimed i t n ∈ w.log := by
        rcases hpair with hs | ⟨-, hm⟩
        · exact hs.subset (by simp)
        · exact hm
      exact fun ht => hlog i t n hm (Option.some.inj ht).symm
    · rename_i hne
      rcases hpair with hs | ⟨e, -⟩
      · exact h.superseded i t t' n n' i' hs hi
      · exact absurd e hne

end
end Inoreader
