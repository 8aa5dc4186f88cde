import Inoreader.Store.Jobs

/-!
# The poll backlog as a list

`BacklogIs db source rows` reads the rows of one source as the list in the order of their ordinals. A
commit appends what it defers and removes what it commits.
-/

namespace Inoreader
open Lib Tx

structure BacklogIs (db : Db) (source : SourceId) (rows : List BacklogRow) : Prop where
  sorted : rows.Pairwise (·.ordinal < ·.ordinal)
  lookup : ∀ r row, db.pollBacklog.lookup (source, r) = some row ↔ row ∈ rows ∧ row.record.id = r

section
variable {db db' : Db} {source : SourceId} {rows : List BacklogRow} {c : PollCommit}

namespace BacklogIs

theorem congr (h : BacklogIs db source rows)
    (hdb : ∀ r, db'.pollBacklog.lookup (source, r) = db.pollBacklog.lookup (source, r)) : BacklogIs db' source rows :=
  ⟨h.sorted, fun r row => by rw [hdb r]; exact h.lookup r row⟩

theorem nodup (h : BacklogIs db source rows) : rows.Nodup :=
  h.sorted.imp fun hlt e => by rw [e] at hlt; exact lt_irrefl _ hlt

/-- Two rows of one record are one row. -/
theorem eq_of_id (h : BacklogIs db source rows) {x y : BacklogRow} (hx : x ∈ rows) (hy : y ∈ rows)
    (hid : x.record.id = y.record.id) : x = y := by
  have hx' := (h.lookup x.record.id x).2 ⟨hx, rfl⟩
  have hy' := (h.lookup x.record.id y).2 ⟨hy, hid.symm⟩
  rw [hx'] at hy'
  exact Option.some.inj hy'

theorem nodup_ids (h : BacklogIs db source rows) : (rows.map (·.record.id)).Nodup :=
  List.Nodup.map_on (fun _ hx _ hy => h.eq_of_id hx hy) h.nodup

/-- `SELECT … WHERE source_id=$1 ORDER BY ordinal` returns the list. -/
theorem backlog_eq (h : BacklogIs db source rows) : db.backlog source = rows := by
  unfold Db.backlog
  set found := (db.pollBacklog.rows.filter (·.1.1 = source)).map (·.2) with hfound
  have hmem : ∀ row, row ∈ found ↔ row ∈ rows := by
    intro row
    rw [hfound, List.mem_map]
    constructor
    · rintro ⟨⟨⟨s, r⟩, row'⟩, hrow, rfl⟩
      obtain ⟨hin, hs⟩ := List.mem_filter.1 hrow
      have hs : s = source := by simpa using hs
      subst hs
      exact ((h.lookup r row').1 (Table.mem_rows.1 hin)).1
    · intro hrow
      refine ⟨((source, row.record.id), row), List.mem_filter.2 ⟨Table.mem_rows.2 ?_, by simp⟩, rfl⟩
      exact (h.lookup _ _).2 ⟨hrow, rfl⟩
  have hnodup : found.Nodup := by
    refine List.Nodup.map_on ?_ ((Table.nodup_rows db.pollBacklog).of_map.filter _)
    rintro ⟨⟨s, r⟩, row⟩ hx ⟨⟨s', r'⟩, row'⟩ hy (rfl : row = row')
    obtain ⟨hin, hs⟩ := List.mem_filter.1 hx
    obtain ⟨hin', hs'⟩ := List.mem_filter.1 hy
    have hs : s = source := by simpa using hs
    have hs' : s' = source := by simpa using hs'
    subst hs hs'
    have hr := ((h.lookup r row).1 (Table.mem_rows.1 hin)).2
    have hr' := ((h.lookup r' row).1 (Table.mem_rows.1 hin')).2
    rw [← hr, ← hr']
  exact Table.insertionSort_eq (fun x : BacklogRow => x.ordinal) hnodup hmem h.sorted

end BacklogIs

/-! ## What a commit defers and removes -/

/-- The row of a deferred record. -/
def PollCommit.row (c : PollCommit) (entry : PolledRecord × Nat) : BacklogRow :=
  { ordinal := entry.2, record := entry.1.record, action := entry.1.action, context := c.context }

/-- The rows of all deferred records. -/
def PollCommit.deferred (c : PollCommit) : List BacklogRow := c.remainder.zipIdx.map c.row

theorem deferred_polled (c : PollCommit) : c.deferred.map (·.polled) = c.remainder := by
  unfold PollCommit.deferred
  rw [List.map_map]
  exact List.zipIdx_map_fst 0 c.remainder

theorem insertBacklog_ok {entry : PolledRecord × Nat} {u : Unit} (hrun : insertBacklog c entry db = .ok (u, db')) :
    db.pollBacklog.lookup (c.sourceId, entry.1.record.id) = none ∧
      db' = { db with pollBacklog := db.pollBacklog.insert (c.sourceId, entry.1.record.id) (c.row entry) } := by
  unfold insertBacklog at hrun
  rw [bind_run, get_run] at hrun
  obtain ⟨hnew, hrun⟩ := bind_require_ok.1 hrun
  cases hrun
  exact ⟨hnew.1, rfl⟩

theorem BacklogIs.insertLoop {ps : List PolledRecord} {k : Nat} {u : Unit} (h : BacklogIs db c.sourceId rows)
    (hk : ∀ row ∈ rows, row.ordinal < k)
    (hrun : loop (fun _ entry => insertBacklog c entry) () (ps.zipIdx k) db = .ok (u, db')) :
    BacklogIs db' c.sourceId (rows ++ (ps.zipIdx k).map c.row) := by
  induction ps generalizing db rows k with
  | nil =>
    cases hrun
    simpa using h
  | cons p ps ih =>
    rw [List.zipIdx_cons, loop] at hrun
    obtain ⟨_, d, h₁, h₂⟩ := bind_ok.1 hrun
    obtain ⟨hnone, rfl⟩ := insertBacklog_ok h₁
    have hnew : BacklogIs { db with pollBacklog := db.pollBacklog.insert (c.sourceId, p.record.id) (c.row (p, k)) }
        c.sourceId (rows ++ [c.row (p, k)]) := by
      constructor
      · rw [List.pairwise_append]
        refine ⟨h.sorted, List.pairwise_singleton _ _, fun x hx y hy => ?_⟩
        rw [List.mem_singleton] at hy
        rw [hy]
        exact hk x hx
      · intro r row
        rw [Table.lookup_insert_if, List.mem_append, List.mem_singleton]
        split
        · rename_i e
          obtain rfl : r = p.record.id := (Prod.mk.inj e).2
          constructor
          · rintro hrow
            cases hrow
            exact ⟨.inr rfl, rfl⟩
          · rintro ⟨hrow | rfl, hid⟩
            · have := (h.lookup p.record.id row).2 ⟨hrow, hid⟩
              rw [hnone] at this
              cases this
            · rfl
        · rename_i hne
          rw [h.lookup r row]
          constructor
          · exact fun hrow => ⟨.inl hrow.1, hrow.2⟩
          · rintro ⟨hrow | rfl, hid⟩
            · exact ⟨hrow, hid⟩
            · exact absurd (by rw [← hid]; rfl) hne
    have hlater : ∀ row ∈ rows ++ [c.row (p, k)], row.ordinal < k + 1 := by
      intro row hrow
      rcases List.mem_append.1 hrow with hrow | hrow
      · have := hk row hrow
        omega
      · rw [List.mem_singleton] at hrow
        rw [hrow]
        show k < k + 1
        omega
    have := ih hnew hlater h₂
    rwa [List.append_assoc] at this

theorem removeBacklog_ok {p : PolledRecord} {u : Unit} (hrun : removeBacklog c p db = .ok (u, db')) :
    db' = { db with pollBacklog := db.pollBacklog.erase (c.sourceId, p.record.id) } := by
  unfold removeBacklog at hrun
  rw [bind_run, get_run] at hrun
  obtain ⟨_, d, h₁, h₂⟩ := bind_ok.1 hrun
  cases h₁
  exact keeps_require (f := fun d => d) _ _ _ _ _ h₂

theorem BacklogIs.removeLoop {ps : List PolledRecord} {u : Unit} (h : BacklogIs db c.sourceId rows)
    (hrun : loop (fun _ p => removeBacklog c p) () ps db = .ok (u, db')) :
    BacklogIs db' c.sourceId (rows.filter fun row => row.record.id ∉ ps.map (·.record.id)) := by
  induction ps generalizing db rows with
  | nil =>
    cases hrun
    simpa using h
  | cons p ps ih =>
    rw [loop] at hrun
    obtain ⟨_, d, h₁, h₂⟩ := bind_ok.1 hrun
    cases removeBacklog_ok h₁
    have hless : BacklogIs { db with pollBacklog := db.pollBacklog.erase (c.sourceId, p.record.id) } c.sourceId
        (rows.filter fun row => row.record.id ≠ p.record.id) := by
      refine ⟨h.sorted.filter _, fun r row => ?_⟩
      rw [Table.lookup_erase_if, List.mem_filter]
      split
      · rename_i e
        obtain rfl : r = p.record.id := (Prod.mk.inj e).2
        constructor
        · rintro hrow
          cases hrow
        · rintro ⟨⟨-, hne⟩, hid⟩
          exact absurd hid (by simpa using hne)
      · rename_i hne
        rw [h.lookup r row]
        constructor
        · rintro ⟨hrow, rfl⟩
          have hid : row.record.id ≠ p.record.id := fun e => hne (Prod.ext rfl e)
          exact ⟨⟨hrow, by simpa using hid⟩, rfl⟩
        · exact fun hrow => ⟨hrow.1.1, hrow.2⟩
    have hrest := ih hless h₂
    rw [List.filter_filter] at hrest
    have hpred : (fun row : BacklogRow => decide (row.record.id ∉ ps.map (·.record.id)) &&
        decide (row.record.id ≠ p.record.id)) = fun row => decide (row.record.id ∉ (p :: ps).map (·.record.id)) := by
      funext row
      by_cases e : row.record.id = p.record.id <;> simp [e]
    rwa [hpred] at hrest

/-- The three effects of a commit on the state of its source. -/
theorem commitPoll_ok {lease : LeasedWork} {now : DateTime} {u : Unit} (hrun : commitPoll lease now c db = .ok (u, db')) :
    (∃ d d', persistBacklog c d = .ok ((), d') ∧ d.pollBacklog = db.pollBacklog ∧ db'.pollBacklog = d'.pollBacklog) ∧
    db'.pollState.lookup c.sourceId =
      some { validators := c.validators, incomplete := c.incomplete, lastSuccessMs := some (millis c.fetchedAt) } ∧
    (c.incomplete → ∃ last j, c.records.getLast? = some last ∧
      db'.ingestJobs.lookup (.record .backfill last.record.id c.sourceRevision) = some j ∧
      j.item = .refreshSource c.sourceId) := by
  unfold commitPoll at hrun
  obtain ⟨_, -, hrun₀⟩ := (bind_ok_of_reads (assertLease_keeps _ _)).1 hrun
  obtain ⟨_, d₁, h₁, hrun₁⟩ := bind_ok.1 hrun₀
  obtain ⟨_, d₂, h₂, hrun₂⟩ := bind_ok.1 hrun₁
  obtain ⟨_, d₃, h₃, hrun₃⟩ := bind_ok.1 hrun₂
  obtain ⟨_, d₄, h₄, hrun₄⟩ := bind_ok.1 hrun₃
  obtain ⟨_, d₅, h₅, hrun₅⟩ := bind_ok.1 hrun₄
  obtain ⟨_, d₆, h₆, hrun₆⟩ := bind_ok.1 hrun₅
  have hcont : ∀ {γ : Type} {f : Db → γ}, (∀ db id job, f (Db.setJob db id job) = f db) →
      Keeps f (enqueueContinuation c (millis now)) := fun hf =>
    keeps_ite (keeps_bind (keeps_orThrow _ _) fun _ => enqueueWork_keeps hf _ _ _) (keeps_pure _)
  have b₁ : d₁.pollBacklog = db.pollBacklog := by
    have hbegin : Keeps Db.pollBacklog (beginPoll c) :=
      keeps_bind (keeps_require _ _) fun _ => keeps_modify fun _ => rfl
    exact hbegin _ _ _ h₁
  have b₃ : d₃.pollBacklog = d₂.pollBacklog := by
    refine keeps_loop (f := Db.pollBacklog) (fun _ p => ?_) _ _ _ _ _ h₃
    refine keeps_bind (toI64_keeps _ _) fun _ => keeps_bind (keeps_modify fun _ => rfl) fun _ => ?_
    refine keeps_bind (keeps_onlyIf (enqueueWork_keeps (fun _ _ _ => rfl) _ _ _)) fun _ => ?_
    split
    · exact enqueueWork_keeps (fun _ _ _ => rfl) _ _ _
    · exact keeps_pure _
  cases h₄
  cases h₅
  have b₆ := recordSubscriptionActivity_keeps (f := Db.pollBacklog) (fun _ _ => rfl) _ _ _ _ _ _ _ _ _ h₆
  have s₆ := recordSubscriptionActivity_keeps (f := Db.pollState) (fun _ _ => rfl) _ _ _ _ _ _ _ _ _ h₆
  have b' := hcont (f := Db.pollBacklog) (fun _ _ _ => rfl) _ _ _ hrun₆
  have s' := hcont (f := Db.pollState) (fun _ _ _ => rfl) _ _ _ hrun₆
  refine ⟨⟨d₁, d₂, h₂, b₁, b'.trans (b₆.trans b₃)⟩, ?_, fun hinc => ?_⟩
  · rw [s', s₆]
    show (d₃.pollState.insert c.sourceId _).lookup c.sourceId = _
    rw [Table.lookup_insert_if, if_pos rfl]
  · unfold enqueueContinuation at hrun₆
    rw [if_pos hinc] at hrun₆
    obtain ⟨last, hlast, hrun₇⟩ := bind_orThrow_ok.1 hrun₆
    rcases enqueueWork_ok hrun₇ with ⟨j, hj, hitem, rfl⟩ | ⟨-, origin, -, rfl⟩
    · exact ⟨last, j, hlast, hj, hitem⟩
    · refine ⟨last, .new (.refreshSource c.sourceId) (millis now) origin, hlast, ?_, rfl⟩
      rw [Db.setJob, Table.lookup_insert_if, if_pos rfl]

theorem persistBacklog_ok {u : Unit} (h : BacklogIs db c.sourceId rows) (hrows : rows = [] ∨ c.remainder = [])
    (hrun : persistBacklog c db = .ok (u, db')) :
    c.identitiesOk ∧ (c.remainder = [] ∨ c.incomplete) ∧
      BacklogIs db' c.sourceId ((rows ++ c.deferred).filter fun row => row.record.id ∉ c.records.map (·.record.id)) := by
  unfold persistBacklog at hrun
  obtain ⟨hinc, hrun⟩ := bind_require_ok.1 hrun
  obtain ⟨hids, hrun⟩ := bind_require_ok.1 hrun
  obtain ⟨_, d, h₁, h₂⟩ := bind_ok.1 hrun
  refine ⟨hids, hinc, ?_⟩
  have hins : BacklogIs d c.sourceId (rows ++ c.deferred) := by
    rcases hrows with rfl | hrem
    · exact h.insertLoop (k := 0) (by simp) h₁
    · rw [hrem] at h₁
      cases h₁
      simpa [PollCommit.deferred, hrem] using h
  exact hins.removeLoop h₂

theorem filter_of_disjoint {xs : List BacklogRow} {ids : List SourceRecordId}
    (h : ∀ row ∈ xs, row.record.id ∉ ids) : xs.filter (fun row => row.record.id ∉ ids) = xs :=
  List.filter_eq_self.2 fun row hrow => by simpa using h row hrow

/-- Removing the first rows by their records leaves the others. -/
theorem filter_of_append {xs ys : List BacklogRow} (h : ((xs ++ ys).map (·.record.id)).Nodup) :
    (xs ++ ys).filter (fun row => row.record.id ∉ xs.map (·.record.id)) = ys := by
  rw [List.map_append, List.nodup_append] at h
  have hxs : xs.filter (fun row => row.record.id ∉ xs.map (·.record.id)) = [] := by
    refine List.filter_eq_nil_iff.2 fun row hrow => ?_
    simpa using ⟨row, hrow, rfl⟩
  have hys : ys.filter (fun row => row.record.id ∉ xs.map (·.record.id)) = ys :=
    filter_of_disjoint fun row hrow hmem => h.2.2 _ hmem _ (List.mem_map_of_mem hrow) rfl
  rw [List.filter_append, hxs, hys, List.nil_append]

/-- A commit on a source without backlog leaves what it defers. -/
theorem BacklogIs.commit_defers {lease : LeasedWork} {now : DateTime} {u : Unit} (h : BacklogIs db c.sourceId [])
    (hids : ∀ p ∈ c.remainder, p.record.id ∉ c.records.map (·.record.id))
    (hrun : commitPoll lease now c db = .ok (u, db')) : BacklogIs db' c.sourceId c.deferred := by
  obtain ⟨⟨d, d', hp, hb, hb'⟩, -⟩ := commitPoll_ok hrun
  obtain ⟨-, -, hrest⟩ := persistBacklog_ok (h.congr fun r => by rw [hb]) (.inl rfl) hp
  rw [List.nil_append, filter_of_disjoint] at hrest
  · exact hrest.congr fun r => by rw [hb']
  · intro row hrow
    have hrow' : row.polled ∈ c.remainder := by
      rw [← deferred_polled c]
      exact List.mem_map_of_mem hrow
    exact hids row.polled hrow'

/-- A commit of the first rows of the backlog leaves the others. -/
theorem BacklogIs.commit_drains {lease : LeasedWork} {now : DateTime} {u : Unit} {n : Nat}
    (h : BacklogIs db c.sourceId rows) (hrem : c.remainder = []) (hrecords : c.records = (rows.take n).map (·.polled))
    (hrun : commitPoll lease now c db = .ok (u, db')) : BacklogIs db' c.sourceId (rows.drop n) := by
  obtain ⟨⟨d, d', hp, hb, hb'⟩, -⟩ := commitPoll_ok hrun
  obtain ⟨-, -, hrest⟩ := persistBacklog_ok (h.congr fun r => by rw [hb]) (.inr hrem) hp
  have hrecs : c.records.map (·.record.id) = (rows.take n).map (·.record.id) := by
    rw [hrecords, List.map_map]
    rfl
  have hsplit : (rows ++ c.deferred).filter (fun row => row.record.id ∉ c.records.map (·.record.id)) = rows.drop n := by
    have hdeferred : c.deferred = [] := by rw [PollCommit.deferred, hrem]; rfl
    have hnodup := h.nodup_ids
    rw [← List.take_append_drop n rows] at hnodup
    have hfilter := filter_of_append hnodup
    rw [List.take_append_drop n rows] at hfilter
    rw [hdeferred, List.append_nil, hrecs]
    exact hfilter
  rw [hsplit] at hrest
  exact hrest.congr fun r => by rw [hb']

/-- `pending_poll` returns the first rows of the backlog, and nothing if there are none. -/
theorem pendingPoll_ok {limit : Nat} {result : Option PollCommit} (h : BacklogIs db source rows)
    (hrun : pendingPoll source limit db = .ok (result, db')) :
    db' = db ∧ ((rows = [] ∧ result = none) ∨ (rows ≠ [] ∧ 0 < limit ∧ ∃ c, result = some c ∧ c.sourceId = source ∧
      c.records = (rows.take limit).map (·.polled) ∧ c.remainder = [] ∧ (c.incomplete = true ↔ rows.drop limit ≠ []))) := by
  unfold pendingPoll at hrun
  obtain ⟨hpos, hrun⟩ := bind_require_ok.1 hrun
  obtain ⟨-, hrun⟩ := bind_require_ok.1 hrun
  rw [bind_run, get_run] at hrun
  simp only [h.backlog_eq] at hrun
  cases hrows : rows with
  | nil =>
    rw [hrows] at hrun
    cases hrun
    exact ⟨rfl, .inl ⟨rfl, rfl⟩⟩
  | cons first rest =>
    rw [hrows, List.take_succ_cons] at hrun
    obtain ⟨-, hrun⟩ := bind_require_ok.1 hrun
    obtain ⟨-, hrun⟩ := bind_require_ok.1 hrun
    cases hrun
    refine ⟨rfl, .inr ⟨by simp, Nat.pos_of_ne_zero hpos, _, rfl, rfl, ?_, rfl, ?_⟩⟩
    · rw [← List.take_succ_cons, List.take_take, Nat.min_eq_left (Nat.le_succ limit)]
    · simp only [decide_eq_true_eq, List.length_cons, List.length_take, Ne, List.drop_eq_nil_iff]
      omega

end
end Inoreader
