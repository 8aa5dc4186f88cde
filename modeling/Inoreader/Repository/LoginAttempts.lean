import Inoreader.Core.Article
import Inoreader.Lib.Run
import Inoreader.Lib.Table

/-!
# The login limiter (`PgRepository::record_login_attempt`)

A call takes its time first and then runs a transaction: it reads and locks the row of the username, prunes and counts,
and writes under compare-and-set. A refused attempt writes nothing. Transactions of several calls run in any order.
-/

namespace Inoreader
open Lib

/-- The document in `login_attempts`, with its revision. -/
structure LoginAttempts where
  timestamps : List DateTime
  revision : Nat
deriving DecidableEq, Repr

/-- `chrono::Duration::minutes(1)` -/
def loginWindow : Int := 60000000000

/-- `value.timestamps.retain(|v| *v > cutoff)` -/
def LoginAttempts.retained (v : LoginAttempts) (at' : DateTime) : List DateTime :=
  v.timestamps.filter fun t => decide (at' - loginWindow < t)

inductive LoginPhase
  /-- Before the `SELECT … FOR UPDATE`. -/
  | selecting
  /-- The row has been read; the write and the commit come next. -/
  | writing (value : LoginAttempts) (expected : Option Nat)
deriving DecidableEq, Repr

/-- A call in progress; `at'` is the `Utc::now()` of its caller. -/
structure LoginCall where
  username : String
  at' : DateTime
  phase : LoginPhase
deriving DecidableEq, Repr

inductive LoginEvent
  | accepted (username : String) (at' : DateTime)
  | refused (username : String) (at' : DateTime)
deriving DecidableEq, Repr

structure LoginWorld where
  clock : DateTime
  rows : Table String LoginAttempts
  calls : Table Nat LoginCall
  /-- The answers, the last one first. -/
  log : List LoginEvent

inductive LoginOp
  | tick (time : DateTime)
  | call (id : Nat) (username : String)
  | select (id : Nat)
  | write (id : Nat)
  /-- The transaction fails; its caller gets an error. -/
  | abort (id : Nat)
deriving DecidableEq, Repr

namespace LoginWorld

/-- A transaction that has read the row holds its lock until it ends; a row that does not exist cannot be locked. -/
def isLocked (w : LoginWorld) (username : String) : Bool :=
  w.calls.rows.any fun row => row.2.username == username &&
    match row.2.phase with
    | .writing _ (some _) => true
    | _ => false

/-- The `SELECT` and the decision. -/
def selected (limit : Nat) (w : LoginWorld) (id : Nat) (c : LoginCall) : LoginWorld :=
  let row := w.rows.lookup c.username
  let value := row.getD { timestamps := [], revision := 0 }
  let expected := row.map (·.revision)
  if limit ≤ (value.retained c.at').length then
    { w with calls := w.calls.erase id, log := .refused c.username c.at' :: w.log }
  else
    let value' : LoginAttempts :=
      { timestamps := value.retained c.at' ++ [c.at'], revision := expected.elim 0 (· + 1) }
    { w with calls := w.calls.insert id { c with phase := .writing value' expected } }

/-- `cas_tx`: a first insert gives way to another one, an update to another revision. -/
def cas (w : LoginWorld) (username : String) (expected : Option Nat) (value : LoginAttempts) :
    Option (Table String LoginAttempts) :=
  if (w.rows.lookup username).map (·.revision) = expected then some (w.rows.insert username value) else none

/-- The write with its commit; on a conflict the transaction is rolled back. -/
def written (w : LoginWorld) (id : Nat) (c : LoginCall) (value : LoginAttempts) (expected : Option Nat) : LoginWorld :=
  match w.cas c.username expected value with
  | some rows => { w with rows, calls := w.calls.erase id, log := .accepted c.username c.at' :: w.log }
  | none => { w with calls := w.calls.erase id }

def step (limit : Nat) (w : LoginWorld) : LoginOp → Option LoginWorld
  | .tick time => if w.clock ≤ time then some { w with clock := time } else none
  | .call id username =>
    if (w.calls.lookup id).isSome then none
    else some { w with calls := w.calls.insert id { username, at' := w.clock, phase := .selecting } }
  | .select id =>
    (w.calls.lookup id).bind fun c =>
      if c.phase = .selecting ∧ w.isLocked c.username = false then some (w.selected limit id c) else none
  | .write id =>
    (w.calls.lookup id).bind fun c =>
      match c.phase with
      | .selecting => none
      | .writing value expected => some (w.written id c value expected)
  | .abort id => some { w with calls := w.calls.erase id }

structure Start (w : LoginWorld) : Prop where
  rows : w.rows = ∅
  calls : w.calls = ∅
  log : w.log = []

end LoginWorld

/-- The times of the accepted attempts of a username. -/
def acceptedTimes (username : String) (log : List LoginEvent) : List DateTime :=
  log.filterMap fun
    | .accepted u t => if u = username then some t else none
    | .refused _ _ => none

/-- How many of the times lie in the minute that begins after `start`. -/
def inMinute (start : DateTime) (ts : List DateTime) : Nat :=
  ts.countP fun t => decide (start < t ∧ t ≤ start + loginWindow)

/-- No minute has more than `limit` accepted attempts, and an attempt is refused only when the minute before it has
`limit` of them. -/
structure LoginWorld.Limited (limit : Nat) (w : LoginWorld) : Prop where
  windows : ∀ username start, inMinute start (acceptedTimes username w.log) ≤ limit
  refusals : ∀ newer username t older, w.log = newer ++ .refused username t :: older →
    limit ≤ inMinute (t - loginWindow) (acceptedTimes username older)

/-- The row is read in the order of the times: nothing later than the call has been accepted. -/
def LoginWorld.InOrder (w : LoginWorld) : LoginOp → Prop
  | .select id => ∀ c, w.calls.lookup id = some c → ∀ t ∈ acceptedTimes c.username w.log, t ≤ c.at'
  | _ => True

/-! ## Minutes -/

section
variable {username u : String} {t at' start : DateTime} {ts : List DateTime} {log : List LoginEvent} {limit : Nat}

@[simp] theorem acceptedTimes_refused : acceptedTimes u (.refused username t :: log) = acceptedTimes u log := rfl

@[simp] theorem acceptedTimes_accepted : acceptedTimes username (.accepted username t :: log) =
    t :: acceptedTimes username log := by
  simp [acceptedTimes]

theorem acceptedTimes_ne (h : username ≠ u) : acceptedTimes u (.accepted username t :: log) = acceptedTimes u log := by
  simp [acceptedTimes, h]

theorem mem_minute {start t w : Int} : (decide (start < t ∧ t ≤ start + w)) = true ↔ start < t ∧ t ≤ start + w :=
  decide_eq_true_iff

/-- The attempts of a minute that ends at `at'` or later have not been pruned. -/
theorem inMinute_le_retained (h : at' ≤ start + loginWindow) :
    inMinute start ts ≤ (ts.filter fun t => decide (at' - loginWindow < t)).length := by
  rw [← List.countP_eq_length_filter]
  refine List.countP_mono_left fun t _ ht => ?_
  rw [decide_eq_true_eq] at ht ⊢
  exact (Int.sub_right_le_of_le_add h).trans_lt ht.1

/-- All of the last minute's attempts are counted when none of them is later. -/
theorem retained_eq_inMinute (h : ∀ t ∈ ts, t ≤ at') :
    (ts.filter fun t => decide (at' - loginWindow < t)).length = inMinute (at' - loginWindow) ts := by
  rw [← List.countP_eq_length_filter]
  refine List.countP_congr fun t ht => ?_
  rw [decide_eq_true_eq, decide_eq_true_eq, Int.sub_add_cancel]
  exact (and_iff_left (h t ht)).symm

/-- Another attempt keeps every minute within the limit when there is room in the minute before it. -/
theorem inMinute_cons_le (h : ∀ start, inMinute start ts ≤ limit)
    (hroom : (ts.filter fun t => decide (at' - loginWindow < t)).length < limit) (start : DateTime) :
    inMinute start (at' :: ts) ≤ limit := by
  by_cases hin : start < at' ∧ at' ≤ start + loginWindow
  · have hcons : inMinute start (at' :: ts) = inMinute start ts + 1 :=
      List.countP_cons_of_pos (decide_eq_true hin)
    have hle : inMinute start ts ≤ (ts.filter fun t => decide (at' - loginWindow < t)).length :=
      inMinute_le_retained hin.2
    omega
  · have hcons : inMinute start (at' :: ts) = inMinute start ts :=
      List.countP_cons_of_neg (by rw [decide_eq_true_eq]; exact hin)
    rw [hcons]
    exact h start

/-- Pruning again at a later time is pruning at the later time. -/
theorem filter_pruned {earlier : DateTime} (h : earlier ≤ at') :
    ((ts.filter fun t => decide (earlier - loginWindow < t)).filter fun t => decide (at' - loginWindow < t)) =
      ts.filter fun t => decide (at' - loginWindow < t) := by
  rw [List.filter_filter]
  refine List.filter_congr fun t _ => ?_
  rw [Bool.and_eq_left_iff_imp]
  intro ht
  rw [decide_eq_true_eq] at ht ⊢
  exact (Int.sub_le_sub_right h _).trans_lt ht

end

/-! ## The invariant -/

/-- The row of a username keeps what lay in the minute before its last accepted attempt. -/
def LoginRowOk (ts : List DateTime) : Option LoginAttempts → Prop
  | none => ts = []
  | some v => ∃ last ∈ ts, v.timestamps = (ts.filter fun t => decide (last - loginWindow < t)).reverse

/-- A call that has read its row: as long as the revision is the one it read, its list is the right one. -/
structure LoginCall.Ok (limit : Nat) (w : LoginWorld) (c : LoginCall) (value : LoginAttempts) (expected : Option Nat) :
    Prop where
  bound : ∀ e, expected = some e → ∃ row, w.rows.lookup c.username = some row ∧ e ≤ row.revision
  revision : value.revision = expected.elim 0 (· + 1)
  fresh : (w.rows.lookup c.username).map (·.revision) = expected →
    value.timestamps = ((acceptedTimes c.username w.log).filter fun t => decide (c.at' - loginWindow < t)).reverse ++
      [c.at'] ∧
    ((acceptedTimes c.username w.log).filter fun t => decide (c.at' - loginWindow < t)).length < limit

structure LoginInv (limit : Nat) (w : LoginWorld) : Prop where
  limited : w.Limited limit
  row : ∀ username, LoginRowOk (acceptedTimes username w.log) (w.rows.lookup username)
  call : ∀ id c value expected, w.calls.lookup id = some c → c.phase = .writing value expected →
    c.Ok limit w value expected

section
variable {limit : Nat} {w w' : LoginWorld} {c : LoginCall} {id : Nat} {value : LoginAttempts} {expected : Option Nat}

/-- What the call sees after its pruning. -/
theorem LoginRowOk.retained {ts : List DateTime} {row : Option LoginAttempts} {at' : DateTime} (h : LoginRowOk ts row)
    (horder : ∀ t ∈ ts, t ≤ at') : (row.getD { timestamps := [], revision := 0 }).retained at' =
      (ts.filter fun t => decide (at' - loginWindow < t)).reverse := by
  cases row with
  | none =>
    rw [show ts = [] from h]
    rfl
  | some v =>
    obtain ⟨last, hlast, hts⟩ := h
    unfold LoginAttempts.retained
    rw [Option.getD_some, hts, List.filter_reverse, filter_pruned (horder last hlast)]

theorem LoginInv.of_calls (h : LoginInv limit w) {calls : Table Nat LoginCall}
    (hcalls : ∀ id c value expected, calls.lookup id = some c → c.phase = .writing value expected →
      c.Ok limit w value expected) : LoginInv limit { w with calls } :=
  ⟨⟨h.limited.windows, h.limited.refusals⟩, h.row, fun id c value expected hc hphase =>
    ⟨(hcalls id c value expected hc hphase).bound, (hcalls id c value expected hc hphase).revision,
      (hcalls id c value expected hc hphase).fresh⟩⟩

theorem LoginInv.erase (h : LoginInv limit w) (id : Nat) : LoginInv limit { w with calls := w.calls.erase id } := by
  refine h.of_calls fun id' c value expected hc hphase => ?_
  rw [Table.lookup_erase_if] at hc
  split at hc
  · cases hc
  · exact h.call id' c value expected hc hphase

theorem LoginInv.insert (h : LoginInv limit w) (hc : ∀ value expected, c.phase = .writing value expected →
    c.Ok limit w value expected) : LoginInv limit { w with calls := w.calls.insert id c } := by
  refine h.of_calls fun id' c' value expected hc' hphase => ?_
  rw [Table.lookup_insert_if] at hc'
  split at hc'
  · cases hc'
    exact hc value expected hphase
  · exact h.call id' c' value expected hc' hphase

/-- A refusal: the minute before it is full. -/
theorem LoginInv.refuse (h : LoginInv limit w) (hfull : limit ≤ inMinute (c.at' - loginWindow)
    (acceptedTimes c.username w.log)) : LoginInv limit
      { w with calls := w.calls.erase id, log := .refused c.username c.at' :: w.log } := by
  have herase := h.erase id
  refine ⟨⟨h.limited.windows, fun newer username t older hlog => ?_⟩, h.row, fun id' c' value expected hc' hphase => ?_⟩
  · rcases List.cons_eq_append_iff.1 hlog with ⟨rfl, hhead⟩ | ⟨newer', rfl, hrest⟩
    · cases hhead
      exact hfull
    · exact h.limited.refusals newer' username t older hrest
  · obtain ⟨hbound, hrevision, hfresh⟩ := herase.call id' c' value expected hc' hphase
    exact ⟨hbound, hrevision, hfresh⟩

theorem LoginInv.selected (h : LoginInv limit w)
    (horder : ∀ t ∈ acceptedTimes c.username w.log, t ≤ c.at') : LoginInv limit (w.selected limit id c) := by
  have hretained := (h.row c.username).retained horder
  unfold LoginWorld.selected
  dsimp only
  rw [hretained, List.length_reverse]
  split_ifs with hfull
  · exact h.refuse (hfull.trans_eq (retained_eq_inMinute horder))
  · refine h.insert fun value expected hwriting => ?_
    cases hwriting
    refine ⟨fun e he => ?_, rfl, fun _ => ⟨rfl, Nat.lt_of_not_le hfull⟩⟩
    obtain ⟨row, hrow, rfl⟩ := Option.map_eq_some_iff.1 he
    exact ⟨row, hrow, le_refl _⟩

/-- An accepted attempt. -/
theorem LoginInv.accept (h : LoginInv limit w) (hok : c.Ok limit w value expected)
    (hcas : (w.rows.lookup c.username).map (·.revision) = expected) : LoginInv limit
      { w with rows := w.rows.insert c.username value, calls := w.calls.erase id,
               log := .accepted c.username c.at' :: w.log } := by
  obtain ⟨hts, hroom⟩ := hok.fresh hcas
  refine ⟨⟨fun username start => ?_, fun newer username t older hlog => ?_⟩, fun username => ?_,
    fun id' c' value' expected' hc' hphase => ?_⟩
  · by_cases hu : c.username = username
    · subst hu
      rw [acceptedTimes_accepted]
      exact inMinute_cons_le (h.limited.windows c.username) hroom start
    · rw [acceptedTimes_ne hu]
      exact h.limited.windows username start
  · rcases List.cons_eq_append_iff.1 hlog with ⟨rfl, hhead⟩ | ⟨newer', rfl, hrest⟩
    · cases hhead
    · exact h.limited.refusals newer' username t older hrest
  · by_cases hu : c.username = username
    · subst hu
      rw [acceptedTimes_accepted, Table.lookup_insert_if, if_pos rfl]
      refine ⟨c.at', List.mem_cons_self, ?_⟩
      have hnow : decide (c.at' - loginWindow < c.at') = true := decide_eq_true (Int.sub_lt_self _ (by decide))
      rw [hts, List.filter_cons, if_pos hnow, List.reverse_cons]
    · rw [acceptedTimes_ne hu, Table.lookup_insert_if, if_neg (Ne.symm hu)]
      exact h.row username
  · have hc := (h.erase id).call id' c' value' expected' hc' hphase
    by_cases hu : c'.username = c.username
    · -- the revision has moved on, so that this call will conflict
      have hlookup : (w.rows.insert c.username value).lookup c'.username = some value := by
        rw [Table.lookup_insert_if, if_pos hu]
      have hlater : ∀ e, expected' = some e → e < value.revision := by
        intro e he
        obtain ⟨row, hrow, hle⟩ := hc.bound e he
        rw [hu] at hrow
        rw [show (w.rows.lookup c.username).map (·.revision) = some row.revision by rw [hrow]; rfl] at hcas
        rw [hok.revision, ← hcas]
        exact Nat.lt_succ_of_le hle
      refine ⟨fun e he => ⟨value, hlookup, (hlater e he).le⟩, hc.revision, fun hsame => ?_⟩
      dsimp only at hsame
      rw [hlookup] at hsame
      exact absurd (hlater value.revision hsame.symm) (Nat.lt_irrefl _)
    · have hlookup : (w.rows.insert c.username value).lookup c'.username = w.rows.lookup c'.username := by
        rw [Table.lookup_insert_if, if_neg hu]
      refine ⟨fun e he => ?_, hc.revision, fun hsame => ?_⟩
      · dsimp only
        rw [hlookup]
        exact hc.bound e he
      · dsimp only at hsame ⊢
        rw [hlookup] at hsame
        rw [acceptedTimes_ne (Ne.symm hu)]
        exact hc.fresh hsame

theorem LoginInv.written (h : LoginInv limit w) (hok : c.Ok limit w value expected) :
    LoginInv limit (w.written id c value expected) := by
  unfold LoginWorld.written LoginWorld.cas
  by_cases hcas : (w.rows.lookup c.username).map (·.revision) = expected
  · rw [if_pos hcas]
    exact h.accept hok hcas
  · rw [if_neg hcas]
    exact h.erase id

theorem LoginInv.step {op : LoginOp} (h : LoginInv limit w) (horder : w.InOrder op)
    (hstep : w.step limit op = some w') : LoginInv limit w' := by
  cases op with
  | tick time =>
    simp only [LoginWorld.step] at hstep
    split at hstep
    · cases hstep
      exact ⟨⟨h.limited.windows, h.limited.refusals⟩, h.row, fun id c value expected hc hphase =>
        ⟨(h.call id c value expected hc hphase).bound, (h.call id c value expected hc hphase).revision,
          (h.call id c value expected hc hphase).fresh⟩⟩
    · cases hstep
  | call id username =>
    simp only [LoginWorld.step] at hstep
    split at hstep
    · cases hstep
    · cases hstep
      exact h.insert fun value expected hphase => by cases hphase
  | select id =>
    obtain ⟨c, hc, hstep⟩ := Option.bind_eq_some_iff.1 hstep
    split at hstep
    · cases hstep
      exact h.selected (horder c hc)
    · cases hstep
  | write id =>
    obtain ⟨c, hc, hstep⟩ := Option.bind_eq_some_iff.1 hstep
    cases hphase : c.phase with
    | selecting =>
      rw [hphase] at hstep
      cases hstep
    | writing value expected =>
      rw [hphase] at hstep
      cases hstep
      exact h.written (h.call id c value expected hc hphase)
  | abort id =>
    cases hstep
    exact h.erase id

theorem LoginWorld.Start.inv (h : w.Start) : LoginInv limit w := by
  refine ⟨⟨fun username start => ?_, fun newer username t older hlog => ?_⟩, fun username => ?_,
    fun id c value expected hc => ?_⟩
  · rw [h.log]
    exact Nat.zero_le _
  · rw [h.log] at hlog
    simp at hlog
  · rw [h.rows, h.log]
    rfl
  · rw [h.calls] at hc
    cases hc

/-- When the transactions read the rows in the order of their times, every minute has at most `limit` accepted
attempts, and an attempt is refused only when the minute before it is full. -/
theorem login_attempts_limited (hstart : w.Start) {ops : List LoginOp} (horder : Along (LoginWorld.step limit)
    LoginWorld.InOrder w ops) (hrun : run (LoginWorld.step limit) w ops = some w') : w'.Limited limit :=
  (run_inv (LoginInv limit) (fun _ _ _ h horder hstep => h.step horder hstep) hstart.inv horder hrun).limited

end

namespace Sample

def loginWorld : LoginWorld := { clock := 0, rows := ∅, calls := ∅, log := [] }

/-- A whole call at the given time. -/
def login (id : Nat) (time : DateTime) : List LoginOp := [.tick time, .call id "user", .select id, .write id]

/-- The third attempt within a minute is refused. -/
def threeLogins : List LoginOp :=
  login 1 1000000000 ++ login 2 2000000000 ++ [.tick 60000000000, .call 3 "user", .select 3]

/-- The transaction of a call waits until that of a later call has pruned the list. -/
def overtaken : List LoginOp :=
  login 1 1000000000 ++ login 2 1500000000 ++ [.tick 60500000000, .call 3 "user"] ++ login 4 62000000000 ++
    [.select 3, .write 3]

def loggedIn (ops : List LoginOp) : LoginWorld := (run (LoginWorld.step 2) loginWorld ops).getD loginWorld

instance (w : LoginWorld) (op : LoginOp) : Decidable (w.InOrder op) :=
  match op with
  | .select id => decidable_of_iff ((w.calls.lookup id).all fun c => (acceptedTimes c.username w.log).all (· ≤ c.at'))
      (by simp [LoginWorld.InOrder, Option.all_eq_true])
  | .tick _ | .call _ _ | .write _ | .abort _ => inferInstanceAs (Decidable True)

end Sample

theorem login_attempts_limited_refused : (Sample.loggedIn Sample.threeLogins).Limited 2 ∧
    (Sample.loggedIn Sample.threeLogins).log = [.refused "user" 60000000000, .accepted "user" 2000000000,
      .accepted "user" 1000000000] := by
  have hstart : Sample.loginWorld.Start := ⟨rfl, rfl, rfl⟩
  have hsome : (run (LoginWorld.step 2) Sample.loginWorld Sample.threeLogins).isSome := by decide +kernel
  exact ⟨login_attempts_limited hstart (by decide +kernel) (run_getD hsome Sample.loginWorld), by decide +kernel⟩

/-- Two accepted attempts are pruned by a later call; the call in between finds room that is not there. -/
theorem login_attempts_overtaken : ∃ w, run (LoginWorld.step 2) Sample.loginWorld Sample.overtaken = some w ∧
    ¬ w.Limited 2 := by
  have hsome : (run (LoginWorld.step 2) Sample.loginWorld Sample.overtaken).isSome := by decide +kernel
  refine ⟨Sample.loggedIn Sample.overtaken, run_getD hsome Sample.loginWorld, fun h => ?_⟩
  exact absurd (h.windows "user" 500000000) (by decide +kernel)

end Inoreader
