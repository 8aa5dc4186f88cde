import Inoreader.Glossary.Polling

/-!
# Pollers and the Bot API

A server forgets the updates below the offset of a request and answers with the oldest ones it still has; the payload
of an answer is whatever it sends. New updates get greater ids. A request may be answered, or it reaches the server and
its answer is lost. `received`, `committed` and `applied` are history variables: the payloads of all answers, those that
were stored, and the events that were applied to the posts.
-/

namespace Inoreader
open Lib

abbrev ChannelKey : Type := AccountId × WorkspaceId

structure BotServer where
  /-- The ids of the updates that it still has, the oldest first. -/
  remaining : List Int := []
  deleted : List Int := []
deriving DecidableEq, Repr

namespace BotServer

/-- Every update that it ever had. -/
def known (s : BotServer) : List Int := s.deleted ++ s.remaining

/-- A request with this offset arrives. -/
def acknowledge (s : BotServer) : Option Int → BotServer
  | none => s
  | some offset =>
    { remaining := s.remaining.filter (offset ≤ ·), deleted := s.deleted ++ s.remaining.filter (· < offset) }

def arrived (s : BotServer) (id : Int) : BotServer := { s with remaining := s.remaining ++ [id] }

end BotServer

inductive PollPhase
  | claimed
  | received (batch : UpdateBatch)
  /-- The response is stored, refused or lost, and the channel is still to be released. -/
  | settled
deriving DecidableEq, Repr

structure Poller where
  claim : PollClaim
  phase : PollPhase
deriving DecidableEq, Repr

def Poller.key (p : Poller) : ChannelKey := (p.claim.owner, p.claim.workspace)

structure PollWorld where
  db : GlossaryDb
  servers : Table ChannelKey BotServer := ∅
  pollers : Table Nat Poller := ∅
  received : List (ChannelKey × Int × String) := []
  committed : List (ChannelKey × Int × String) := []
  applied : List (ChannelKey × Int) := []

inductive PollLabel
  | lease (poller : Nat) (key : ChannelKey) (lease seconds : Nat) (now : DateTime)
  | fetch (poller : Nat) (raw : String) (answer : List (Int × String))
  /-- The request reaches the server, and its answer is lost. -/
  | lose (poller : Nat)
  | persist (poller : Nat) (receipt : Nat) (now : DateTime)
  | release (poller : Nat) (error : Option String) (retry : Nat) (now : DateTime)
  | crash (poller : Nat)
  | arrive (key : ChannelKey) (id : Int)
  | project (key : ChannelKey) (batchSize : Nat)
  | reindex (key : ChannelKey) (cursor : Int) (batchSize : Nat)
  /-- Imports, the public history and the commands of the owner; a channel is created without a cursor. -/
  | elsewhere (db : GlossaryDb)

namespace PollWorld

def server (w : PollWorld) (key : ChannelKey) : BotServer := (w.servers.lookup key).getD {}

/-- The request of a claim arrives at the server of its channel. -/
def request (w : PollWorld) (p : Poller) : PollWorld :=
  { w with servers := w.servers.insert p.key ((w.server p.key).acknowledge p.claim.offset) }

def setPhase (w : PollWorld) (id : Nat) (p : Poller) (phase : PollPhase) : PollWorld :=
  { w with pollers := w.pollers.insert id { p with phase } }

section
variable (P : GlossaryPlatform) (parser : GlossaryParser) (timeText : DateTime → String)

/-- `poll_once`, one await after the other. -/
def step (w : PollWorld) : PollLabel → Option PollWorld
  | .lease id key lease seconds now =>
    if w.pollers.lookup id = none then
      match leasePoll timeText key lease seconds now w.db with
      | .ok (some claim, db) => some { w with db, pollers := w.pollers.insert id { claim, phase := .claimed } }
      | .ok (none, db) => some { w with db }
      | .error _ => some w
    else none
  | .fetch id raw answer =>
    match w.pollers.lookup id with
    | some p =>
      if p.phase = .claimed ∧ (answer.map (·.1)).isPrefixOf ((w.request p).server p.key).remaining then
        let w := { w.request p with received := answer.map (fun e => (p.key, e)) ++ w.received }
        match UpdateBatch.new raw (answer.map fun e => (some e.1, e.2)) with
        | .ok batch => some (w.setPhase id p (.received batch))
        | .error _ => some (w.setPhase id p .settled)
      else none
    | none => none
  | .lose id =>
    match w.pollers.lookup id with
    | some p => if p.phase = .claimed then some ((w.request p).setPhase id p .settled) else none
    | none => none
  | .persist id receipt now =>
    match w.pollers.lookup id with
    | some p =>
      match p.phase with
      | .received batch =>
        match persistBatch p.claim batch receipt now w.db with
        | .ok (_, db) =>
          let committed := batch.updates.map (fun e => (p.key, e)) ++ w.committed
          some (setPhase { w with db, committed } id p .settled)
        | .error _ => some (w.setPhase id p .settled)
      | _ => none
    | none => none
  | .release id error retry now =>
    match w.pollers.lookup id with
    | some p =>
      if p.phase = .settled then
        some { w with db := (releasePoll p.claim error retry now).commit w.db, pollers := w.pollers.erase id }
      else none
    | none => none
  | .crash id => some { w with pollers := w.pollers.erase id }
  | .arrive key id =>
    if ∀ known ∈ (w.server key).known, known < id then
      some { w with servers := w.servers.insert key ((w.server key).arrived id) }
    else none
  | .project key batchSize =>
    match projectEvents P parser key.1 key.2 batchSize w.db with
    | .ok (_, db) =>
      some { w with db, applied := (w.db.appliedBy P parser key batchSize).map (fun id => (key, id)) ++ w.applied }
    | .error _ => some w
  | .reindex key cursor batchSize =>
    some { w with db := (reindexBatch P parser key.1 key.2 cursor batchSize).commit w.db }
  | .elsewhere db =>
    if db.events = w.db.events ∧ ∀ e ∈ db.channels.rows, e.2.pollCursor = none ∨ e.2.pollCursor = w.db.pollCursor e.1 then
      some { w with db }
    else none

end

/-- Nothing was polled yet. -/
structure Fresh (w : PollWorld) : Prop where
  events : w.db.events = ∅
  cursor : ∀ key, w.db.pollCursor key = none
  servers : ∀ key, (w.server key).deleted = [] ∧ (w.server key).remaining.Pairwise (· < ·)
  pollers : w.pollers = ∅
  committed : w.committed = []
  applied : w.applied = []

/-- The event is stored. -/
def Stored (w : PollWorld) (key : ChannelKey) (id : Int) : Prop := (w.db.events.lookup (key.1, key.2, id)).isSome

/-- Everything the server had below `c` is stored or among `ids`, and what it will get is not below. -/
structure Covers (w : PollWorld) (key : ChannelKey) (ids : List Int) (c : Int) : Prop where
  stored : ∀ id ∈ (w.server key).known, id < c → id ∈ ids ∨ w.Stored key id
  last : ∃ last ∈ (w.server key).known, c = last + 1

/-- A response in the hands of a poller. -/
structure Holds (w : PollWorld) (key : ChannelKey) (batch : UpdateBatch) : Prop where
  received : ∀ e ∈ batch.updates, (key, e) ∈ w.received
  covers : ∀ c, batch.nextOffset = some c → w.Covers key (batch.updates.map (·.1)) c

structure Inv (w : PollWorld) : Prop where
  sorted : ∀ key, (w.server key).remaining.Pairwise (· < ·)
  deleted : ∀ key, ∀ id ∈ (w.server key).deleted, w.Stored key id
  cursor : ∀ key c, w.db.pollCursor key = some c → w.Covers key [] c
  offset : ∀ id p c, w.pollers.lookup id = some p → p.claim.offset = some c → w.Covers p.key [] c
  batch : ∀ id p b, w.pollers.lookup id = some p → p.phase = .received b → w.Holds p.key b
  received : ∀ key id row, w.db.events.lookup (key.1, key.2, id) = some row → (key, id, row.document) ∈ w.received
  committed : ∀ e ∈ w.committed, ∃ row, w.db.events.lookup (e.1.1, e.1.2, e.2.1) = some row ∧
    (row.document = e.2.2 ∨ row.conflict = true)
  nodup : w.applied.Nodup
  applied : ∀ e ∈ w.applied, ∃ row, w.db.events.lookup (e.1.1, e.1.2, e.2) = some row ∧ row.applied = true

/-- What every step keeps. -/
structure Later (w w' : PollWorld) : Prop where
  known : ∀ key id, id ∈ (w.server key).known → id ∈ (w'.server key).known
  fresh : ∀ key id, id ∈ (w'.server key).known → id ∈ (w.server key).known ∨ ∀ x ∈ (w.server key).known, x < id
  events : w.db.KeepsEvents w'.db
  received : ∀ e ∈ w.received, e ∈ w'.received

section
variable {P : GlossaryPlatform} {parser : GlossaryParser} {timeText : DateTime → String} {w w' : PollWorld}
  {key : ChannelKey}

theorem Stored.later {id : Int} (h : w.Stored key id) (hl : w.Later w') : w'.Stored key id := by
  obtain ⟨row, hrow⟩ := Option.isSome_iff_exists.1 h
  obtain ⟨row', hrow', -⟩ := hl.events _ _ hrow
  exact Option.isSome_iff_exists.2 ⟨row', hrow'⟩

theorem Covers.later {ids : List Int} {c : Int} (h : w.Covers key ids c) (hl : w.Later w') : w'.Covers key ids c := by
  obtain ⟨last, hlast, hc⟩ := h.last
  refine ⟨fun id hid hlt => ?_, last, hl.known key last hlast, hc⟩
  rcases hl.fresh key id hid with hid | hnew
  · rcases h.stored id hid hlt with hmem | hstored
    · exact .inl hmem
    · exact .inr (hstored.later hl)
  · have := hnew last hlast
    omega

theorem Holds.later {batch : UpdateBatch} (h : w.Holds key batch) (hl : w.Later w') : w'.Holds key batch :=
  ⟨fun e he => hl.received _ (h.received e he), fun c hc => (h.covers c hc).later hl⟩

theorem Later.refl (w : PollWorld) : w.Later w :=
  ⟨fun _ _ h => h, fun _ _ h => .inl h, .refl _, fun _ h => h⟩

theorem server_insert (w : PollWorld) (key k : ChannelKey) (s : BotServer) :
    server { w with servers := w.servers.insert key s } k = if k = key then s else w.server k := by
  unfold server
  dsimp only
  rw [Table.lookup_insert_if]
  split <;> rfl

theorem mem_known_acknowledge (s : BotServer) (offset : Option Int) (id : Int) :
    id ∈ (s.acknowledge offset).known ↔ id ∈ s.known := by
  cases offset with
  | none => exact Iff.rfl
  | some c =>
    simp only [BotServer.acknowledge, BotServer.known, List.mem_append, List.mem_filter, decide_eq_true_eq]
    constructor
    · rintro ((h | ⟨h, -⟩) | ⟨h, -⟩)
      · exact .inl h
      · exact .inr h
      · exact .inr h
    · rintro (h | h)
      · exact .inl (.inl h)
      · by_cases hc : id < c
        · exact .inl (.inr ⟨h, hc⟩)
        · exact .inr ⟨h, not_lt.1 hc⟩

/-- An id up to the last one of a cut of an increasing list is in the cut. -/
theorem mem_prefix_of_le {cut l : List Int} {last id : Int} (hl : l.Pairwise (· < ·)) (hcut : cut <+: l)
    (hlast : last ∈ cut) (hid : id ∈ l) (hle : id ≤ last) : id ∈ cut := by
  obtain ⟨rest, rfl⟩ := hcut
  rcases List.mem_append.1 hid with h | h
  · exact h
  · have := (List.pairwise_append.1 hl).2.2 last hlast id h
    omega

namespace Inv

/-- The invariant after a change of the database that keeps the cursors and stores no new event. -/
theorem sameEvents (h : w.Inv) {db : GlossaryDb} (hcursor : ∀ key c, db.pollCursor key = some c → w.db.pollCursor key = some c)
    (hrel : ∀ k, Option.Rel EventRow.Later (w.db.events.lookup k) (db.events.lookup k)) : Inv { w with db } := by
  have hkeeps : w.db.KeepsEvents db := by
    intro k row hrow
    have hk := hrel k
    rw [hrow] at hk
    exact rel_some hk
  have hl : w.Later { w with db } := ⟨fun _ _ h => h, fun _ _ h => .inl h, hkeeps, fun _ h => h⟩
  refine ⟨h.sorted, fun key id hid => (h.deleted key id hid).later hl, fun key c hc => (h.cursor key c (hcursor key c hc)).later hl,
    fun id p c hp hc => (h.offset id p c hp hc).later hl, fun id p b hp hb => (h.batch id p b hp hb).later hl,
    fun key id row hrow => ?_, fun e he => ?_, h.nodup, fun e he => ?_⟩
  · have hk := hrel (key.1, key.2, id)
    dsimp only at hrow
    rw [hrow] at hk
    cases hold : w.db.events.lookup (key.1, key.2, id) with
    | none =>
      rw [hold] at hk
      cases hk
    | some row₀ =>
      rw [hold] at hk
      obtain ⟨row', hrow', hlater⟩ := rel_some hk
      cases hrow'
      rw [hlater.document]
      exact h.received key id row₀ hold
  · obtain ⟨row, hrow, hpayload⟩ := h.committed e he
    obtain ⟨row', hrow', hlater⟩ := hkeeps _ _ hrow
    exact ⟨row', hrow', hpayload.imp (fun hd => hlater.document.trans hd) hlater.conflict⟩
  · obtain ⟨row, hrow, happlied⟩ := h.applied e he
    obtain ⟨row', hrow', hlater⟩ := hkeeps _ _ hrow
    exact ⟨row', hrow', hlater.applied happlied⟩

theorem polled (h : w.Inv) {db : GlossaryDb} (hpolled : db.polled = w.db.polled) : Inv { w with db } := by
  obtain ⟨hevents, hcursor⟩ := Prod.mk.inj hpolled
  exact h.sameEvents (fun key c hc => by rw [← hcursor]; exact hc) fun k => by rw [hevents]; exact optionRel_refl _

/-- Other pollers. -/
theorem setPollers (h : w.Inv) {t : Table Nat Poller}
    (ht : ∀ id p, t.lookup id = some p → (∀ c, p.claim.offset = some c → w.Covers p.key [] c) ∧
      ∀ b, p.phase = .received b → w.Holds p.key b) : Inv { w with pollers := t } := by
  have hl : w.Later { w with pollers := t } := ⟨fun _ _ h => h, fun _ _ h => .inl h, .refl _, fun _ h => h⟩
  exact ⟨h.sorted, h.deleted, fun key c hc => (h.cursor key c hc).later hl, fun id p c hp hc => ((ht id p hp).1 c hc).later hl,
    fun id p b hp hb => ((ht id p hp).2 b hb).later hl, h.received, h.committed, h.nodup, h.applied⟩

theorem setPoller (h : w.Inv) {id : Nat} {p : Poller} (hoffset : ∀ c, p.claim.offset = some c → w.Covers p.key [] c)
    (hbatch : ∀ b, p.phase = .received b → w.Holds p.key b) : Inv { w with pollers := w.pollers.insert id p } := by
  refine h.setPollers fun i q hq => ?_
  rw [Table.lookup_insert_if] at hq
  split at hq
  · cases hq
    exact ⟨hoffset, hbatch⟩
  · exact ⟨fun c hc => h.offset i q c hq hc, fun b hb => h.batch i q b hq hb⟩

theorem erasePoller (h : w.Inv) (id : Nat) : Inv { w with pollers := w.pollers.erase id } := by
  refine h.setPollers fun i q hq => ?_
  rw [Table.lookup_erase_if] at hq
  split at hq
  · cases hq
  · exact ⟨fun c hc => h.offset i q c hq hc, fun b hb => h.batch i q b hq hb⟩

/-- A poller goes on without a response. -/
theorem settle (h : w.Inv) {id : Nat} {p : Poller} (hp : ∀ c, p.claim.offset = some c → w.Covers p.key [] c) :
    Inv (w.setPhase id p .settled) :=
  h.setPoller (p := { p with phase := .settled }) hp fun b hb => by cases hb

theorem later_receive (w : PollWorld) (es : List (ChannelKey × Int × String)) :
    w.Later { w with received := es ++ w.received } :=
  ⟨fun _ _ h => h, fun _ _ h => .inl h, .refl _, fun _ h => List.mem_append_right _ h⟩

theorem receive (h : w.Inv) (es : List (ChannelKey × Int × String)) : Inv { w with received := es ++ w.received } := by
  have hl := later_receive w es
  exact ⟨h.sorted, h.deleted, fun key c hc => (h.cursor key c hc).later hl, fun id p c hp hc => (h.offset id p c hp hc).later hl,
    fun id p b hp hb => (h.batch id p b hp hb).later hl, fun key id row hrow => hl.received _ (h.received key id row hrow),
    h.committed, h.nodup, h.applied⟩

/-- The servers of other channels stay, the one of `key` knows at least what it knew. -/
theorem setServer (h : w.Inv) {s : BotServer} (hl : w.Later { w with servers := w.servers.insert key s })
    (hsorted : s.remaining.Pairwise (· < ·)) (hdeleted : ∀ id ∈ s.deleted, w.Stored key id) :
    Inv { w with servers := w.servers.insert key s } := by
  refine ⟨fun k => ?_, fun k id hid => ?_, fun k c hc => (h.cursor k c hc).later hl, fun id p c hp hc => (h.offset id p c hp hc).later hl,
    fun id p b hp hb => (h.batch id p b hp hb).later hl, h.received, h.committed, h.nodup, h.applied⟩
  · rw [server_insert]
    split
    · exact hsorted
    · exact h.sorted k
  · rw [server_insert] at hid
    split at hid
    · rename_i hk
      subst hk
      exact hdeleted id hid
    · exact h.deleted k id hid

theorem later_request (w : PollWorld) (p : Poller) : w.Later (w.request p) := by
  have hknown : ∀ key id, id ∈ ((w.request p).server key).known ↔ id ∈ (w.server key).known := by
    intro key id
    unfold request
    rw [server_insert]
    split
    · rename_i hk
      rw [mem_known_acknowledge, hk]
    · exact Iff.rfl
  exact ⟨fun key id hid => (hknown key id).2 hid, fun key id hid => .inl ((hknown key id).1 hid), .refl _, fun _ h => h⟩

/-- A request deletes what its offset covers. -/
theorem request (h : w.Inv) {id : Nat} {p : Poller} (hp : w.pollers.lookup id = some p) : Inv (w.request p) := by
  refine h.setServer (later_request w p) ?_ ?_
  · cases hoffset : p.claim.offset with
    | none => exact h.sorted p.key
    | some c => exact (h.sorted p.key).filter _
  · intro i hi
    cases hoffset : p.claim.offset with
    | none =>
      rw [hoffset] at hi
      exact h.deleted p.key i hi
    | some c =>
      rw [hoffset] at hi
      simp only [BotServer.acknowledge, List.mem_append, List.mem_filter, decide_eq_true_eq] at hi
      rcases hi with hi | ⟨hi, hlt⟩
      · exact h.deleted p.key i hi
      · rcases (h.offset id p c hp hoffset).stored i (List.mem_append_right _ hi) hlt with hnil | hstored
        · cases hnil
        · exact hstored

/-- An answer is the oldest part of what remains, so its next offset is covered by it. -/
theorem holds_answer (h : w.Inv) {answer : List (Int × String)} {raw : String} {batch : UpdateBatch}
    (hreceived : ∀ e ∈ answer, (key, e) ∈ w.received) (hgrowing : answer.map (·.1) <+: (w.server key).remaining)
    (hbatch : UpdateBatch.new raw (answer.map fun e => (some e.1, e.2)) = .ok batch) : w.Holds key batch := by
  obtain ⟨hresponse, hnext⟩ := updateBatch_new_ok hbatch
  have hupdates : batch.updates = answer := by
    have hinj : Function.Injective fun e : Int × String => (some e.1, e.2) := by
      rintro ⟨i, d⟩ ⟨i', d'⟩ he
      simpa using he
    exact (List.map_injective_iff.2 hinj hresponse).symm
  refine ⟨fun e he => hreceived e (hupdates ▸ he), fun c hc => ?_⟩
  cases hlast : batch.updates.getLast? with
  | none =>
    -- an empty answer has no next offset
    have hnil : answer = [] := by rw [← hupdates]; exact List.getLast?_eq_none_iff.1 hlast
    subst hnil
    cases hbatch
    cases hc
  | some last =>
    rw [hnext last hlast] at hc
    cases hc
    have hmem : last.1 ∈ answer.map (·.1) := List.mem_map_of_mem (hupdates ▸ List.mem_of_getLast? hlast)
    refine ⟨fun id hid hlt => ?_, last.1, List.mem_append_right _ (hgrowing.subset hmem), rfl⟩
    rcases List.mem_append.1 hid with hid | hid
    · exact .inr (h.deleted key id hid)
    · rw [hupdates]
      exact .inl (mem_prefix_of_le (h.sorted key) hgrowing hmem hid (by omega))

theorem arrive (h : w.Inv) {id : Int} (hnew : ∀ known ∈ (w.server key).known, known < id) :
    Inv { w with servers := w.servers.insert key ((w.server key).arrived id) } ∧
      w.Later { w with servers := w.servers.insert key ((w.server key).arrived id) } := by
  have hknown : ∀ x, x ∈ ((w.server key).arrived id).known ↔ x ∈ (w.server key).known ∨ x = id := by
    intro x
    simp [BotServer.arrived, BotServer.known, or_assoc]
  have hl : w.Later { w with servers := w.servers.insert key ((w.server key).arrived id) } := by
    refine ⟨fun k x hx => ?_, fun k x hx => ?_, .refl _, fun _ h => h⟩
    · rw [server_insert]
      split
      · rename_i hk
        subst hk
        exact (hknown x).2 (.inl hx)
      · exact hx
    · rw [server_insert] at hx
      split at hx
      · rename_i hk
        subst hk
        rcases (hknown x).1 hx with hx | rfl
        · exact .inl hx
        · exact .inr hnew
      · exact .inl hx
  refine ⟨h.setServer hl ?_ fun i hi => h.deleted key i hi, hl⟩
  refine List.pairwise_append.2 ⟨h.sorted key, List.pairwise_singleton _ _, fun x hx y hy => ?_⟩
  rw [List.mem_singleton.1 hy]
  exact hnew x (List.mem_append_right _ hx)

/-- A response is stored. -/
theorem persist (h : w.Inv) {id : Nat} {p : Poller} {batch : UpdateBatch} {receipt : Nat} {now : DateTime} {u : Unit}
    {db : GlossaryDb} (hp : w.pollers.lookup id = some p) (hphase : p.phase = .received batch)
    (hrun : persistBatch p.claim batch receipt now w.db = .ok (u, db)) :
    Inv { w with db, committed := batch.updates.map (fun e => (p.key, e)) ++ w.committed } ∧
      w.Later { w with db, committed := batch.updates.map (fun e => (p.key, e)) ++ w.committed } := by
  have hholds := h.batch id p batch hp hphase
  rcases persistBatch_ok hrun with ⟨hnil, rfl⟩ | ⟨-, hsaved, hcursor⟩
  · rw [hnil]
    have hl : w.Later { w with db := w.db, committed := [].map (fun e => (p.key, e)) ++ w.committed } := .refl w
    exact ⟨h, hl⟩
  · have hl : w.Later { w with db, committed := batch.updates.map (fun e => (p.key, e)) ++ w.committed } :=
      ⟨fun _ _ h => h, fun _ _ h => .inl h, hsaved.kept, fun _ h => h⟩
    have hstored : ∀ e ∈ batch.updates, (db.events.lookup (p.key.1, p.key.2, e.1)).isSome := by
      intro e he
      obtain ⟨row, hrow, -⟩ := hsaved.stored e he
      exact Option.isSome_iff_exists.2 ⟨row, hrow⟩
    refine ⟨⟨h.sorted, fun key i hi => (h.deleted key i hi).later hl, fun key c hc => ?_,
      fun i q c hq hc => (h.offset i q c hq hc).later hl, fun i q b hq hb => (h.batch i q b hq hb).later hl,
      fun key i row hrow => ?_, fun e he => ?_, h.nodup, fun e he => ?_⟩, hl⟩
    · dsimp only at hc
      rw [hcursor] at hc
      split at hc
      · -- the new cursor is the next offset of the response, whose updates are stored now
        rename_i hk
        obtain ⟨rfl, -⟩ := hk
        obtain ⟨hcovers, hlast⟩ := (hholds.covers c hc).later hl
        refine ⟨fun i hi hlt => .inr ?_, hlast⟩
        rcases hcovers i hi hlt with hmem | hst
        · obtain ⟨e, he, rfl⟩ := List.mem_map.1 hmem
          exact hstored e he
        · exact hst
      · exact (h.cursor key c hc).later hl
    · rcases hsaved.source _ _ hrow with ⟨row₀, hrow₀, hdoc⟩ | ⟨e, he, hk, hdoc⟩
      · rw [hdoc]
        exact h.received key i row₀ hrow₀
      · have hkey : key = p.key := Prod.ext (congrArg (·.1) hk) (congrArg (·.2.1) hk)
        have hi : i = e.1 := congrArg (·.2.2) hk
        rw [hdoc, hkey, hi]
        exact hholds.received e he
    · rcases List.mem_append.1 he with he | he
      · obtain ⟨e', he', rfl⟩ := List.mem_map.1 he
        exact hsaved.stored e' he'
      · obtain ⟨row, hrow, hpayload⟩ := h.committed e he
        obtain ⟨row', hrow', hlater⟩ := hsaved.kept _ _ hrow
        exact ⟨row', hrow', hpayload.imp (fun hd => hlater.document.trans hd) hlater.conflict⟩
    · obtain ⟨row, hrow, happlied⟩ := h.applied e he
      obtain ⟨row', hrow', hlater⟩ := hsaved.kept _ _ hrow
      exact ⟨row', hrow', hlater.applied happlied⟩

theorem later_sameEvents {db : GlossaryDb}
    (hrel : ∀ k, Option.Rel EventRow.Later (w.db.events.lookup k) (db.events.lookup k)) : w.Later { w with db } := by
  refine ⟨fun _ _ h => h, fun _ _ h => .inl h, fun k row hrow => ?_, fun _ h => h⟩
  have hk := hrel k
  rw [hrow] at hk
  exact rel_some hk

theorem later_polled {db : GlossaryDb} (hpolled : db.polled = w.db.polled) : w.Later { w with db } :=
  later_sameEvents fun k => by rw [(Prod.mk.inj hpolled).1]; exact optionRel_refl _

/-- A batch of events is projected. -/
theorem project (h : w.Inv) {batchSize : Nat} {u : Unit} {db : GlossaryDb}
    (hrun : projectEvents P parser key.1 key.2 batchSize w.db = .ok (u, db)) :
    Inv { w with db, applied := (w.db.appliedBy P parser key batchSize).map (fun id => (key, id)) ++ w.applied } := by
  obtain ⟨hcursor, hrel, happlied, hnodup⟩ := projectEvents_ok hrun
  have hsame : Inv { w with db } := h.sameEvents (fun key c hc => by rw [← hcursor]; exact hc) hrel
  have hl : Later { w with db } { w with db, applied := (w.db.appliedBy P parser key batchSize).map (fun id => (key, id)) ++ w.applied } :=
    ⟨fun _ _ h => h, fun _ _ h => .inl h, .refl _, fun _ h => h⟩
  refine ⟨hsame.sorted, hsame.deleted, fun k c hc => (hsame.cursor k c hc).later hl,
    fun i q c hq hc => (hsame.offset i q c hq hc).later hl, fun i q b hq hb => (hsame.batch i q b hq hb).later hl,
    hsame.received, hsame.committed, ?_, fun e he => ?_⟩
  · refine List.nodup_append'.2 ⟨hnodup.map fun i i' he => (Prod.mk.inj he).2, h.nodup, fun e he he' => ?_⟩
    -- an applied event is no longer pending
    obtain ⟨id, hid, rfl⟩ := List.mem_map.1 he
    obtain ⟨row, -, hrow, hunapplied, -, -⟩ := happlied id hid
    obtain ⟨row', hrow', happlied'⟩ := h.applied _ he'
    rw [hrow] at hrow'
    cases hrow'
    rw [hunapplied] at happlied'
    cases happlied'
  · rcases List.mem_append.1 he with he | he
    · obtain ⟨id, hid, rfl⟩ := List.mem_map.1 he
      obtain ⟨-, row', -, -, hrow', happlied'⟩ := happlied id hid
      exact ⟨row', hrow', happlied'⟩
    · exact hsame.applied e he

end Inv

theorem Later.trans {w₁ w₂ w₃ : PollWorld} (h : w₁.Later w₂) (h' : w₂.Later w₃) : w₁.Later w₃ := by
  refine ⟨fun key id hid => h'.known key id (h.known key id hid), fun key id hid => ?_, h.events.trans h'.events,
    fun e he => h'.received e (h.received e he)⟩
  rcases h'.fresh key id hid with hid | hnew
  · exact h.fresh key id hid
  · exact .inr fun x hx => hnew x (h.known key x hx)

theorem later_setPhase (w : PollWorld) (id : Nat) (p : Poller) (phase : PollPhase) : w.Later (w.setPhase id p phase) :=
  ⟨fun _ _ h => h, fun _ _ h => .inl h, .refl _, fun _ h => h⟩

/-- Every step keeps the invariant and what was stored. -/
theorem Inv.step {a : PollLabel} (h : w.Inv) (hstep : step P parser timeText w a = some w') : w'.Inv ∧ w.Later w' := by
  cases a with
  | lease id key lease seconds now =>
    unfold PollWorld.step at hstep
    simp only at hstep
    split at hstep
    · split at hstep
      · rename_i claim db hlease
        cases hstep
        obtain ⟨hpolled, hclaim⟩ := leasePoll_polled hlease
        obtain ⟨hkey, hoffset⟩ := hclaim claim rfl
        have hdb := h.polled hpolled
        refine ⟨hdb.setPoller (p := { claim, phase := .claimed }) (fun c hc => ?_) (fun b hb => by cases hb), ?_⟩
        · have hcursor : w.db.pollCursor key = some c := by rw [← hoffset]; exact hc
          show Covers { w with db } (claim.owner, claim.workspace) [] c
          rw [hkey]
          exact (h.cursor key c hcursor).later (Inv.later_polled hpolled)
        · exact (Inv.later_polled hpolled).trans ⟨fun _ _ h => h, fun _ _ h => .inl h, .refl _, fun _ h => h⟩
      · rename_i db hlease
        cases hstep
        obtain ⟨hpolled, -⟩ := leasePoll_polled hlease
        exact ⟨h.polled hpolled, Inv.later_polled hpolled⟩
      · cases hstep
        exact ⟨h, .refl _⟩
    · cases hstep
  | fetch id raw answer =>
    unfold PollWorld.step at hstep
    simp only at hstep
    split at hstep
    · rename_i p hp
      split at hstep
      · rename_i hguard
        have hreq := h.request hp
        have hrec := hreq.receive (answer.map fun e => (p.key, e))
        have hl := (Inv.later_request w p).trans (Inv.later_receive (w.request p) (answer.map fun e => (p.key, e)))
        have hoffset : ∀ c, p.claim.offset = some c →
            Covers { w.request p with received := answer.map (fun e => (p.key, e)) ++ w.received } p.key [] c :=
          fun c hc => (h.offset id p c hp hc).later hl
        split at hstep
        · rename_i batch hbatch
          cases hstep
          refine ⟨hrec.setPoller (p := { p with phase := .received batch }) hoffset fun b hb => ?_, hl.trans (later_setPhase _ _ _ _)⟩
          cases hb
          refine hrec.holds_answer (fun e he => List.mem_append_left _ (List.mem_map_of_mem he)) ?_ hbatch
          exact List.isPrefixOf_iff_prefix.1 hguard.2
        · cases hstep
          exact ⟨hrec.settle hoffset, hl.trans (later_setPhase _ _ _ _)⟩
      · cases hstep
    · cases hstep
  | lose id =>
    unfold PollWorld.step at hstep
    simp only at hstep
    split at hstep
    · rename_i p hp
      split at hstep
      · cases hstep
        have hl := Inv.later_request w p
        exact ⟨(h.request hp).settle fun c hc => (h.offset id p c hp hc).later hl, hl.trans (later_setPhase _ _ _ _)⟩
      · cases hstep
    · cases hstep
  | persist id receipt now =>
    unfold PollWorld.step at hstep
    simp only at hstep
    split at hstep
    · rename_i p hp
      split at hstep
      · rename_i batch hphase
        split at hstep
        · rename_i u db hrun
          cases hstep
          obtain ⟨hinv, hl⟩ := h.persist hp hphase hrun
          exact ⟨hinv.settle fun c hc => (h.offset id p c hp hc).later hl, hl.trans (later_setPhase _ _ _ _)⟩
        · cases hstep
          exact ⟨h.settle fun c hc => h.offset id p c hp hc, later_setPhase _ _ _ _⟩
      · cases hstep
    · cases hstep
  | release id error retry now =>
    unfold PollWorld.step at hstep
    simp only at hstep
    split at hstep
    · rename_i p hp
      split at hstep
      · cases hstep
        have hpolled : ((releasePoll p.claim error retry now).commit w.db).polled = w.db.polled :=
          Tx.commit_of_wp (P := fun db => db.polled = w.db.polled) rfl fun u db hrun => releasePoll_polled hrun
        exact ⟨(h.polled hpolled).erasePoller id,
          (Inv.later_polled hpolled).trans ⟨fun _ _ h => h, fun _ _ h => .inl h, .refl _, fun _ h => h⟩⟩
      · cases hstep
    · cases hstep
  | crash id =>
    cases hstep
    exact ⟨h.erasePoller id, ⟨fun _ _ h => h, fun _ _ h => .inl h, .refl _, fun _ h => h⟩⟩
  | arrive key id =>
    unfold PollWorld.step at hstep
    simp only at hstep
    split at hstep
    · rename_i hnew
      cases hstep
      exact h.arrive hnew
    · cases hstep
  | project key batchSize =>
    unfold PollWorld.step at hstep
    simp only at hstep
    split at hstep
    · rename_i u db hrun
      cases hstep
      refine ⟨h.project hrun, (Inv.later_sameEvents (projectEvents_ok hrun).2.1).trans ?_⟩
      exact ⟨fun _ _ h => h, fun _ _ h => .inl h, .refl _, fun _ h => h⟩
    · cases hstep
      exact ⟨h, .refl _⟩
  | reindex key cursor batchSize =>
    cases hstep
    have hrun : ((reindexBatch P parser key.1 key.2 cursor batchSize).commit w.db).pollCursor = w.db.pollCursor ∧
        ∀ k, Option.Rel EventRow.Later (w.db.events.lookup k)
          (((reindexBatch P parser key.1 key.2 cursor batchSize).commit w.db).events.lookup k) :=
      Tx.commit_of_wp (P := fun db => db.pollCursor = w.db.pollCursor ∧
        ∀ k, Option.Rel EventRow.Later (w.db.events.lookup k) (db.events.lookup k)) ⟨rfl, fun k => optionRel_refl _⟩
        fun u db hrun => reindexBatch_ok hrun
    exact ⟨h.sameEvents (fun key c hc => by rw [← hrun.1]; exact hc) hrun.2, Inv.later_sameEvents hrun.2⟩
  | elsewhere db =>
    unfold PollWorld.step at hstep
    simp only at hstep
    split at hstep
    · rename_i hguard
      cases hstep
      have hrel : ∀ k, Option.Rel EventRow.Later (w.db.events.lookup k) (db.events.lookup k) :=
        fun k => by rw [hguard.1]; exact optionRel_refl _
      refine ⟨h.sameEvents (fun key c hc => ?_) hrel, Inv.later_sameEvents hrel⟩
      obtain ⟨channel, hchannel, hcursor⟩ := Option.bind_eq_some_iff.1 hc
      rcases hguard.2 (key, channel) (Table.mem_rows.2 hchannel) with hnone | hsame
      · rw [hnone] at hcursor
        cases hcursor
      · exact hsame ▸ hcursor
    · cases hstep

theorem Fresh.inv (h : w.Fresh) : w.Inv := by
  refine ⟨fun key => (h.servers key).2, fun key id hid => ?_, fun key c hc => ?_, fun id p c hp => ?_, fun id p b hp => ?_,
    fun key id row hrow => ?_, fun e he => ?_, ?_, fun e he => ?_⟩
  · rw [(h.servers key).1] at hid
    cases hid
  · rw [h.cursor key] at hc
    cases hc
  · rw [h.pollers] at hp
    simp at hp
  · rw [h.pollers] at hp
    simp at hp
  · rw [h.events] at hrow
    simp at hrow
  · rw [h.committed] at he
    cases he
  · rw [h.applied]
    exact List.nodup_nil
  · rw [h.applied] at he
    cases he

theorem inv_run {as : List PollLabel} (h : w.Inv) (hrun : run (step P parser timeText) w as = some w') :
    w'.Inv ∧ w.Later w' := by
  induction as generalizing w with
  | nil =>
    cases hrun
    exact ⟨h, .refl _⟩
  | cons a as ih =>
    obtain ⟨w₁, hstep, hrun⟩ := run_cons.1 hrun
    obtain ⟨h₁, hl⟩ := h.step hstep
    obtain ⟨h₂, hl'⟩ := ih h₁ hrun
    exact ⟨h₂, hl.trans hl'⟩

/-- In every run: what the server deleted is stored as it was received, a stored document stays and another payload for
its id leaves a mark that stays too, and no event is applied twice. -/
theorem telegram_updates_stored {as : List PollLabel} (hfresh : w.Fresh) (hrun : run (step P parser timeText) w as = some w') :
    (∀ key, ∀ id ∈ (w'.server key).deleted, ∃ row, w'.db.events.lookup (key.1, key.2, id) = some row ∧
      (key, id, row.document) ∈ w'.received) ∧
    (∀ e ∈ w'.committed, ∃ row, w'.db.events.lookup (e.1.1, e.1.2, e.2.1) = some row ∧
      (row.document = e.2.2 ∨ row.conflict = true)) ∧
    (∀ before after w₁, as = before ++ after → run (step P parser timeText) w before = some w₁ →
      w₁.db.KeepsEvents w'.db) ∧
    w'.applied.Nodup := by
  obtain ⟨hinv, -⟩ := inv_run hfresh.inv hrun
  refine ⟨fun key id hid => ?_, hinv.committed, fun before after w₁ has hbefore => ?_, hinv.nodup⟩
  · obtain ⟨row, hrow⟩ := Option.isSome_iff_exists.1 (hinv.deleted key id hid)
    exact ⟨row, hrow, hinv.received key id row hrow⟩
  · rw [has] at hrun
    obtain ⟨w₂, hbefore', hafter⟩ := run_append.1 hrun
    rw [hbefore] at hbefore'
    cases hbefore'
    exact (inv_run (inv_run hfresh.inv hbefore).1 hafter).2.events

end
end PollWorld

namespace Sample

/-- A channel with a token. -/
def pollDb : GlossaryDb :=
  { owners := (∅ : Table WorkspaceId AccountId).insert ⟨1⟩ ⟨1⟩
    channels := (∅ : Table (AccountId × WorkspaceId) ChannelRow).insert (⟨1⟩, ⟨1⟩)
      { glossaryChannel with encryptedToken := some "token" } }

def pollStep : PollWorld → PollLabel → Option PollWorld :=
  PollWorld.step glossaryPlatform (glossaryParsers.parser "v1") fun _ => ""

/-- The lease of the first poller expires; the second one stores the update and the third one acknowledges it. -/
def pollRun : List PollLabel :=
  [.arrive (⟨1⟩, ⟨1⟩) 20, .lease 1 (⟨1⟩, ⟨1⟩) 11 1 0, .fetch 1 "" [(20, "other")],
   .lease 2 (⟨1⟩, ⟨1⟩) 12 1 2000000000, .fetch 2 "" [(20, (jsonObject (eventFields 20 "one")).text)],
   .persist 1 101 2000000001, .persist 2 102 2000000001, .project (⟨1⟩, ⟨1⟩) 10, .release 2 none 0 2000000002,
   .lease 3 (⟨1⟩, ⟨1⟩) 13 1 3000000000, .lose 3]

def pollEnd : PollWorld := (run pollStep { db := pollDb } pollRun).getD { db := pollDb }

end Sample

namespace PollWorld
open Sample

/-- The deleted update is stored with the document of the second response, and was applied once. -/
theorem telegram_updates_stored_expired :
    (pollEnd.server (⟨1⟩, ⟨1⟩)).deleted = [20] ∧ pollEnd.applied = [((⟨1⟩, ⟨1⟩), 20)] ∧
    ∃ row, pollEnd.db.events.lookup (⟨1⟩, ⟨1⟩, 20) = some row ∧ ((⟨1⟩, ⟨1⟩), 20, row.document) ∈ pollEnd.received := by
  have hrun : run pollStep { db := pollDb } pollRun = some pollEnd := run_getD (by decide +kernel) _
  have hdeleted : (pollEnd.server (⟨1⟩, ⟨1⟩)).deleted = [20] := by decide +kernel
  have happlied : pollEnd.applied = [((⟨1⟩, ⟨1⟩), 20)] := by decide +kernel
  have hfresh : Fresh { db := pollDb } := by
    refine ⟨rfl, fun key => ?_, fun key => ⟨rfl, List.Pairwise.nil⟩, rfl, rfl, rfl⟩
    show ((Table.insert ∅ _ _).lookup key).bind _ = none
    rw [Table.lookup_insert_if]
    split <;> rfl
  generalize pollEnd = w at hrun hdeleted happlied ⊢
  obtain ⟨hstored, -⟩ := telegram_updates_stored hfresh hrun
  exact ⟨hdeleted, happlied, hstored (⟨1⟩, ⟨1⟩) 20 (by rw [hdeleted]; exact List.mem_singleton.2 rfl)⟩

end PollWorld
end Inoreader
