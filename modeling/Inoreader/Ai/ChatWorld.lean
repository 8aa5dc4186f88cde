import Inoreader.Ai.ChatOps
import Inoreader.Lib.Run

/-!
# Chats and their workers

Any number of workers and commands act on the chats, one transaction at a time, under a clock that does not go
back. A worker keeps the claim that it was given and the calls that it began; chats, messages, calls and leases
have fresh UUIDs, the ids of commands are the clients'.
-/

namespace Inoreader
open Lib

structure ChatWorld where
  db : AiDb
  clock : DateTime
  /-- The claims that were given to workers, by lease. -/
  claims : Table Nat ClaimedChat := ∅
  /-- The lease of the worker that began a call. -/
  begun : Table Nat Nat := ∅
  /-- The UUIDs that were drawn. -/
  used : List Nat := []
  /-- Chat, attempt and phase of the calls that were admitted. -/
  admitted : List (Nat × Nat × GenerationPhase) := []
  /-- Chat and attempt of the drafts that were published without a review. -/
  unchecked : List (Nat × Nat) := []

inductive ChatLabel
  | tick (clock : DateTime)
  | create (start : ChatStart) (settings : ChatSettings) (input : ArticleInput) (automatic : Bool)
  | append (owner : AccountId) (chat operation : Nat) (kind : OperationKind) (user assistant : Nat)
  | stop (owner : AccountId) (chat : Nat)
  | prioritize (owner : AccountId) (chat : Nat)
  /-- A change of the model preferences reschedules deferred chats. -/
  | reschedule (chat : Nat)
  | claim (batch : Nat) (locked : List Nat) (lease seconds : Nat)
  | begin (lease : Nat) (phase : GenerationPhase) (reservation : SpendReservation) (model : CallModel) (call : Nat)
  | update (lease call : Nat) (update : CallUpdate)
  | updateClaim (lease : Nat) (next : ChatStatus) (content : Option String) (snapshot : Option ArticleSnapshot)
      (error : Option String)
  | finishUnchecked (lease : Nat)
  | defer (lease : Nat) (reason : AiDeferral)
  | settle (owner : AccountId) (id : Nat) (amount : String)
  /-- Any change of the other tables. -/
  | elsewhere (db : AiDb)

/-- The assistant message of the claimed attempt. -/
def ClaimedChat.attempt (claim : ClaimedChat) : Nat := (claim.record.operations.getLast?.map (·.assistantId)).getD 0

/-- The claim after its worker has pinned a snapshot. -/
def ClaimedChat.pinned (claim : ClaimedChat) (snapshot : Option ArticleSnapshot) : ClaimedChat :=
  { claim with record := { claim.record with snapshot := snapshot.or claim.record.snapshot } }

/-- The UUIDs that a step draws. -/
def ChatLabel.ids : ChatLabel → List Nat
  | .create start _ _ _ => [start.chat, start.assistant]
  | .append _ _ _ _ user assistant => [user, assistant]
  | .claim _ _ lease _ => [lease]
  | .begin _ _ _ _ call => [call]
  | _ => []

/-- The worker that acts. -/
def ChatLabel.worker : ChatLabel → Option Nat
  | .begin lease _ _ _ _ => some lease
  | .update lease _ _ => some lease
  | .updateClaim lease _ _ _ _ => some lease
  | .finishUnchecked lease => some lease
  | .defer lease _ => some lease
  | _ => none

namespace ChatWorld

def start (db : AiDb) (clock : DateTime) : ChatWorld := { db, clock }

/-- The committed state of a command. -/
def commits {α : Type} (w : ChatWorld) (m : AiTx α) : ChatWorld := { w with db := m.commit w.db }

/-- The steps of a worker with its claim. -/
def work (P : AiPlatform) (w : ChatWorld) (claim : ClaimedChat) : ChatLabel → Option ChatWorld
  | .begin lease phase reservation model call =>
    match beginCall P claim phase reservation model call w.clock w.db with
    | .ok (_, db) =>
      some { w with
        db := db
        begun := w.begun.insert call lease
        admitted := (claim.record.view.id, claim.attempt, phase) :: w.admitted }
    | .error _ => some w
  | .update lease call update =>
    if w.begun.lookup call = some lease then some (w.commits (updateCall P claim call update w.clock)) else none
  | .updateClaim lease next content snapshot error =>
    match updateClaim P claim next content snapshot error w.clock w.db with
    | .ok (_, db) => some { w with db := db, claims := w.claims.insert lease (claim.pinned snapshot) }
    | .error _ => some w
  | .finishUnchecked _ =>
    match finishUnchecked P claim w.clock w.db with
    | .ok (true, db) => some { w with db := db, unchecked := (claim.record.view.id, claim.attempt) :: w.unchecked }
    | .ok (false, db) => some { w with db := db }
    | .error _ => some w
  | .defer _ reason => some (w.commits (deferChat claim reason w.clock))
  | _ => none

/-- The steps of everyone else. -/
def act (P : AiPlatform) (w : ChatWorld) : ChatLabel → Option ChatWorld
  | .tick clock => if w.clock ≤ clock then some { w with clock } else none
  | .create start settings input automatic =>
    match start.prepare settings input w.clock with
    | .ok record => some (w.commits (createChat P record start.operation start.regenerate automatic w.clock))
    | .error _ => some w
  | .append owner chat operation kind user assistant =>
    some (w.commits (Inoreader.append P owner chat operation kind user assistant w.clock))
  | .stop owner chat => some (w.commits (Inoreader.stop P owner chat))
  | .prioritize owner chat => some (w.commits (Inoreader.prioritize owner chat w.clock))
  | .reschedule chat =>
    match w.db.chats.lookup chat with
    | some row => some { w with db := w.db.setChat chat { row with scheduledAt := w.clock } }
    | none => none
  | .claim batch locked lease seconds =>
    match claimChat P batch locked lease seconds w.clock w.db with
    | .ok (some claim, db) => some { w with db := db, claims := w.claims.insert lease claim }
    | .ok (none, db) => some { w with db := db }
    | .error _ => some w
  | .settle owner id amount => some (w.commits (Inoreader.settle owner id amount))
  | .elsewhere db =>
    some { w with db := { db with
      chats := w.db.chats
      operations := w.db.operations
      callModels := w.db.callModels
      callResponses := w.db.callResponses } }
  | _ => none

def draw (w : ChatWorld) (ids : List Nat) : ChatWorld := { w with used := ids ++ w.used }

/-- One step; the UUIDs that it draws are fresh. -/
def step (P : AiPlatform) (w : ChatWorld) (a : ChatLabel) : Option ChatWorld :=
  if a.ids.Nodup ∧ ∀ id ∈ a.ids, id ∉ w.used then
    match a.worker with
    | some lease => (w.claims.lookup lease).bind fun claim => (w.draw a.ids).work P claim a
    | none => (w.draw a.ids).act P a
  else none

end ChatWorld

/-! ## What a step does to the chats -/

/-- A part of a step: `ids` are the UUIDs that it draws, `allowed` says what it may do to which chat. -/
inductive AiDb.Move (P : AiPlatform) (now : DateTime) (ids : List Nat) (allowed : Nat → ChatCause → Prop)
    (db db' : AiDb) : Prop
  | still (chats : db'.chats = db.chats)
      (operations : ∀ k, (db.operations.lookup k).isSome = true → (db'.operations.lookup k).isSome = true)
      (responses : ∀ k v, db.callResponses.lookup k = some v → db'.callResponses.lookup k = some v)
  | new {id : Nat} {row : ChatRow} {r : ChatRecord} (lookup : db.chats.lookup id = none)
      (sound : row.Sound P db'.operations id r)
      (messages : ∀ m ∈ r.view.messages, m.id ∈ ids ∧ m.status ≠ .complete)
      (chats : db'.chats = db.chats.insert id row)
      (operations : ∀ k, (db.operations.lookup k).isSome = true → (db'.operations.lookup k).isSome = true)
      (responses : ∀ k v, db.callResponses.lookup k = some v → db'.callResponses.lookup k = some v)
  | change {id : Nat} {cause : ChatCause} {row row' : ChatRow} {r r' : ChatRecord} (hcause : allowed id cause)
      (h : db.Changes P cause now db' id row r row' r')

/-- What no step takes back. -/
structure AiDb.Evolves (P : AiPlatform) (db db' : AiDb) : Prop where
  chats : ∀ id row r, db.chats.lookup id = some row → row.Holds P id r → ∃ row' r', db'.chats.lookup id = some row' ∧
    row'.Holds P id r' ∧ r.Extends r' ∧ (row.publicRevision < row'.publicRevision ∨
      (row'.publicRevision = row.publicRevision ∧ row'.publicView = row.publicView))
  responses : ∀ k v, db.callResponses.lookup k = some v → db'.callResponses.lookup k = some v

section Moves
variable {P : AiPlatform} {now : DateTime} {ids : List Nat} {allowed : Nat → ChatCause → Prop} {db db' db'' : AiDb}

theorem AiDb.Evolves.refl (db : AiDb) : db.Evolves P db :=
  ⟨fun _ row r hlookup hrow => ⟨row, r, hlookup, hrow, .refl r, .inr ⟨rfl, rfl⟩⟩, fun _ _ hv => hv⟩

theorem AiDb.Evolves.trans (h : db.Evolves P db') (h' : db'.Evolves P db'') : db.Evolves P db'' := by
  refine ⟨fun id row r hlookup hrow => ?_, fun k v hv => h'.responses k v (h.responses k v hv)⟩
  obtain ⟨row', r', hlookup', hrow', hext, hrev⟩ := h.chats id row r hlookup hrow
  obtain ⟨row'', r'', hlookup'', hrow'', hext', hrev'⟩ := h'.chats id row' r' hlookup' hrow'
  refine ⟨row'', r'', hlookup'', hrow'', hext.trans hext', ?_⟩
  rcases hrev with hlt | ⟨heq, hview⟩
  · rcases hrev' with hlt' | ⟨heq', -⟩
    · exact .inl (hlt.trans hlt')
    · exact .inl (heq' ▸ hlt)
  · rcases hrev' with hlt' | ⟨heq', hview'⟩
    · exact .inl (heq ▸ hlt')
    · exact .inr ⟨heq'.trans heq, hview'.trans hview⟩

theorem AiDb.Move.chatSound (h : db.Move P now ids allowed db') (hsound : db.ChatSound P) : db'.ChatSound P := by
  have hold : ∀ {operations : Table (AccountId × Nat) (Nat × OperationKind)},
      (∀ k, (db.operations.lookup k).isSome = true → (operations.lookup k).isSome = true) →
      ∀ id row, db.chats.lookup id = some row → ∃ r, row.Sound P operations id r := by
    intro operations hmono id row hlookup
    obtain ⟨r, hs⟩ := hsound id row hlookup
    exact ⟨r, hs.holds, hs.good, hs.idle, fun op hop => hmono _ (hs.saved op hop)⟩
  cases h with
  | still chats operations =>
    intro id row hlookup
    rw [chats] at hlookup
    exact hold operations id row hlookup
  | @new id row r _ sound _ chats operations =>
    intro k row' hlookup
    rw [chats, Table.lookup_insert_if] at hlookup
    split at hlookup
    · rename_i hk
      cases hlookup
      exact ⟨r, hk ▸ sound⟩
    · exact hold operations k row' hlookup
  | change _ h => exact h.chatSound hsound

theorem AiDb.Move.evolves (h : db.Move P now ids allowed db') : db.Evolves P db' := by
  cases h with
  | still chats _ responses =>
    refine ⟨fun id row r hlookup hrow => ⟨row, r, ?_, hrow, .refl r, .inr ⟨rfl, rfl⟩⟩, responses⟩
    rw [chats]
    exact hlookup
  | @new id row r lookup _ _ chats _ responses =>
    refine ⟨fun k row' r' hlookup hrow => ⟨row', r', ?_, hrow, .refl r', .inr ⟨rfl, rfl⟩⟩, responses⟩
    rw [chats, Table.lookup_insert_if, if_neg]
    · exact hlookup
    · rintro rfl
      rw [lookup] at hlookup
      cases hlookup
  | @change id cause row row' r r' _ h =>
    refine ⟨fun k row₁ r₁ hlookup hrow => ?_, h.responses⟩
    rw [h.chats]
    by_cases hk : k = id
    · subst hk
      rw [h.lookup] at hlookup
      cases hlookup
      obtain rfl := h.sound.holds.unique hrow
      exact ⟨row', r', by simp [Table.lookup_insert_if], h.change.holds h.sound, h.change.extended h.sound,
        h.change.revision⟩
    · exact ⟨row₁, r₁, by simpa [Table.lookup_insert_if, hk] using hlookup, hrow, .refl r₁, .inr ⟨rfl, rfl⟩⟩

/-- The ids of the messages are drawn. -/
theorem AiDb.Move.messages {used : List Nat} (h : db.Move P now ids allowed db')
    (hids : ∀ id user assistant, allowed id (.command user assistant) → user ∈ ids ∧ assistant ∈ ids)
    (hused : ∀ id row r, db.chats.lookup id = some row → row.Holds P id r → ∀ m ∈ r.view.messages, m.id ∈ ids ++ used)
    {id : Nat} {row : ChatRow} {r : ChatRecord} (hlookup : db'.chats.lookup id = some row) (hrow : row.Holds P id r)
    (m : ChatMessage) (hm : m ∈ r.view.messages) : m.id ∈ ids ++ used := by
  cases h with
  | still chats =>
    rw [chats] at hlookup
    exact hused id row r hlookup hrow m hm
  | @new id' row' r' _ sound messages chats =>
    rw [chats, Table.lookup_insert_if] at hlookup
    split at hlookup
    · rename_i hk
      cases hlookup
      obtain rfl := (hk ▸ sound.holds : row.Holds P id r').unique hrow
      exact List.mem_append_left _ (messages m hm).1
    · exact hused id row r hlookup hrow m hm
  | @change id' cause row' row'' r' r'' hcause h =>
    rw [h.chats, Table.lookup_insert_if] at hlookup
    split at hlookup
    · rename_i hk
      subst hk
      cases hlookup
      obtain rfl := (h.change.holds h.sound).unique hrow
      rcases h.change.messageIds hm with ⟨m', hm', hid⟩ | ⟨user, assistant, rfl, hid⟩
      · rw [← hid]
        exact hused _ _ _ h.lookup h.sound.holds m' hm'
      · obtain ⟨hu, ha⟩ := hids _ user assistant hcause
        rcases hid with hid | hid
        · exact List.mem_append_left _ (hid ▸ hu)
        · exact List.mem_append_left _ (hid ▸ ha)
    · exact hused id row r hlookup hrow m hm

abbrev AiDb.Moves (P : AiPlatform) (now : DateTime) (ids : List Nat) (allowed : Nat → ChatCause → Prop) :
    AiDb → AiDb → Prop :=
  Relation.ReflTransGen (AiDb.Move P now ids allowed)

theorem AiDb.Moves.chatSound (h : AiDb.Moves P now ids allowed db db') (hsound : db.ChatSound P) : db'.ChatSound P := by
  induction h with
  | refl => exact hsound
  | tail _ hmove ih => exact hmove.chatSound ih

theorem AiDb.Moves.evolves (h : AiDb.Moves P now ids allowed db db') : db.Evolves P db' := by
  induction h with
  | refl => exact .refl db
  | tail _ hmove ih => exact ih.trans hmove.evolves

theorem AiDb.Moves.messages {used : List Nat} (h : AiDb.Moves P now ids allowed db db')
    (hids : ∀ id user assistant, allowed id (.command user assistant) → user ∈ ids ∧ assistant ∈ ids)
    (hused : ∀ id row r, db.chats.lookup id = some row → row.Holds P id r → ∀ m ∈ r.view.messages, m.id ∈ ids ++ used) :
    ∀ id row r, db'.chats.lookup id = some row → row.Holds P id r → ∀ m ∈ r.view.messages, m.id ∈ ids ++ used := by
  induction h with
  | refl => exact hused
  | tail _ hmove ih =>
    intro id row r hlookup hrow
    exact hmove.messages hids ih hlookup hrow

end Moves

namespace ChatWorld

/-- The step is a command with a new operation id that commits. -/
def Appends (P : AiPlatform) (w : ChatWorld) (id : Nat) (a : ChatLabel) : Prop :=
  match a with
  | .append owner chat operation kind user assistant => chat = id ∧ w.db.operations.lookup (owner, operation) = none ∧
      (Inoreader.append P owner chat operation kind user assistant w.clock w.db).isOk = true
  | _ => False

/-- What a step may do to the chat `id`. -/
def Allows (P : AiPlatform) (w : ChatWorld) (a : ChatLabel) (id : Nat) (cause : ChatCause) : Prop :=
  match a with
  | .append _ _ _ _ user assistant => cause = .command user assistant ∧ w.Appends P id a
  | .stop _ _ => cause = .finish
  | .prioritize _ _ => cause = .queue
  | .reschedule _ => cause = .queue
  | .claim _ _ _ _ => cause = .finish ∨ cause = .queue
  | .begin lease _ _ _ _ => cause = .work lease
  | .update _ _ _ => cause = .report
  | .updateClaim lease _ _ _ _ => cause = .work lease
  | .finishUnchecked lease => ∃ claim, w.claims.lookup lease = some claim ∧ claim.record.view.id = id ∧
      cause = .unchecked lease claim.attempt
  | .defer lease _ => ∃ claim, w.claims.lookup lease = some claim ∧ claim.record.view.id = id ∧ cause = .defer lease
  | _ => False

structure Inv (P : AiPlatform) (w : ChatWorld) : Prop where
  sound : w.db.ChatSound P
  messages : ∀ id row r, w.db.chats.lookup id = some row → row.Holds P id r → ∀ m ∈ r.view.messages, m.id ∈ w.used
  claims : ∀ lease claim, w.claims.lookup lease = some claim → claim.lease = lease ∧ ∃ row r,
    w.db.chats.lookup claim.record.view.id = some row ∧ row.Holds P claim.record.view.id r ∧ claim.Of r

section Steps
variable {P : AiPlatform} {w w' : ChatWorld} {a : ChatLabel} {lease : Nat} {claim : ClaimedChat}

theorem Inv.fits (h : w.Inv P) (hclaim : w.claims.lookup lease = some claim) : claim.Fits P w.db := by
  obtain ⟨-, row, r, hlookup, hrow, hof⟩ := h.claims lease claim hclaim
  intro row' r' hlookup' hrow'
  rw [hlookup] at hlookup'
  cases hlookup'
  obtain rfl := hrow.unique hrow'
  exact hof

/-- The attempt of a claim is the attempt of the operation that the chat has under its id. -/
theorem attempt_of_claim {r : ChatRecord} {op claimed : Operation} (h : claim.Of r)
    (hgood : r.Good) (hop : op ∈ r.operations) (hclaimed : claim.record.operations.getLast? = some claimed)
    (hid : op.id = claimed.id) : claim.attempt = op.assistantId := by
  obtain ⟨claimed', op', hclaimed', hop', hid', hassistant⟩ := h.attempt
  rw [hclaimed] at hclaimed'
  cases hclaimed'
  have heq : op' = op := List.inj_on_of_nodup_map hgood.operationIds hop' hop (hid'.trans hid.symm)
  unfold ClaimedChat.attempt
  rw [hclaimed, Option.map_some, Option.getD_some, ← hassistant, heq]

theorem of_extended {r r' : ChatRecord} (h : claim.Of r) (hext : r.Extends r') : claim.Of r' := by
  obtain ⟨claimed, op, hclaimed, hop, hid, hassistant⟩ := h.attempt
  obtain ⟨op', hop', hid', hassistant', -⟩ := hext.operations op hop
  exact
    { owner := h.owner.trans hext.owner.symm
      key := h.key.trans hext.key.symm
      snapshot := fun source hsource => hext.inputs.snapshot (h.snapshot source hsource)
      limits := h.limits.trans hext.inputs.limits.symm
      attempt := ⟨claimed, op', hclaimed, hop', hid'.trans hid, hassistant'.trans hassistant⟩ }

/-- A claim fits the record that it was made of. -/
theorem of_claimed {r : ChatRecord} (hgood : r.Good) (lease : Nat) : ClaimedChat.Of { record := r, lease } r := by
  obtain ⟨op, hop⟩ := Option.isSome_iff_exists.1 (List.getLast?_isSome.2 hgood.operations)
  exact ⟨rfl, rfl, fun _ h => h, rfl, op, op, hop, List.mem_of_getLast? hop, rfl, rfl⟩

/-- What a step does. -/
structure Stepped (P : AiPlatform) (w w' : ChatWorld) (a : ChatLabel) : Prop where
  moves : AiDb.Moves P w.clock a.ids (w.Allows P a) w.db w'.db
  used : w'.used = a.ids ++ w.used
  clock : w.clock ≤ w'.clock
  claims : ∀ lease claim, w'.claims.lookup lease = some claim → w.claims.lookup lease = some claim ∨
    (claim.lease = lease ∧ ∃ row r, w'.db.chats.lookup claim.record.view.id = some row ∧
      row.Holds P claim.record.view.id r ∧ claim.Of r)

/-- A step that keeps the claims. -/
theorem Stepped.of_moves {db : AiDb} (h : AiDb.Moves P w.clock a.ids (w.Allows P a) w.db db) (w' : ChatWorld)
    (hdb : w'.db = db) (hused : w'.used = a.ids ++ w.used) (hclock : w'.clock = w.clock) (hclaims : w'.claims = w.claims) :
    Stepped P w w' a :=
  ⟨hdb ▸ h, hused, hclock ▸ le_refl _, fun _ _ hclaim => .inl (hclaims ▸ hclaim)⟩

theorem Stepped.inv (h : Stepped P w w' a) (hinv : w.Inv P) : w'.Inv P := by
  have hids : ∀ id user assistant, w.Allows P a id (.command user assistant) → user ∈ a.ids ∧ assistant ∈ a.ids := by
    intro id user assistant hallows
    cases a <;> simp_all [Allows, ChatLabel.ids]
  refine ⟨AiDb.Moves.chatSound h.moves hinv.sound, ?_, fun lease claim hclaim => ?_⟩
  · rw [h.used]
    exact AiDb.Moves.messages h.moves hids fun id row r hlookup hrow m hm =>
      List.mem_append_right _ (hinv.messages id row r hlookup hrow m hm)
  · rcases h.claims lease claim hclaim with hold | hnew
    · obtain ⟨hlease, row, r, hlookup, hrow, hof⟩ := hinv.claims lease claim hold
      obtain ⟨row', r', hlookup', hrow', hext, -⟩ := (AiDb.Moves.evolves h.moves).chats _ row r hlookup hrow
      exact ⟨hlease, row', r', hlookup', hrow', of_extended hof hext⟩
    · exact hnew

/-- What a transaction does if it succeeds. -/
theorem moves_of_commit {α : Type} {m : AiTx α}
    (h : ∀ x db', m w.db = .ok (x, db') → AiDb.Moves P w.clock a.ids (w.Allows P a) w.db db') :
    AiDb.Moves P w.clock a.ids (w.Allows P a) w.db (m.commit w.db) :=
  Tx.commit_of_wp (P := fun db' => AiDb.Moves P w.clock a.ids (w.Allows P a) w.db db') .refl h

/-- A transaction that changes one chat or nothing. -/
theorem moves_of_changes {α : Type} {m : AiTx α} (cause : ChatCause) (id : Nat) (hallows : w.Allows P a id cause)
    (h : ∀ x db', m w.db = .ok (x, db') → db' = w.db ∨ ∃ row r row' r', w.db.Changes P cause w.clock db' id row r row' r') :
    AiDb.Moves P w.clock a.ids (w.Allows P a) w.db (m.commit w.db) := by
  refine moves_of_commit fun x db' hx => ?_
  rcases h x db' hx with rfl | ⟨row, r, row', r', hchanges⟩
  · exact .refl
  · exact .single (.change hallows hchanges)

theorem work_stepped (hinv : w.Inv P) (hclaim : w.claims.lookup lease = some claim) (hworker : a.worker = some lease)
    (h : (w.draw a.ids).work P claim a = some w') : Stepped P w w' a := by
  have hfits := hinv.fits hclaim
  have hlease : claim.lease = lease := (hinv.claims lease claim hclaim).1
  cases a with
  | begin l phase reservation model call =>
    cases hworker
    unfold work at h
    simp only at h
    cases hbegin : beginCall P claim phase reservation model call w.clock w.db with
    | error e =>
      simp only [draw, hbegin] at h
      cases h
      exact .of_moves .refl _ rfl rfl rfl rfl
    | ok x =>
      simp only [draw, hbegin] at h
      cases h
      obtain ⟨row, r, row', r', op, claimed, hchanges, -⟩ := beginCall_ok hinv.sound hbegin
      exact .of_moves (.single (.change (hlease ▸ rfl) hchanges)) _ rfl rfl rfl rfl
  | update l call update =>
    cases hworker
    unfold work at h
    simp only at h
    split at h
    · cases h
      refine .of_moves ?_ _ rfl rfl rfl rfl
      refine moves_of_changes .report claim.record.view.id rfl fun x db' hx => ?_
      obtain ⟨row, r, row', r', claimed, hchanges, -⟩ := updateCall_ok hinv.sound hfits hx
      exact .inr ⟨row, r, row', r', hchanges⟩
    · cases h
  | updateClaim l next content snapshot error =>
    cases hworker
    unfold work at h
    simp only at h
    cases hupdate : Inoreader.updateClaim P claim next content snapshot error w.clock w.db with
    | error e =>
      simp only [draw, hupdate] at h
      cases h
      exact .of_moves .refl _ rfl rfl rfl rfl
    | ok x =>
      simp only [draw, hupdate] at h
      cases h
      obtain ⟨row, r, row', r', hchanges, -, hsnapshot⟩ := updateClaim_ok hinv.sound hfits hupdate
      refine ⟨.single (.change (hlease ▸ rfl) hchanges), rfl, le_refl _, fun k claim' hk => ?_⟩
      rw [Table.lookup_insert_if] at hk
      split at hk
      · rename_i hkey
        cases hk
        subst hkey
        refine .inr ⟨hlease, row', r', ?_, hchanges.change.holds hchanges.sound, ?_⟩
        · show x.2.chats.lookup claim.record.view.id = some row'
          rw [hchanges.chats, Table.lookup_insert_if, if_pos rfl]
        · have hof := hfits row r hchanges.lookup hchanges.sound.holds
          have hext := hchanges.change.extended hchanges.sound
          have hof' := of_extended hof hext
          refine ⟨hof'.owner, hof'.key, fun source hsource => ?_, hof'.limits, hof'.attempt⟩
          rw [hsnapshot]
          cases snapshot with
          | some pinned => exact hsource
          | none => exact hof.snapshot source hsource
      · exact .inl hk
  | finishUnchecked l =>
    cases hworker
    unfold work at h
    simp only at h
    cases hfinish : Inoreader.finishUnchecked P claim w.clock w.db with
    | error e =>
      simp only [draw, hfinish] at h
      cases h
      exact .of_moves .refl _ rfl rfl rfl rfl
    | ok x =>
      obtain ⟨b, db⟩ := x
      rcases finishUnchecked_ok hinv.sound hfits hfinish with ⟨rfl, rfl⟩ |
        ⟨row, r, row', r', op, claimed, rfl, hchanges, -, hop, hclaimed, hid⟩
      · simp only [draw, hfinish] at h
        cases h
        exact .of_moves .refl _ rfl rfl rfl rfl
      · simp only [draw, hfinish] at h
        cases h
        have hattempt : claim.attempt = op.assistantId :=
          attempt_of_claim (hfits row r hchanges.lookup hchanges.sound.holds) hchanges.sound.good hop hclaimed hid
        refine .of_moves (.single (.change ?_ hchanges)) _ rfl rfl rfl rfl
        exact ⟨claim, hclaim, rfl, by rw [hlease, hattempt]⟩
  | defer l reason =>
    cases hworker
    unfold work at h
    cases h
    refine .of_moves ?_ _ rfl rfl rfl rfl
    refine moves_of_changes (.defer claim.lease) claim.record.view.id ⟨claim, hclaim, rfl, by rw [hlease]⟩
      fun x db' hx => ?_
    obtain ⟨row, r, row', r', hchanges, -⟩ := deferChat_ok hinv.sound hx
    exact .inr ⟨row, r, row', r', hchanges⟩
  | _ => cases hworker

theorem pendingStep_move {db db' : AiDb} {batch seconds : Nat} {locked : List Nat}
    (h : AiDb.PendingStep P w.clock db db') :
    AiDb.Move P w.clock [lease] (w.Allows P (.claim batch locked lease seconds)) db db' := by
  obtain ⟨cause, id, row, r, row', r', hcause, hchanges, -⟩ := h
  exact .change hcause hchanges

theorem act_stepped (hinv : w.Inv P) (hfresh : a.ids.Nodup ∧ ∀ id ∈ a.ids, id ∉ w.used)
    (h : (w.draw a.ids).act P a = some w') : Stepped P w w' a := by
  cases a with
  | tick clock =>
    unfold act at h
    simp only at h
    split at h
    · rename_i hclock
      cases h
      exact ⟨.refl, rfl, hclock, fun _ _ hclaim => .inl hclaim⟩
    · cases h
  | create start settings input automatic =>
    unfold act at h
    simp only at h
    cases hprepare : start.prepare settings input w.clock with
    | error e =>
      simp only [draw, hprepare] at h
      cases h
      exact .of_moves .refl _ rfl rfl rfl rfl
    | ok record =>
      simp only [draw, hprepare] at h
      cases h
      refine .of_moves (moves_of_commit fun x db' hx => ?_) _ rfl rfl rfl rfl
      obtain ⟨operations, hmono, rfl | ⟨row, hnew, hs, -, rfl⟩⟩ := createChat_ok hprepare hx
      · exact .single (.still rfl hmono fun _ _ hv => hv)
      · obtain ⟨-, -, -, -, hmessages, -⟩ := ChatStart.prepare_ok hprepare
        refine .single (.new hnew hs (fun m hm => ?_) rfl hmono fun _ _ hv => hv)
        rw [hmessages, List.mem_singleton] at hm
        rw [hm]
        exact ⟨by simp [ChatLabel.ids, newAttempt], nofun⟩
  | append owner chat operation kind user assistant =>
    cases h
    have hids : user ∉ w.used ∧ assistant ∉ w.used := ⟨hfresh.2 user (by simp [ChatLabel.ids]),
      hfresh.2 assistant (by simp [ChatLabel.ids])⟩
    have hne : user ≠ assistant := by simpa [ChatLabel.ids] using hfresh.1
    have hmessages : ∀ row r, w.db.chats.lookup chat = some row → row.Holds P chat r →
        user ∉ r.view.messages.map (·.id) ∧ assistant ∉ r.view.messages.map (·.id) := by
      intro row r hlookup hrow
      have hused := hinv.messages chat row r hlookup hrow
      constructor <;> intro hmem <;> obtain ⟨m, hm, hid⟩ := List.mem_map.1 hmem
      · exact hids.1 (hid ▸ hused m hm)
      · exact hids.2 (hid ▸ hused m hm)
    refine .of_moves (moves_of_commit fun x db' hx => ?_) _ rfl rfl rfl rfl
    have hx : Inoreader.append P owner chat operation kind user assistant w.clock w.db = .ok (x, db') := hx
    rcases append_ok hinv.sound hmessages hne hx with ⟨rfl, -⟩ | ⟨hnew, row, r, row', r', hchanges⟩
    · exact .refl
    · exact .single (.change ⟨rfl, rfl, hnew, by rw [hx]; rfl⟩ hchanges)
  | stop owner chat =>
    cases h
    refine .of_moves ?_ _ rfl rfl rfl rfl
    exact moves_of_changes .finish chat rfl fun x db' hx => stop_ok hinv.sound hx
  | prioritize owner chat =>
    cases h
    refine .of_moves ?_ _ rfl rfl rfl rfl
    exact moves_of_changes .queue chat rfl fun x db' hx => prioritize_ok hinv.sound hx
  | reschedule chat =>
    unfold act at h
    simp only [draw] at h
    cases hlookup : w.db.chats.lookup chat with
    | none =>
      rw [hlookup] at h
      cases h
    | some row =>
      rw [hlookup] at h
      cases h
      obtain ⟨r, hs⟩ := hinv.sound chat row hlookup
      have hchanges : w.db.Changes P .queue w.clock (w.db.setChat chat { row with scheduledAt := w.clock }) chat row r
          { row with scheduledAt := w.clock } r :=
        ⟨hlookup, hs, .schedule, rfl, fun _ hk => hk, fun _ _ hv => hv⟩
      have hmoves : AiDb.Moves P w.clock [] (w.Allows P (.reschedule chat)) w.db _ := .single (.change rfl hchanges)
      exact .of_moves hmoves _ rfl rfl rfl rfl
  | claim batch locked l seconds =>
    unfold act at h
    simp only at h
    cases hresult : claimChat P batch locked l seconds w.clock w.db with
    | error e =>
      simp only [draw, hresult] at h
      cases h
      exact .of_moves .refl _ rfl rfl rfl rfl
    | ok x =>
      obtain ⟨result, db'⟩ := x
      obtain ⟨db₁, hsteps, -, hend⟩ := claimChat_ok hinv.sound hresult
      have hmoves : AiDb.Moves P w.clock [l] (w.Allows P (.claim batch locked l seconds)) w.db db₁ :=
        Relation.ReflTransGen.mono (fun _ _ hstep => pendingStep_move hstep) _ _ hsteps
      rcases hend with ⟨rfl, heq | hstep⟩ | ⟨id, row, r, rfl, -, hchanges⟩
      · simp only [draw, hresult] at h
        cases h
        exact .of_moves (heq ▸ hmoves) _ rfl rfl rfl rfl
      · simp only [draw, hresult] at h
        cases h
        exact .of_moves (hmoves.tail (pendingStep_move hstep)) _ rfl rfl rfl rfl
      · simp only [draw, hresult] at h
        cases h
        have hmoves' : AiDb.Moves P w.clock [l] (w.Allows P (.claim batch locked l seconds)) w.db db' :=
          hmoves.tail (.change (.inr rfl) hchanges)
        refine ⟨hmoves', rfl, le_refl _, fun k claim hk => ?_⟩
        rw [Table.lookup_insert_if] at hk
        split at hk
        · rename_i hkey
          cases hk
          subst hkey
          have hkey' : r.view.id = id := hchanges.sound.holds.key
          refine .inr ⟨rfl, _, r, ?_, hkey' ▸ hchanges.change.holds hchanges.sound, of_claimed hchanges.sound.good k⟩
          simp only [hkey']
          rw [hchanges.chats, Table.lookup_insert_if, if_pos rfl]
        · exact .inl hk
  | settle owner id amount =>
    cases h
    refine .of_moves (moves_of_commit fun x db' hx => ?_) _ rfl rfl rfl rfl
    obtain ⟨row, -, -, -, rfl⟩ := settle_ok hx
    exact .single (.still rfl (fun _ hk => hk) fun _ _ hv => hv)
  | elsewhere db =>
    cases h
    refine ⟨.single (.still rfl (fun _ hk => hk) fun _ _ hv => hv), rfl, le_refl _, fun _ _ hclaim => .inl hclaim⟩
  | _ => cases h

/-- Only workers admit calls and publish drafts. -/
theorem act_ghosts (h : w.act P a = some w') : w'.admitted = w.admitted ∧ w'.unchecked = w.unchecked := by
  cases a with
  | tick clock =>
    unfold act at h
    simp only at h
    split at h <;> cases h
    exact ⟨rfl, rfl⟩
  | create start settings input automatic =>
    unfold act at h
    simp only at h
    split at h <;> cases h <;> exact ⟨rfl, rfl⟩
  | reschedule chat =>
    unfold act at h
    simp only at h
    split at h <;> cases h
    exact ⟨rfl, rfl⟩
  | claim batch locked lease seconds =>
    unfold act at h
    simp only at h
    split at h <;> cases h <;> exact ⟨rfl, rfl⟩
  | _ => cases h <;> exact ⟨rfl, rfl⟩

/-- A step of a worker has its claim, the others have none. -/
theorem step_cases (h : step P w a = some w') :
    (a.worker = none ∧ (a.ids.Nodup ∧ ∀ id ∈ a.ids, id ∉ w.used) ∧ (w.draw a.ids).act P a = some w') ∨
      ∃ lease claim, a.worker = some lease ∧ w.claims.lookup lease = some claim ∧
        (w.draw a.ids).work P claim a = some w' := by
  unfold step at h
  split at h
  · rename_i hfresh
    cases hworker : a.worker with
    | none =>
      simp only [hworker] at h
      exact .inl ⟨rfl, hfresh, h⟩
    | some lease =>
      simp only [hworker] at h
      obtain ⟨claim, hclaim, h⟩ := Option.bind_eq_some_iff.1 h
      exact .inr ⟨lease, claim, rfl, hclaim, h⟩
  · cases h

theorem step_stepped (hinv : w.Inv P) (h : step P w a = some w') : Stepped P w w' a := by
  rcases step_cases h with ⟨-, hfresh, h⟩ | ⟨lease, claim, hworker, hclaim, h⟩
  · exact act_stepped hinv hfresh h
  · exact work_stepped hinv hclaim hworker h

theorem Inv.step (hinv : w.Inv P) (h : step P w a = some w') : w'.Inv P := (step_stepped hinv h).inv hinv

theorem inv_start {db : AiDb} (hdb : db.chats = ∅) (clock : DateTime) : (start db clock).Inv P where
  sound := by
    intro id row hlookup
    simp [start, hdb] at hlookup
  messages := by
    intro id row r hlookup
    simp [start, hdb] at hlookup
  claims := by
    intro lease claim hclaim
    simp [start] at hclaim

theorem inv_run {as : List ChatLabel} (hinv : w.Inv P) (hrun : run (step P) w as = some w') : w'.Inv P :=
  run_inv' (fun w => w.Inv P) (fun _ _ _ h hstep => h.step hstep) hinv hrun

theorem evolves_run {as : List ChatLabel} (hinv : w.Inv P) (hrun : run (step P) w as = some w') : w.db.Evolves P w'.db := by
  induction as generalizing w with
  | nil =>
    cases hrun
    exact .refl _
  | cons a as ih =>
    obtain ⟨w₁, hstep, hrun⟩ := run_cons.1 hrun
    exact (AiDb.Moves.evolves (step_stepped hinv hstep).moves).trans (ih (hinv.step hstep) hrun)

end Steps
end ChatWorld

/-! ## A small run -/

namespace Sample
open ChatWorld

/-- One workspace with one article. -/
def chatDb : AiDb :=
  { policy := { aiPolicy with library :=
      { workspaces := (∅ : Table WorkspaceId Workspace).insert ⟨1⟩
          { id := ⟨1⟩, owner := ⟨1⟩, status := .active, revision := 0, history := [] }
        articles := (∅ : Table ArticleKey Article).insert (⟨1⟩, ⟨1⟩)
          { id := ⟨1⟩, key := { location := .sourceRecord ⟨1⟩ "item", title := "title", description := none }
            state := {}, firstArrivedAt := 0, origins := [⟨1⟩], revision := 0 } } } }

def rates : CostRates := ⟨"1", "1", "1"⟩

def chatSettings : ChatSettings where
  promptVersion := "1"
  systemPrompt := "Summarize."
  generationMode := .thinking .low
  costRates := rates
  maxOutputTokens := 100
  limits := ⟨1000, 10, 10, 1000, 1000⟩
  review := ⟨"Review.", "1", "model", .thinking .low, 100, rates⟩

def chatStart : ChatStart := ⟨⟨1⟩, ⟨1⟩, ⟨1⟩, 1, false, 100, 101⟩

def snapshot : ArticleSnapshot := ⟨"title", "https://example.com/", "<p>text</p>", "text", "1"⟩

def usage : Usage := ⟨0, 0, 0, 0, some "0.000000"⟩

def callModel : CallModel := ⟨.flash, rates⟩

/-- The chat `100` is created and leased as `102`. -/
def claimedRun : List ChatLabel :=
  [.create chatStart chatSettings (.ready snapshot) false, .claim 10 [] 102 60]

/-- A call of the worker, with its usage. -/
def called (phase : GenerationPhase) (amount : SpendReservation) (call : Nat) : List ChatLabel :=
  [.begin 102 phase amount callModel call, .update 102 call (.usage usage)]

/-- The draft is generated, reviewed and published. -/
def reviewedRun : List ChatLabel :=
  claimedRun ++ called .generating (reservation "0.1" positive_tenth) 103 ++
    [.update 102 103 (.finished .completed (some "draft"))] ++
    called .verifying (reservation "0.1" positive_tenth) 104 ++
    [.update 102 104 (.response "checked" "Review."), .update 102 104 (.finished .completed none),
      .updateClaim 102 .completed (some "draft") none none]

def chatEnd (labels : List ChatLabel) : ChatWorld := (run (step aiPlatform) (start chatDb 0) labels).getD (start chatDb 0)

end Sample
end Inoreader
