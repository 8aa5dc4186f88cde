import Inoreader.Ai.Db
import Inoreader.Lib.Sums

/-!
# The daily budget (`reader-storage-postgres/src/ai/budget.rs`, `schema/terms_once.sql`)

`reserve` is a sequence of statements under the advisory lock of the owner; each statement is a
definition of its own, so that other transactions can be put between them.
-/

namespace Inoreader
open Lib

namespace Document

/-- `pg_input_is_valid(document, 'jsonb')`. -/
def isJson {α : Type} : Document α → Bool
  | .malformed => false
  | _ => true

/-- `document::jsonb#>>'{job,promptVersion}'`. -/
def promptVersion : Document DefinitionsRecord → Option String
  | .malformed => none
  | .foreign version => version
  | .record r => some r.job.promptVersion

end Document

/-- The row comparison `(created_at,id) < (created_at,id)`. -/
def precedes (createdAt : DateTime) (id : Nat) (createdAt' : DateTime) (id' : Nat) : Bool :=
  createdAt < createdAt' || (createdAt == createdAt' && id < id')

namespace DefinitionsRow

/-- SQL equality of the two prompt versions: unknown is never equal. -/
def sameVersion (a b : DefinitionsRow) : Bool :=
  match a.document.promptVersion, b.document.promptVersion with
  | some v, some v' => v == v'
  | _, _ => false

/-- The same article of the same owner. -/
def sameArticle (a b : DefinitionsRow) : Bool :=
  a.owner == b.owner && a.workspace == b.workspace && a.article == b.article

/-- The `EXISTS` of `reader_ai_terms_superseded` for one `previous` row. -/
def supersedes (id : Nat) (previous : DefinitionsRow) (id' : Nat) (current : DefinitionsRow) : Bool :=
  previous.sameArticle current && id != id' && previous.status != .cancelled &&
    (previous.status == .quarantined || !previous.document.isJson ||
      (previous.sameVersion current &&
        (previous.status != .queued || precedes previous.createdAt id current.createdAt id')))

end DefinitionsRow

namespace AiDb

/-- `reader_ai_terms_superseded`. -/
def termsSuperseded (db : AiDb) (job : Nat) : Bool :=
  match db.definitions.lookup job with
  | some current =>
    current.automatic &&
      (!current.document.isJson || db.definitions.rows.any fun row => row.2.supersedes row.1 job current)
  | none => false

/-- An automatic definitions job that carries `id` as its lease satisfies `p`. -/
def anyDefinitions (db : AiDb) (owner : AccountId) (id : Nat) (p : Nat → DefinitionsRow → Bool) : Bool :=
  db.definitions.rows.any fun row =>
    row.2.owner == owner && row.2.lease == some id && row.2.automatic && p row.1 row.2

/-- A ranking that carries `id` as its lease satisfies `p`. -/
def anyScore (db : AiDb) (owner : AccountId) (id : Nat) (p : ScoreKey → ScoreRow → Bool) : Bool :=
  db.interestScores.rows.any fun row => row.1.owner == owner && row.2.lease == id && p row.1 row.2

end AiDb

/-- `COALESCE(actual,reserved)`. -/
def SpendRow.amount (row : SpendRow) : ℚ := (row.actual.getD row.reserved).value

/-- The contribution of a row to the day of an owner. -/
def SpendRow.counted (owner : AccountId) (day : Day) (row : SpendRow) : ℚ :=
  if row.owner = owner ∧ row.day = day then row.amount else 0

/-- `sum(COALESCE(actual,reserved))` over the rows of an owner and a day. -/
def AiDb.total (db : AiDb) (owner : AccountId) (day : Day) : ℚ :=
  db.spending.sum fun _ row => row.counted owner day

/-- `COALESCE((SELECT limit_usd FROM ai_budget_overrides …), limit)`. -/
def AiDb.limitUsd (db : AiDb) (owner : AccountId) (r : SpendReservation) (day : Day) : ℚ :=
  ((db.budgetOverrides.lookup (owner, day)).getD (numeric r.limit)).value

/-- The row of an admitted reservation. -/
def SpendReservation.row (r : SpendReservation) (owner : AccountId) (day : Day) : SpendRow :=
  { owner, mode := r.mode, reserved := numeric r.amount, actual := none, day }

section Statements
variable (P : AiPlatform) (owner : AccountId) (id : Nat) (r : SpendReservation)

/-- A reservation of this id exists; unless it is the same one the ids conflict. -/
def checkExisting : AiTx Bool := do
  match (← Tx.get).spending.lookup id with
  | some old =>
    Tx.require (old.owner = owner ∧ old.mode = r.mode ∧ old.reserved.text = r.amount) .conflict
    pure true
  | none => pure false

def checkDuplicate : AiTx Unit := do
  let db ← Tx.get
  Tx.require (db.anyDefinitions owner id (fun job _ => db.termsSuperseded job) = false) .automaticDuplicate

def checkPaused (automaticChat : Bool) (now : DateTime) : AiTx Unit := do
  let db ← Tx.get
  Tx.require (((db.policy.schedule.resumeAt now).isSome &&
    (automaticChat || db.anyDefinitions owner id (fun _ _ => true) || db.anyScore owner id fun _ _ => true)) = false)
    .automaticPaused

def checkExcluded : AiTx Unit := do
  let db ← Tx.get
  Tx.require ((db.anyDefinitions owner id (fun _ d => !db.policy.automaticAllowed P d.owner d.workspace d.article) ||
    db.anyScore owner id fun s _ => !db.policy.automaticAllowed P s.owner s.workspace s.article) = false)
    .automaticExcluded

/-- The comparison of the sum with the limit, which it returns. -/
def checkAllowed (day : Day) : AiTx ℚ := do
  let db ← Tx.get
  Tx.require (db.total owner day + (numeric r.amount).value ≤ db.limitUsd owner r day) .budget
  pure (db.limitUsd owner r day)

def insertSpending (day : Day) : AiTx Unit := do
  Tx.require ((← Tx.get).spending.lookup id = none) .storage
  Tx.modify fun db => { db with spending := db.spending.insert id (r.row owner day) }

/-- `budget::reserve`, with nothing between its statements. -/
def reserve (automaticChat : Bool) (now : DateTime) : AiTx Unit := do
  if ← checkExisting owner id r then pure ()
  else do
    checkDuplicate owner id
    checkPaused owner id automaticChat now
    checkExcluded P owner id
    let _ ← checkAllowed owner r (moscowDate now)
    insertSpending owner id r (moscowDate now)

/-- `settle`: the first value stays; the same value again is accepted. -/
def settle (amount : String) : AiTx Unit := do
  Tx.require ((DecimalRate.parse amount).isOk = true) .configuration
  let row ← Tx.orThrow ((← Tx.get).spending.lookup id) .conflict
  Tx.require (row.owner = owner ∧ row.actual.all (fun old => old.value = (numeric amount).value)) .conflict
  Tx.modify fun db => { db with spending := db.spending.insert id { row with actual := some (numeric amount) } }

end Statements

/-! ## What the statements do -/

section
variable {P : AiPlatform} {owner : AccountId} {id : Nat} {r : SpendReservation} {db db' : AiDb} {now : DateTime}
  {automaticChat : Bool}

theorem checkExisting_ok {b : Bool} (h : checkExisting owner id r db = .ok (b, db')) :
    db' = db ∧ (b = true ∧ (∃ old, db.spending.lookup id = some old ∧ old.owner = owner ∧ old.mode = r.mode ∧
      old.reserved.text = r.amount) ∨ b = false ∧ db.spending.lookup id = none) := by
  simp only [checkExisting, Tx.bind_run, Tx.get_run] at h
  cases hold : db.spending.lookup id with
  | none =>
    simp only [hold] at h
    cases h
    exact ⟨rfl, .inr ⟨rfl, rfl⟩⟩
  | some old =>
    simp only [hold] at h
    obtain ⟨hsame, hpure⟩ := Tx.bind_require_ok.1 h
    cases hpure
    exact ⟨rfl, .inl ⟨rfl, old, rfl, hsame⟩⟩

theorem checkDuplicate_ok {u : Unit} (h : checkDuplicate owner id db = .ok (u, db')) :
    db' = db ∧ db.anyDefinitions owner id (fun job _ => db.termsSuperseded job) = false := by
  obtain ⟨hp, hs⟩ := Tx.require_ok.1 h
  exact ⟨hs, hp⟩

theorem checkPaused_ok {u : Unit} (h : checkPaused owner id automaticChat now db = .ok (u, db')) :
    db' = db ∧ ((db.policy.schedule.resumeAt now).isSome && (automaticChat ||
      db.anyDefinitions owner id (fun _ _ => true) || db.anyScore owner id fun _ _ => true)) = false := by
  obtain ⟨hp, hs⟩ := Tx.require_ok.1 h
  exact ⟨hs, hp⟩

theorem checkExcluded_ok {u : Unit} (h : checkExcluded P owner id db = .ok (u, db')) :
    db' = db ∧ db.anyDefinitions owner id (fun _ d => !db.policy.automaticAllowed P d.owner d.workspace d.article) = false ∧
      db.anyScore owner id (fun s _ => !db.policy.automaticAllowed P s.owner s.workspace s.article) = false := by
  obtain ⟨hp, hs⟩ := Tx.require_ok.1 h
  exact ⟨hs, (Bool.or_eq_false_iff.1 hp)⟩

theorem checkAllowed_ok {day : Day} {limit : ℚ} (h : checkAllowed owner r day db = .ok (limit, db')) :
    db' = db ∧ limit = db.limitUsd owner r day ∧ db.total owner day + (numeric r.amount).value ≤ limit := by
  obtain ⟨hle, hpure⟩ := Tx.bind_require_ok.1 h
  cases hpure
  exact ⟨rfl, rfl, hle⟩

theorem insertSpending_ok {day : Day} {u : Unit} (h : insertSpending owner id r day db = .ok (u, db')) :
    db.spending.lookup id = none ∧ db' = { db with spending := db.spending.insert id (r.row owner day) } := by
  obtain ⟨hnew, hmod⟩ := Tx.bind_require_ok.1 h
  cases hmod
  exact ⟨hnew, rfl⟩

/-- A reservation repeats an earlier one, or it passes every gate and inserts its row. -/
theorem reserve_ok {u : Unit} (h : reserve P owner id r automaticChat now db = .ok (u, db')) :
    (db' = db ∧ ∃ old, db.spending.lookup id = some old ∧ old.owner = owner ∧ old.mode = r.mode ∧
      old.reserved.text = r.amount) ∨
    (db.spending.lookup id = none ∧
      db' = { db with spending := db.spending.insert id (r.row owner (moscowDate now)) } ∧
      db.anyDefinitions owner id (fun job _ => db.termsSuperseded job) = false ∧
      ((db.policy.schedule.resumeAt now).isSome && (automaticChat ||
        db.anyDefinitions owner id (fun _ _ => true) || db.anyScore owner id fun _ _ => true)) = false ∧
      db.anyDefinitions owner id (fun _ d => !db.policy.automaticAllowed P d.owner d.workspace d.article) = false ∧
      db.anyScore owner id (fun s _ => !db.policy.automaticAllowed P s.owner s.workspace s.article) = false) := by
  unfold reserve at h
  obtain ⟨b, db₁, hexisting, h₁⟩ := Tx.bind_ok.1 h
  obtain ⟨rfl, ⟨rfl, hold⟩ | ⟨rfl, hnone⟩⟩ := checkExisting_ok hexisting
  · cases h₁
    exact .inl ⟨rfl, hold⟩
  · obtain ⟨_, db₂, hduplicate, h₂⟩ := Tx.bind_ok.1 h₁
    obtain ⟨rfl, hduplicate⟩ := checkDuplicate_ok hduplicate
    obtain ⟨_, db₃, hpaused, h₃⟩ := Tx.bind_ok.1 h₂
    obtain ⟨rfl, hpaused⟩ := checkPaused_ok hpaused
    obtain ⟨_, db₄, hexcluded, h₄⟩ := Tx.bind_ok.1 h₃
    obtain ⟨rfl, hdefinitions, hscores⟩ := checkExcluded_ok hexcluded
    obtain ⟨_, db₅, hallowed, h₅⟩ := Tx.bind_ok.1 h₄
    obtain ⟨rfl, -, -⟩ := checkAllowed_ok hallowed
    obtain ⟨-, rfl⟩ := insertSpending_ok h₅
    exact .inr ⟨hnone, rfl, hduplicate, hpaused, hdefinitions, hscores⟩

theorem settle_ok {amount : String} {u : Unit} (h : settle owner id amount db = .ok (u, db')) :
    ∃ row, db.spending.lookup id = some row ∧ row.owner = owner ∧
      (∀ old, row.actual = some old → old.value = (numeric amount).value) ∧
      db' = { db with spending := db.spending.insert id { row with actual := some (numeric amount) } } := by
  obtain ⟨-, h⟩ := Tx.bind_require_ok.1 h
  simp only [Tx.bind_run, Tx.get_run] at h
  obtain ⟨row, hrow, h⟩ := Tx.bind_orThrow_ok.1 h
  obtain ⟨⟨howner, hold⟩, hmod⟩ := Tx.bind_require_ok.1 h
  cases hmod
  refine ⟨row, hrow, howner, fun old hactual => ?_, rfl⟩
  rw [hactual] at hold
  simpa using hold

end

namespace Sample

def aiPlatform : AiPlatform where
  articleVisible := fun _ _ => true
  checkSource := fun _ _ => true
  interestResult := fun _ => .error .protocol
  segments := fun _ _ draft => .ok draft
  reviewed := fun _ draft _ _ _ => .ok draft

/-- No library, and no pause. -/
def aiPolicy : AiPolicy where
  library := {}
  bootstrap := ∅
  selected := []
  schedule := { pausePeakHours := false, calendarValidThrough := 0, holidays := [] }

theorem positive_tenth : positiveDecimal "0.1" = true := by decide +kernel

def reservation (amount : String) (h : positiveDecimal amount = true) : SpendReservation where
  amount := amount
  limit := "1"
  mode := .terms
  amountPositive := h
  limitPositive := by decide +kernel

end Sample
end Inoreader
