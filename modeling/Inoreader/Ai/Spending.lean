import Inoreader.Ai.Budget
import Inoreader.Lib.Run
import Mathlib.Tactic.Linarith

/-!
# Concurrent reservations

A reservation is a transaction of many statements under the advisory lock of its owner. Settlements,
the reservations of other owners, the limits of the operator and the other tables change between its
statements; its row becomes visible with its commit, which may also be the later commit of `begin`.
-/

namespace Inoreader
open Lib

/-- The next statement of a reservation. -/
inductive ReserveStage
  | existing
  | duplicate
  | paused
  | excluded
  | day
  | allowed (day : Day)
  /-- The sum has passed the comparison with `limit`; since then settlements raised it by `overrun`. -/
  | insert (day : Day) (limit overrun : ℚ)
deriving DecidableEq

structure Reserving where
  id : Nat
  reservation : SpendReservation
  automaticChat : Bool
  stage : ReserveStage := .existing
deriving DecidableEq

/-- What a statement leads to: the next one, or the end of the transaction. -/
inductive Advanced
  | next (stage : ReserveStage)
  | done (result : Except AiError Unit) (db : AiDb)

/-- A statement that only reads. -/
def Advanced.check {α : Type} (m : AiTx α) (db : AiDb) (k : α → ReserveStage) : Advanced :=
  match m db with
  | .ok (a, _) => .next (k a)
  | .error e => .done (.error e) db

/-- The last statement and the commit. -/
def Advanced.commit (m : AiTx Unit) (db : AiDb) : Advanced :=
  match m db with
  | .ok (_, db') => .done (.ok ()) db'
  | .error e => .done (.error e) db

def Reserving.advance (P : AiPlatform) (owner : AccountId) (t : Reserving) (db : AiDb) (now : DateTime) : Advanced :=
  match t.stage with
  | .existing =>
    match checkExisting owner t.id t.reservation db with
    | .ok (true, db') => .done (.ok ()) db'
    | .ok (false, _) => .next .duplicate
    | .error e => .done (.error e) db
  | .duplicate => .check (checkDuplicate owner t.id) db fun _ => .paused
  | .paused => .check (checkPaused owner t.id t.automaticChat now) db fun _ => .excluded
  | .excluded => .check (checkExcluded P owner t.id) db fun _ => .day
  | .day => .next (.allowed (moscowDate now))
  | .allowed day => .check (checkAllowed owner t.reservation day) db fun limit => .insert day limit 0
  | .insert day _ _ => .commit (insertSpending owner t.id t.reservation day) db

structure SpendWorld where
  db : AiDb
  clock : DateTime
  /-- The reservation that holds the lock of its owner. -/
  reserving : Table AccountId Reserving
  /-- The limit that the latest admission of an owner and a day used. -/
  limits : Table (AccountId × Day) ℚ

inductive SpendLabel
  | tick (clock : DateTime)
  | open (owner : AccountId) (id : Nat) (reservation : SpendReservation) (automaticChat : Bool)
  | advance (owner : AccountId)
  /-- The connection is lost, or a later statement of the same transaction fails. -/
  | abort (owner : AccountId)
  | settle (owner : AccountId) (id : Nat) (amount : String)
  | setOverride (owner : AccountId) (day : Day) (limit : Decimal)
  | dropOverride (owner : AccountId) (day : Day)
  /-- Any change of the other tables. -/
  | elsewhere (db : AiDb)

namespace SpendWorld

def start (db : AiDb) (clock : DateTime) : SpendWorld := { db, clock, reserving := ∅, limits := ∅ }

/-- A settlement moved the sums from those of `db` to those of `db'`. -/
def settled (owner : AccountId) (db db' : AiDb) (t : Reserving) : Reserving :=
  match t.stage with
  | .insert day limit overrun =>
    { t with stage := .insert day limit (overrun + max 0 (db'.total owner day - db.total owner day)) }
  | _ => t

/-- The admission of a reservation whose row was inserted. -/
def admitted (w : SpendWorld) (owner : AccountId) (t : Reserving) : Table (AccountId × Day) ℚ :=
  match t.stage with
  | .insert day limit _ => w.limits.insert (owner, day) limit
  | _ => w.limits

def advance (P : AiPlatform) (w : SpendWorld) (owner : AccountId) (t : Reserving) : SpendWorld :=
  match t.advance P owner w.db w.clock with
  | .next stage => { w with reserving := w.reserving.insert owner { t with stage } }
  | .done (.ok ()) db => { w with db, reserving := w.reserving.erase owner, limits := w.admitted owner t }
  | .done (.error _) db => { w with db, reserving := w.reserving.erase owner }

def step (P : AiPlatform) (w : SpendWorld) : SpendLabel → Option SpendWorld
  | .tick clock => if w.clock ≤ clock then some { w with clock } else none
  | .open owner id reservation automaticChat =>
    match w.reserving.lookup owner with
    | none => some { w with reserving := w.reserving.insert owner { id, reservation, automaticChat } }
    | some _ => none
  | .advance owner => (w.reserving.lookup owner).map (w.advance P owner)
  | .abort owner => some { w with reserving := w.reserving.erase owner }
  | .settle owner id amount =>
    let db := (settle owner id amount).commit w.db
    some { w with db, reserving := w.reserving.update owner (settled owner w.db db) }
  | .setOverride owner day limit =>
    some { w with db := { w.db with budgetOverrides := w.db.budgetOverrides.insert (owner, day) limit } }
  | .dropOverride owner day =>
    some { w with db := { w.db with budgetOverrides := w.db.budgetOverrides.erase (owner, day) } }
  | .elsewhere db =>
    some { w with db := { db with spending := w.db.spending, budgetOverrides := w.db.budgetOverrides } }

end SpendWorld

/-! ## The sum of a day -/

section Totals
variable {P : AiPlatform} {owner : AccountId} {id : Nat} {r : SpendReservation} {db db' : AiDb}

theorem AiDb.total_congr (h : db'.spending = db.spending) (o : AccountId) (d : Day) : db'.total o d = db.total o d := by
  unfold total
  rw [h]

/-- An inserted row counts for its own owner and day only. -/
theorem total_insertSpending {day : Day} (h : insertSpending owner id r day db = .ok ((), db')) (o : AccountId)
    (d : Day) : db'.total o d = (r.row owner day).counted o d + db.total o d := by
  obtain ⟨hnew, rfl⟩ := insertSpending_ok h
  exact Table.sum_insert_new hnew

theorem SpendReservation.counted_row (r : SpendReservation) (owner : AccountId) (day : Day) :
    (r.row owner day).counted owner day = (numeric r.amount).value := by
  simp [SpendRow.counted, row, SpendRow.amount]

theorem SpendReservation.counted_row_ne {o : AccountId} (h : owner ≠ o) (day d : Day) :
    (r.row owner day).counted o d = 0 := by
  simp [SpendRow.counted, row, h]

theorem total_settle {amount : String} (h : settle owner id amount db = .ok ((), db')) :
    ∃ row, db.spending.lookup id = some row ∧ row.owner = owner ∧
      (∀ old, row.actual = some old → old.value = (numeric amount).value) ∧
      ∀ o d, row.counted o d + db'.total o d =
        ({ row with actual := some (numeric amount) } : SpendRow).counted o d + db.total o d := by
  obtain ⟨row, hrow, howner, hold, rfl⟩ := settle_ok h
  exact ⟨row, hrow, howner, hold, fun o d => Table.sum_insert_old (f := fun _ r => r.counted o d) hrow⟩

/-- A settlement leaves the sums of other owners alone. -/
theorem total_settle_ne {amount : String} {o : AccountId} (ho : owner ≠ o) (d : Day) :
    ((settle owner id amount).commit db).total o d = db.total o d := by
  cases hm : settle owner id amount db with
  | error e => rw [Tx.commit_of_error hm]
  | ok res =>
    obtain ⟨row, hrow, howner, -, hsum⟩ := total_settle hm
    rw [Tx.commit_of_ok hm]
    have h := hsum o d
    simp only [SpendRow.counted, howner, ho, false_and, if_false, zero_add] at h
    exact h

/-- A settlement within its reservation raises no sum. -/
theorem total_settle_le {amount : String}
    (hwithin : ∀ row, db.spending.lookup id = some row → (numeric amount).value ≤ row.reserved.value)
    (o : AccountId) (d : Day) : ((settle owner id amount).commit db).total o d ≤ db.total o d := by
  cases hm : settle owner id amount db with
  | error e => rw [Tx.commit_of_error hm]
  | ok res =>
    obtain ⟨row, hrow, howner, hold, hsum⟩ := total_settle hm
    rw [Tx.commit_of_ok hm]
    have hle : ({ row with actual := some (numeric amount) } : SpendRow).counted o d ≤ row.counted o d := by
      unfold SpendRow.counted
      split
      · cases hactual : row.actual with
        | none => simpa [SpendRow.amount, hactual] using hwithin row hrow
        | some old => simp [SpendRow.amount, hactual, hold old hactual]
      · exact le_rfl
    have h := hsum o d
    linarith

end Totals

/-! ## The comparison and the row -/

namespace SpendWorld
variable {P : AiPlatform} {w w' : SpendWorld} {owner : AccountId} {t : Reserving}

/-- What a statement does: it reads, it compares the sum with the limit, it inserts the row, or it ends the
transaction without an effect. -/
theorem advance_cases (P : AiPlatform) (w : SpendWorld) (owner : AccountId) (t : Reserving) :
    (∃ stage, (∀ day limit overrun, stage ≠ .insert day limit overrun) ∧
      w.advance P owner t = { w with reserving := w.reserving.insert owner { t with stage } }) ∨
    (∃ day limit, w.db.total owner day + (numeric t.reservation.amount).value ≤ limit ∧
      w.advance P owner t =
        { w with reserving := w.reserving.insert owner { t with stage := .insert day limit 0 } }) ∨
    (∃ day limit overrun db, t.stage = .insert day limit overrun ∧
      insertSpending owner t.id t.reservation day w.db = .ok ((), db) ∧
      w.advance P owner t =
        { w with db, reserving := w.reserving.erase owner, limits := w.limits.insert (owner, day) limit }) ∨
    w.advance P owner t = { w with reserving := w.reserving.erase owner } := by
  have hcheck : ∀ {α : Type} (m : AiTx α) (k : α → ReserveStage),
      (∀ a day limit overrun, k a ≠ .insert day limit overrun) → t.advance P owner w.db w.clock = .check m w.db k →
      (∃ stage, (∀ day limit overrun, stage ≠ .insert day limit overrun) ∧
        w.advance P owner t = { w with reserving := w.reserving.insert owner { t with stage } }) ∨
      w.advance P owner t = { w with reserving := w.reserving.erase owner } := by
    intro α m k hk ht
    unfold advance
    rw [ht]
    unfold Advanced.check
    cases m w.db with
    | ok res => exact .inl ⟨k res.1, hk res.1, rfl⟩
    | error e => exact .inr rfl
  cases hstage : t.stage with
  | existing =>
    have ht : t.advance P owner w.db w.clock = match checkExisting owner t.id t.reservation w.db with
        | .ok (true, db') => .done (.ok ()) db'
        | .ok (false, _) => .next .duplicate
        | .error e => .done (.error e) w.db := by
      simp only [Reserving.advance, hstage]
    cases hm : checkExisting owner t.id t.reservation w.db with
    | error e =>
      right; right; right
      simp only [advance, ht, hm]
    | ok res =>
      obtain ⟨b, db'⟩ := res
      obtain ⟨rfl, -⟩ := checkExisting_ok hm
      cases b with
      | true =>
        right; right; right
        simp only [advance, ht, hm, admitted, hstage]
      | false =>
        left
        exact ⟨.duplicate, by simp, by simp only [advance, ht, hm]⟩
  | duplicate =>
    rcases hcheck (checkDuplicate owner t.id) (fun _ => .paused) (by simp)
      (by simp only [Reserving.advance, hstage]) with h | h
    · exact .inl h
    · exact .inr (.inr (.inr h))
  | paused =>
    rcases hcheck (checkPaused owner t.id t.automaticChat w.clock) (fun _ => .excluded) (by simp)
      (by simp only [Reserving.advance, hstage]) with h | h
    · exact .inl h
    · exact .inr (.inr (.inr h))
  | excluded =>
    rcases hcheck (checkExcluded P owner t.id) (fun _ => .day) (by simp)
      (by simp only [Reserving.advance, hstage]) with h | h
    · exact .inl h
    · exact .inr (.inr (.inr h))
  | day => exact .inl ⟨.allowed (moscowDate w.clock), by simp, by simp only [advance, Reserving.advance, hstage]⟩
  | allowed day =>
    have ht : t.advance P owner w.db w.clock =
        .check (checkAllowed owner t.reservation day) w.db fun limit => .insert day limit 0 := by
      simp only [Reserving.advance, hstage]
    cases hm : checkAllowed owner t.reservation day w.db with
    | error e =>
      right; right; right
      simp only [advance, ht, Advanced.check, hm]
    | ok res =>
      obtain ⟨limit, db'⟩ := res
      obtain ⟨-, -, hle⟩ := checkAllowed_ok hm
      right; left
      exact ⟨day, limit, hle, by simp only [advance, ht, Advanced.check, hm]⟩
  | insert day limit overrun =>
    have ht : t.advance P owner w.db w.clock = .commit (insertSpending owner t.id t.reservation day) w.db := by
      simp only [Reserving.advance, hstage]
    right; right
    cases hm : insertSpending owner t.id t.reservation day w.db with
    | error e =>
      right
      simp only [advance, ht, Advanced.commit, hm]
    | ok res =>
      left
      exact ⟨day, limit, overrun, res.2, rfl, hm, by simp only [advance, ht, Advanced.commit, hm, admitted, hstage]⟩

/-- The state after a settlement. -/
def afterSettle (w : SpendWorld) (owner : AccountId) (id : Nat) (amount : String) : SpendWorld :=
  let db := (settle owner id amount).commit w.db
  { w with db, reserving := w.reserving.update owner (settled owner w.db db) }

/-- A step is a statement of a reservation, a settlement, or it changes neither the rows nor a reservation
that is about to insert one. -/
theorem step_cases {a : SpendLabel} (hstep : step P w a = some w') :
    (w'.db.spending = w.db.spending ∧ w'.limits = w.limits ∧
      ∀ o t day limit overrun, w'.reserving.lookup o = some t → t.stage = .insert day limit overrun →
        w.reserving.lookup o = some t) ∨
    (∃ owner t, w.reserving.lookup owner = some t ∧ w' = w.advance P owner t) ∨
    ∃ owner id amount, a = .settle owner id amount ∧ w' = w.afterSettle owner id amount := by
  cases a with
  | tick clock =>
    simp only [step] at hstep
    split at hstep
    · cases hstep
      exact .inl ⟨rfl, rfl, fun _ _ _ _ _ ht _ => ht⟩
    · cases hstep
  | «open» owner id reservation automaticChat =>
    simp only [step] at hstep
    cases hlock : w.reserving.lookup owner with
    | some t =>
      simp only [hlock] at hstep
      cases hstep
    | none =>
      simp only [hlock] at hstep
      cases hstep
      refine .inl ⟨rfl, rfl, fun o u d l x hu hs => ?_⟩
      simp only [Table.lookup_insert_if] at hu
      split at hu
      · cases hu
        cases hs
      · exact hu
  | advance owner =>
    obtain ⟨t, ht, rfl⟩ := Option.map_eq_some_iff.1 hstep
    exact .inr (.inl ⟨owner, t, ht, rfl⟩)
  | abort owner =>
    cases hstep
    refine .inl ⟨rfl, rfl, fun o u d l x hu hs => ?_⟩
    simp only [Table.lookup_erase_if] at hu
    split at hu
    · cases hu
    · exact hu
  | settle owner id amount =>
    cases hstep
    exact .inr (.inr ⟨owner, id, amount, rfl, rfl⟩)
  | setOverride owner day limit =>
    cases hstep
    exact .inl ⟨rfl, rfl, fun _ _ _ _ _ ht _ => ht⟩
  | dropOverride owner day =>
    cases hstep
    exact .inl ⟨rfl, rfl, fun _ _ _ _ _ ht _ => ht⟩
  | elsewhere db =>
    cases hstep
    exact .inl ⟨rfl, rfl, fun _ _ _ _ _ ht _ => ht⟩

/-- The comparison holds until the row is inserted, up to what settlements added since. -/
def Checked (w : SpendWorld) : Prop :=
  ∀ owner t day limit overrun, w.reserving.lookup owner = some t → t.stage = .insert day limit overrun →
    w.db.total owner day + (numeric t.reservation.amount).value ≤ limit + overrun

theorem Checked.of_same (h : Checked w) (hspending : w'.db.spending = w.db.spending)
    (hreserving : ∀ o t day limit overrun, w'.reserving.lookup o = some t → t.stage = .insert day limit overrun →
      w.reserving.lookup o = some t) : Checked w' := by
  intro o t day limit overrun ht hstage
  rw [AiDb.total_congr hspending]
  exact h o t day limit overrun (hreserving o t day limit overrun ht hstage) hstage

theorem Checked.advance (h : Checked w) (owner : AccountId) (t : Reserving) : Checked (w.advance P owner t) := by
  rcases advance_cases P w owner t with ⟨stage, hne, heq⟩ | ⟨day, limit, hle, heq⟩ |
    ⟨day, limit, overrun, db, hstage, hins, heq⟩ | heq
  · rw [heq]
    refine h.of_same rfl fun o u d l x hu hs => ?_
    simp only [Table.lookup_insert_if] at hu
    split at hu
    · cases hu
      exact absurd hs (hne d l x)
    · exact hu
  · rw [heq]
    intro o u d l x hu hs
    simp only [Table.lookup_insert_if] at hu
    split at hu
    · rename_i ho
      cases hu
      cases hs
      rw [ho, add_zero]
      exact hle
    · exact h o u d l x hu hs
  · rw [heq]
    intro o u d l x hu hs
    simp only [Table.lookup_erase_if] at hu
    split at hu
    · cases hu
    · rename_i ho
      show db.total o d + _ ≤ _
      rw [total_insertSpending hins, SpendReservation.counted_row_ne (fun e => ho e.symm), zero_add]
      exact h o u d l x hu hs
  · rw [heq]
    refine h.of_same rfl fun o u d l x hu hs => ?_
    simp only [Table.lookup_erase_if] at hu
    split at hu
    · cases hu
    · exact hu

theorem Checked.afterSettle (h : Checked w) (owner : AccountId) (id : Nat) (amount : String) :
    Checked (w.afterSettle owner id amount) := by
  intro o t day limit overrun ht hstage
  simp only [SpendWorld.afterSettle, Table.lookup_update] at ht
  split at ht
  · rename_i ho
    subst ho
    obtain ⟨u, hu, rfl⟩ := Option.map_eq_some_iff.1 ht
    cases hus : u.stage with
    | insert d l x =>
      simp only [settled, hus] at hstage ⊢
      cases hstage
      have hold := h o u day limit x hu hus
      have hgrow := le_max_right 0 (((settle o id amount).commit w.db).total o day - w.db.total o day)
      show ((settle o id amount).commit w.db).total o day + _ ≤ _
      linarith
    | _ =>
      simp only [settled, hus] at hstage
      cases hstage
  · rename_i ho
    show ((settle owner id amount).commit w.db).total o day + _ ≤ _
    rw [total_settle_ne fun e => ho e.symm]
    exact h o t day limit overrun ht hstage

theorem Checked.step {a : SpendLabel} (h : Checked w) (hstep : step P w a = some w') : Checked w' := by
  rcases step_cases hstep with ⟨hspending, -, hreserving⟩ | ⟨owner, t, -, rfl⟩ | ⟨owner, id, amount, -, rfl⟩
  · exact h.of_same hspending hreserving
  · exact h.advance owner t
  · exact h.afterSettle owner id amount

theorem checked_start (db : AiDb) (clock : DateTime) : Checked (start db clock) := by
  intro o t day limit overrun ht
  cases ht

/-- The sum right after the statement that inserts the row. -/
theorem Checked.total_insert {day : Day} {limit overrun : ℚ} (h : Checked w) (ht : w.reserving.lookup owner = some t)
    (hstage : t.stage = .insert day limit overrun) : (w.advance P owner t).db.total owner day ≤ limit + overrun := by
  have hle := h owner t day limit overrun ht hstage
  have hpos : 0 ≤ (numeric t.reservation.amount).value := Decimal.value_nonneg _
  rcases advance_cases P w owner t with ⟨stage, -, heq⟩ | ⟨d, l, -, heq⟩ | ⟨d, l, x, db, hs, hins, heq⟩ | heq
  · rw [heq]
    show w.db.total owner day ≤ _
    linarith
  · rw [heq]
    show w.db.total owner day ≤ _
    linarith
  · rw [heq]
    show db.total owner day ≤ _
    rw [hstage] at hs
    cases hs
    rw [total_insertSpending hins, SpendReservation.counted_row]
    linarith
  · rw [heq]
    show w.db.total owner day ≤ _
    linarith

/-! ## The limit -/

/-- A settlement is for at most what was reserved. -/
def SettledWithin (w : SpendWorld) : SpendLabel → Prop
  | .settle _ id amount => ∀ row, w.db.spending.lookup id = some row → (numeric amount).value ≤ row.reserved.value
  | _ => True

/-- Nothing was added since a comparison, and every sum is within the limit of the latest admission. -/
structure Bounded (w : SpendWorld) : Prop where
  checked : Checked w
  overrun : ∀ owner t day limit overrun, w.reserving.lookup owner = some t → t.stage = .insert day limit overrun →
    overrun = 0
  total : ∀ owner day, w.db.total owner day ≤ (w.limits.lookup (owner, day)).getD 0

theorem Bounded.of_same (h : Bounded w) (hc : Checked w') (hspending : w'.db.spending = w.db.spending)
    (hlimits : w'.limits = w.limits)
    (hreserving : ∀ o t day limit overrun, w'.reserving.lookup o = some t → t.stage = .insert day limit overrun →
      overrun = 0 ∨ w.reserving.lookup o = some t) : Bounded w' := by
  refine ⟨hc, fun o t day limit overrun ht hs => ?_, fun o d => ?_⟩
  · rcases hreserving o t day limit overrun ht hs with h0 | ht'
    · exact h0
    · exact h.overrun o t day limit overrun ht' hs
  · rw [AiDb.total_congr hspending, hlimits]
    exact h.total o d

theorem Bounded.advance (h : Bounded w) (ht : w.reserving.lookup owner = some t) : Bounded (w.advance P owner t) := by
  have hc := h.checked.advance (P := P) owner t
  have hinsert : ∀ day limit overrun, t.stage = .insert day limit overrun →
      (w.advance P owner t).db.total owner day ≤ limit + overrun := fun day limit overrun hs =>
    h.checked.total_insert ht hs
  rcases advance_cases P w owner t with ⟨stage, hne, heq⟩ | ⟨day, limit, -, heq⟩ |
    ⟨day, limit, overrun, db, hstage, hins, heq⟩ | heq
  · rw [heq] at hc ⊢
    refine h.of_same hc rfl rfl fun o u d l x hu hs => .inr ?_
    simp only [Table.lookup_insert_if] at hu
    split at hu
    · cases hu
      exact absurd hs (hne d l x)
    · exact hu
  · rw [heq] at hc ⊢
    refine h.of_same hc rfl rfl fun o u d l x hu hs => ?_
    simp only [Table.lookup_insert_if] at hu
    split at hu
    · cases hu
      cases hs
      exact .inl rfl
    · exact .inr hu
  · have hle := hinsert day limit overrun hstage
    have h0 : overrun = 0 := h.overrun owner t day limit overrun ht hstage
    rw [h0, add_zero] at hle
    rw [heq] at hc hle ⊢
    refine ⟨hc, fun o u d l x hu hs => ?_, fun o d => ?_⟩
    · simp only [Table.lookup_erase_if] at hu
      split at hu
      · cases hu
      · exact h.overrun o u d l x hu hs
    · simp only [Table.lookup_insert_if]
      split
      · rename_i hod
        cases hod
        exact hle
      · rename_i hod
        have h0' : (t.reservation.row owner day).counted o d = 0 := by
          have hne : ¬ (owner = o ∧ day = d) := fun e => hod (by rw [e.1, e.2])
          simp [SpendRow.counted, SpendReservation.row, hne]
        rw [total_insertSpending hins, h0', zero_add]
        exact h.total o d
  · rw [heq] at hc ⊢
    refine h.of_same hc rfl rfl fun o u d l x hu hs => .inr ?_
    simp only [Table.lookup_erase_if] at hu
    split at hu
    · cases hu
    · exact hu

theorem Bounded.afterSettle {id : Nat} {amount : String} (h : Bounded w)
    (hwithin : SettledWithin w (.settle owner id amount)) : Bounded (w.afterSettle owner id amount) := by
  have hle : ∀ o d, ((settle owner id amount).commit w.db).total o d ≤ w.db.total o d := fun o d =>
    total_settle_le hwithin o d
  refine ⟨h.checked.afterSettle owner id amount, fun o u d l x hu hs => ?_, fun o d => (hle o d).trans (h.total o d)⟩
  simp only [SpendWorld.afterSettle, Table.lookup_update] at hu
  split at hu
  · rename_i ho
    subst ho
    obtain ⟨v, hv, rfl⟩ := Option.map_eq_some_iff.1 hu
    cases hvs : v.stage with
    | insert day limit overrun =>
      simp only [settled, hvs] at hs
      cases hs
      have h0 := h.overrun o v d l overrun hv hvs
      have hdown := hle o d
      rw [h0, max_eq_left (by linarith), add_zero]
    | _ =>
      simp only [settled, hvs] at hs
      cases hs
  · exact h.overrun o u d l x hu hs

theorem Bounded.step {a : SpendLabel} (h : Bounded w) (hwithin : SettledWithin w a) (hstep : step P w a = some w') :
    Bounded w' := by
  rcases step_cases hstep with ⟨hspending, hlimits, hreserving⟩ | ⟨owner, t, ht, rfl⟩ |
    ⟨owner, id, amount, rfl, rfl⟩
  · exact h.of_same (h.checked.of_same hspending hreserving) hspending hlimits
      fun o t day limit overrun ht hs => .inr (hreserving o t day limit overrun ht hs)
  · exact h.advance ht
  · exact h.afterSettle hwithin

theorem bounded_start {db : AiDb} (hdb : db.spending = ∅) (clock : DateTime) : Bounded (start db clock) := by
  refine ⟨checked_start db clock, fun o t day limit overrun ht => ?_, fun o d => ?_⟩
  · cases ht
  · show db.total o d ≤ _
    rw [AiDb.total, hdb]
    exact le_rfl

/-! ## Replays and settlements -/

/-- A reservation whose id is taken ends at once: with success if it is the same one, else with a conflict. -/
theorem advance_existing {row : SpendRow} (hstage : t.stage = .existing) (hrow : w.db.spending.lookup t.id = some row)
    (hcanonical : Canonical t.reservation.amount) :
    t.advance P owner w.db w.clock =
      .done (if row.owner = owner ∧ row.mode = t.reservation.mode ∧ row.reserved = numeric t.reservation.amount
        then .ok () else .error .conflict) w.db := by
  have hamount : row.reserved.text = t.reservation.amount ↔ row.reserved = numeric t.reservation.amount := by
    constructor
    · intro h
      rw [← h, numeric_text]
    · intro h
      rw [h]
      exact hcanonical
  simp only [Reserving.advance, hstage, checkExisting, Tx.bind_run, Tx.get_run, hrow, hamount]
  by_cases hsame : row.owner = owner ∧ row.mode = t.reservation.mode ∧ row.reserved = numeric t.reservation.amount
  · simp only [Tx.require, if_pos hsame, Tx.pure_run]
  · simp only [Tx.require, if_neg hsame, Tx.throw_run]

/-- A settled row keeps its value. -/
def KeepsSettled (w w' : SpendWorld) : Prop :=
  ∀ id row v, w.db.spending.lookup id = some row → row.actual = some v →
    ∃ row', w'.db.spending.lookup id = some row' ∧ row'.actual.map Decimal.value = some v.value

theorem keepsSettled_step {a : SpendLabel} (hstep : step P w a = some w') (id : Nat) (row : SpendRow) (v : ℚ)
    (hrow : w.db.spending.lookup id = some row) (hv : row.actual.map Decimal.value = some v) :
    ∃ row', w'.db.spending.lookup id = some row' ∧ row'.actual.map Decimal.value = some v := by
  rcases step_cases hstep with ⟨hspending, -, -⟩ | ⟨owner, t, -, rfl⟩ | ⟨owner, id', amount, -, rfl⟩
  · exact ⟨row, by rw [hspending]; exact hrow, hv⟩
  · rcases advance_cases P w owner t with ⟨stage, -, heq⟩ | ⟨d, l, -, heq⟩ | ⟨d, l, x, db, -, hins, heq⟩ | heq
    · exact ⟨row, by rw [heq]; exact hrow, hv⟩
    · exact ⟨row, by rw [heq]; exact hrow, hv⟩
    · obtain ⟨hnew, rfl⟩ := insertSpending_ok hins
      have hne : id ≠ t.id := by
        rintro rfl
        rw [hnew] at hrow
        cases hrow
      exact ⟨row, by rw [heq]; simp only [Table.lookup_insert_if, if_neg hne]; exact hrow, hv⟩
    · exact ⟨row, by rw [heq]; exact hrow, hv⟩
  · show ∃ row', ((settle owner id' amount).commit w.db).spending.lookup id = some row' ∧ _
    cases hm : settle owner id' amount w.db with
    | error e => exact ⟨row, by rw [Tx.commit_of_error hm]; exact hrow, hv⟩
    | ok res =>
      obtain ⟨old, hold, -, hvalue, hdb⟩ := settle_ok hm
      rw [Tx.commit_of_ok hm, hdb]
      simp only [Table.lookup_insert_if]
      by_cases hid : id = id'
      · rw [if_pos hid]
        rw [hid, hold] at hrow
        cases hrow
        obtain ⟨u, hu, rfl⟩ := Option.map_eq_some_iff.1 hv
        exact ⟨_, rfl, by simp [hvalue u hu]⟩
      · exact ⟨row, by rw [if_neg hid]; exact hrow, hv⟩

theorem keepsSettled_run {as : List SpendLabel} (hrun : run (step P) w as = some w') : KeepsSettled w w' := by
  intro id row v hrow hv
  refine run_inv' (fun u => ∃ row', u.db.spending.lookup id = some row' ∧
    row'.actual.map Decimal.value = some v.value) ?_ ⟨row, hrow, by rw [hv]; rfl⟩ hrun
  rintro u a u' ⟨r, hr, hrv⟩ hu
  exact keepsSettled_step hu id r v.value hr hrv

/-- The daily budget under any interleaving: an admission exceeds the limit it used by no more than what
settlements added between its comparison and its row; settlements within their reservations add nothing and
keep every sum under any limit that has not decreased since the latest admission; the same reservation again
succeeds without a row and another one conflicts; a settled value stays. -/
theorem budget_kept (P : AiPlatform) {db : AiDb} (hdb : db.spending = ∅) {clock : DateTime} {as : List SpendLabel}
    (hrun : run (step P) (start db clock) as = some w) :
    (∀ owner t day limit overrun w', w.reserving.lookup owner = some t → t.stage = .insert day limit overrun →
      step P w (.advance owner) = some w' → w'.db.total owner day ≤ limit + overrun) ∧
    (Along (step P) SettledWithin (start db clock) as →
      (∀ owner t day limit overrun, w.reserving.lookup owner = some t → t.stage = .insert day limit overrun →
        overrun = 0) ∧
      ∀ owner day limit, 0 ≤ limit → (∀ used, w.limits.lookup (owner, day) = some used → used ≤ limit) →
        w.db.total owner day ≤ limit) ∧
    (∀ owner t row, w.reserving.lookup owner = some t → t.stage = .existing →
      w.db.spending.lookup t.id = some row → Canonical t.reservation.amount →
      t.advance P owner w.db w.clock =
        .done (if row.owner = owner ∧ row.mode = t.reservation.mode ∧ row.reserved = numeric t.reservation.amount
          then .ok () else .error .conflict) w.db) ∧
    ∀ bs w', run (step P) w bs = some w' → KeepsSettled w w' := by
  have hchecked : Checked w :=
    run_inv' Checked (fun s a s' h hs => h.step hs) (checked_start db clock) hrun
  refine ⟨?_, ?_, ?_, ?_⟩
  · intro owner t day limit overrun w' ht hstage hstep
    obtain ⟨u, hu, rfl⟩ := Option.map_eq_some_iff.1 hstep
    rw [ht] at hu
    cases hu
    exact hchecked.total_insert ht hstage
  · intro hwithin
    have hbounded : Bounded w :=
      run_inv Bounded (fun s a s' h hP hs => h.step hP hs) (bounded_start hdb clock) hwithin hrun
    refine ⟨hbounded.overrun, fun owner day limit h0 hlimit => ?_⟩
    refine (hbounded.total owner day).trans ?_
    cases hl : w.limits.lookup (owner, day) with
    | none => exact h0
    | some used => exact hlimit used hl
  · intro owner t row ht hstage hrow hcanonical
    exact advance_existing hstage hrow hcanonical
  · intro bs w' hbs
    exact keepsSettled_run hbs

end SpendWorld

namespace Sample
open SpendWorld

def spender : AccountId := ⟨1⟩

def aiDb : AiDb := { policy := aiPolicy }

/-- All statements of a reservation. -/
def reserveAll (id : Nat) (r : SpendReservation) : List SpendLabel :=
  .open spender id r false :: List.replicate 7 (.advance spender)

def half : SpendReservation := reservation "0.5" (by decide +kernel)

/-- The same amount, spelled with a leading zero. -/
def paddedHalf : SpendReservation := reservation "00.5" (by decide +kernel)

/-- The first reservation is settled above its amount while the second one has been compared with the limit. -/
def overrunRun : List SpendLabel :=
  reserveAll 10 half ++ .open spender 11 half false :: List.replicate 6 (.advance spender) ++
    [.settle spender 10 "0.9", .advance spender]

def overrunEnd : SpendWorld := (run (step aiPlatform) (start aiDb 0) overrunRun).getD (start aiDb 0)

def replayRun : List SpendLabel := reserveAll 10 paddedHalf ++ [.open spender 10 paddedHalf false]

def replayEnd : SpendWorld := (run (step aiPlatform) (start aiDb 0) replayRun).getD (start aiDb 0)

end Sample

open SpendWorld Sample in
/-- A run in which a new reservation takes the sum of its day over the limit of one dollar that it used, and
one in which the same reservation is refused the second time. -/
theorem admission_overdrawn :
    (run (step aiPlatform) (start aiDb 0) overrunRun = some overrunEnd ∧ 1 < overrunEnd.db.total spender 0 ∧
      overrunEnd.limits.lookup (spender, 0) = some 1) ∧
    run (step aiPlatform) (start aiDb 0) replayRun = some replayEnd ∧
      ∃ t, replayEnd.reserving.lookup spender = some t ∧ t.reservation = paddedHalf ∧
        replayEnd.db.spending.lookup t.id = some (paddedHalf.row spender 0) ∧
        t.advance aiPlatform spender replayEnd.db replayEnd.clock = .done (.error .conflict) replayEnd.db := by
  refine ⟨⟨run_getD (by decide +kernel) _, by decide +kernel, by decide +kernel⟩, run_getD (by decide +kernel) _,
    { id := 10, reservation := paddedHalf, automaticChat := false }, by decide +kernel, rfl, by decide +kernel, ?_⟩
  have hconflict : checkExisting spender 10 paddedHalf replayEnd.db = .error .conflict := by
    have hrow : replayEnd.db.spending.lookup 10 = some (paddedHalf.row spender 0) := by decide +kernel
    have hspelled : (paddedHalf.row spender 0).reserved.text ≠ paddedHalf.amount := by decide +kernel
    simp only [checkExisting, Tx.bind_run, Tx.get_run, hrow, Tx.require, hspelled, and_false, if_false, Tx.throw_run]
  simp only [Reserving.advance, hconflict]

open SpendWorld Sample in
theorem budget_kept_overrun : overrunEnd.db.total spender 0 = 7 / 5 ∧
    ∀ bs w', run (step aiPlatform) overrunEnd bs = some w' → KeepsSettled overrunEnd w' := by
  have h := budget_kept aiPlatform (rfl : aiDb.spending = ∅) (run_getD (by decide +kernel) (start aiDb 0) :
    run (step aiPlatform) (start aiDb 0) overrunRun = some overrunEnd)
  exact ⟨by decide +kernel, h.2.2.2⟩

end Inoreader
