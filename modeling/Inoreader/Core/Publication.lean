import Inoreader.Lib.Decimal
import Inoreader.Lib.Except
import Inoreader.Lib.Text
import Inoreader.Repository.Presentation

/-!
# Publication dates (`reader-core/src/publication.rs`)

A publication date is its text: an instant with an offset, a clock without a zone, or a day. The formats are read by
`chrono`. `day` panics on a text in none of the formats; a panic is an error here.
-/

namespace Inoreader
open Lib

namespace Publication

/-- `NaiveDateTime`. -/
structure NaiveDateTime where
  day : Day
  /-- The nanoseconds of the day; a leap second lies behind its minute. -/
  nano : Nat
deriving DecidableEq, Repr

/-- `DateTime<FixedOffset>`. -/
structure OffsetDateTime where
  utc : NaiveDateTime
  offset : Int
deriving DecidableEq, Repr

/-- What the dates take from `chrono`: `DateTime::parse_from_rfc3339`, `parse_from_rfc2822`, `year` and `to_rfc3339`, then
`parse_from_str` and the texts of `NaiveDate` and `NaiveDateTime`. -/
structure Chrono where
  rfc3339 : String → Option OffsetDateTime
  rfc2822 : String → Option OffsetDateTime
  year : OffsetDateTime → Int
  toRfc3339 : OffsetDateTime → String
  date : (format text : String) → Option Day
  dateText : Day → String
  dateTime : (format text : String) → Option NaiveDateTime
  dateTimeText : NaiveDateTime → String

section
variable (C : Chrono)

def dateFormat : String := "%Y-%m-%d"

def clockFormat : String := "%Y-%m-%dT%H:%M:%S%.f"

/-- `PublicationDate::try_from` accepts the text. -/
def accepts (value : String) : Bool :=
  (C.rfc3339 value).isSome || (C.date dateFormat value).isSome || (C.dateTime clockFormat value).isSome

/-- `str::trim`. -/
def trim (value : String) : String := String.ofList (trimText value.toList)

def namedFormats : List String := ["%Y/%m/%d", "%B %d, %Y", "%b %d, %Y", "%d %B %Y", "%d %b %Y", "%Y年%m月%d日"]

def clockFormats : List String := ["%Y-%m-%d %H:%M:%S%.f", "%Y-%m-%d %H:%M", "%Y/%m/%d %H:%M:%S"]

/-- `PublicationDate::parse`: the text of the date. -/
def parse (value : String) : Option String :=
  let value := trim value
  if accepts C value then some value
  else match C.rfc2822 value with
    | some date => some (C.toRfc3339 date)
    | none => match namedFormats.findSome? fun format => C.date format value with
      | some date => some (C.dateText date)
      | none => (clockFormats.findSome? fun format => C.dateTime format value).map C.dateTimeText

def dayOnly (date : String) : Bool := (C.date dateFormat date).isSome

/-- `PublicationDate::day`. -/
def day (date : String) : Except String Day :=
  match C.rfc3339 date with
  | some value => .ok value.utc.day
  | none => match C.dateTime clockFormat date with
    | some value => .ok value.day
    | none => match C.date dateFormat date with
      | some value => .ok value
      | none => .error "validated publication date"

/-- `PublicationDate::equivalent`. -/
def equivalent (date other : String) : Bool :=
  match C.rfc3339 date, C.rfc3339 other with
  | some a, some b => a.utc = b.utc
  | _, _ => date = other

/-- `str::strip_prefix`. -/
def stripPrefix (pre value : String) : Option String :=
  if pre.toList.isPrefixOf value.toList then some (String.ofList (value.toList.drop pre.length)) else none

/-- `PublicationEvidence::date`. -/
def evidenceDate (evidence : PublicationEvidence) : Option String :=
  if evidence.source = "html:huawei-blog-byline" then
    (stripPrefix "发表于" (trim evidence.raw)).bind fun value => parse C (trim value)
  else parse C evidence.raw

/-- The loop of `all`, up to the first piece that does not agree. -/
def allAgree (first : String) : List String → Except String Bool
  | [] => .ok true
  | value :: rest =>
    if equivalent C first value then allAgree first rest
    else if dayOnly C value then do
      let valueDay ← day C value
      let firstDay ← day C first
      if valueDay = firstDay then allAgree first rest else .ok false
    else .ok false

/-- The first date that is more than a day, else the first one. -/
def representative (dates : List String) : Option String :=
  (dates.find? fun date => !dayOnly C date).or dates.head?

/-- `resolve_publication`. -/
def resolvePublication (values : List PublicationEvidence) : Except String (Option String) :=
  let dates := values.filterMap (evidenceDate C)
  match representative C dates with
  | none => .ok none
  | some first => (allAgree C first dates).map fun agree => if agree then some first else none

/-- How `chrono` reads what it wrote. RFC 3339 has years of four digits. -/
structure Chrono.Reads : Prop where
  day_format : ∀ text value, C.date dateFormat text = some value →
    C.rfc3339 text = none ∧ C.dateTime clockFormat text = none
  day_text : ∀ value, C.date dateFormat (C.dateText value) = some value ∧ trim (C.dateText value) = C.dateText value
  clock_text : ∀ value, (C.dateTime clockFormat (C.dateTimeText value)).isSome
  offset_text : ∀ value, 0 ≤ C.year value → C.year value ≤ 9999 → C.rfc3339 (C.toRfc3339 value) = some value
  long_year : ∀ value, ¬ (0 ≤ C.year value ∧ C.year value ≤ 9999) → accepts C (C.toRfc3339 value) = false

/-- The two texts denote the same instant, or the same day, or are the same. -/
def SameDate (date other : String) : Prop :=
  (∃ a b, C.rfc3339 date = some a ∧ C.rfc3339 other = some b ∧ a.utc = b.utc) ∨
    (∃ value, C.date dateFormat date = some value ∧ C.date dateFormat other = some value) ∨ date = other

/-- The day of the date that the text was written for. -/
def OnDay (date : String) (value : Day) : Prop :=
  day C date = .ok value ∨ ∃ instant, date = C.toRfc3339 instant ∧ instant.utc.day = value

/-- A piece of evidence agrees with a date. -/
def Agrees (first value : String) : Prop :=
  equivalent C first value = true ∨ dayOnly C value = true ∧ ∃ d, day C value = .ok d ∧ day C first = .ok d

/-- The order of the evidence does not matter, everything agrees with the result, and a day that agrees leaves it as it
is. -/
structure OrderIndependent (values : List PublicationEvidence) : Prop where
  resolved : ∀ values', values.Perm values' → ((∃ date, resolvePublication C values = .ok (some date)) ↔
    ∃ date, resolvePublication C values' = .ok (some date))
  same : ∀ values' date date', values.Perm values' → resolvePublication C values = .ok (some date) →
    resolvePublication C values' = .ok (some date') → SameDate C date date'
  agrees : ∀ date, resolvePublication C values = .ok (some date) →
    ∀ value ∈ values.filterMap (evidenceDate C), Agrees C date value
  corroborated : ∀ pre post date evidence text value, values = pre ++ post →
    resolvePublication C values = .ok (some date) → OnDay C date value → evidenceDate C evidence = some text →
    C.date dateFormat text = some value → ∃ date', resolvePublication C (pre ++ evidence :: post) = .ok (some date') ∧
      SameDate C date date' ∧ (dayOnly C date = false ∨ (∃ e ∈ pre, (evidenceDate C e).isSome) → date' = date)

/-- Every date in the evidence is one and the same RFC 2822 date of a year that RFC 3339 cannot write. -/
def LongYear (values : List PublicationEvidence) : Prop :=
  ∃ value, ¬ (0 ≤ C.year value ∧ C.year value ≤ 9999) ∧ values.filterMap (evidenceDate C) ≠ [] ∧
    ∀ date ∈ values.filterMap (evidenceDate C), date = C.toRfc3339 value

end

section
variable {C : Chrono} {first value date date' : String} {dates dates' : List String}
  {values values' : List PublicationEvidence}

theorem equivalent_iff : equivalent C first value = true ↔
    (∃ a b, C.rfc3339 first = some a ∧ C.rfc3339 value = some b ∧ a.utc = b.utc) ∨ first = value := by
  unfold equivalent
  cases ha : C.rfc3339 first with
  | none => simp
  | some a =>
    cases hb : C.rfc3339 value with
    | none =>
      simp
    | some b =>
      simp
      rintro rfl
      rw [ha] at hb
      cases hb
      rfl

theorem allAgree_iff : allAgree C first dates = .ok true ↔ ∀ value ∈ dates, Agrees C first value := by
  induction dates with
  | nil => simp [allAgree]
  | cons value dates ih =>
    rw [allAgree, List.forall_mem_cons, ← ih]
    unfold Agrees
    by_cases heq : equivalent C first value = true
    · simp [heq]
    · by_cases hday : dayOnly C value = true
      · rw [if_neg heq, if_pos hday]
        constructor
        · intro h
          obtain ⟨valueDay, hvalue, h⟩ := except_bind_ok.1 h
          obtain ⟨firstDay, hfirst, h⟩ := except_bind_ok.1 h
          split at h
          · rename_i hdays
            exact ⟨.inr ⟨hday, valueDay, hvalue, hdays ▸ hfirst⟩, h⟩
          · cases h
        · rintro ⟨h, hrest⟩
          obtain ⟨-, d, hvalue, hfirst⟩ := h.resolve_left heq
          refine except_bind_ok.2 ⟨d, hvalue, except_bind_ok.2 ⟨d, hfirst, ?_⟩⟩
          rw [if_pos rfl, hrest]
      · simp [heq, hday]

theorem resolvePublication_iff : resolvePublication C values = .ok (some date) ↔
    representative C (values.filterMap (evidenceDate C)) = some date ∧
      ∀ value ∈ values.filterMap (evidenceDate C), Agrees C date value := by
  unfold resolvePublication
  dsimp only
  cases hfirst : representative C (values.filterMap (evidenceDate C)) with
  | none => simp
  | some first =>
    rw [except_map_ok, Option.some_inj]
    constructor
    · rintro ⟨agree, hagree, h⟩
      split at h
      · rename_i htrue
        cases h
        subst htrue
        exact ⟨rfl, allAgree_iff.1 hagree⟩
      · cases h
    · rintro ⟨rfl, h⟩
      exact ⟨true, allAgree_iff.2 h, rfl⟩

/-! ## The representative -/

theorem representative_mem (h : representative C dates = some first) : first ∈ dates := by
  unfold representative at h
  rcases Option.or_eq_some_iff.1 h with hfind | ⟨-, hhead⟩
  · exact List.mem_of_find?_eq_some hfind
  · exact List.mem_of_head? hhead

theorem exists_representative (h : dates ≠ []) : ∃ first, representative C dates = some first := by
  obtain ⟨d, tail, rfl⟩ := List.exists_cons_of_ne_nil h
  unfold representative
  cases List.find? (fun date => !dayOnly C date) (d :: tail) with
  | none => exact ⟨d, rfl⟩
  | some first => exact ⟨first, rfl⟩

/-- A representative that is a day stands for days only. -/
theorem representative_dayOnly (h : representative C dates = some first) (hday : dayOnly C first = true) :
    ∀ value ∈ dates, dayOnly C value = true := by
  unfold representative at h
  rcases Option.or_eq_some_iff.1 h with hfind | ⟨hnone, -⟩
  · have hnot := List.find?_some hfind
    simp [hday] at hnot
  · intro value hvalue
    have hnot := List.find?_eq_none.1 hnone value hvalue
    simpa using hnot

theorem representative_of_days (h : ∀ value ∈ dates, dayOnly C value = true) : representative C dates = dates.head? := by
  unfold representative
  rw [List.find?_eq_none.2 fun value hvalue => by simp [h value hvalue]]
  rfl

/-- A further day does not displace a representative that is more than a day. -/
theorem representative_insert {pre post : List String} (h : representative C (pre ++ post) = some first)
    (hfirst : dayOnly C first = false) (hvalue : dayOnly C value = true) :
    representative C (pre ++ value :: post) = some first := by
  unfold representative at h ⊢
  have hfind : (pre ++ value :: post).find? (fun date => !dayOnly C date) =
      (pre ++ post).find? fun date => !dayOnly C date := by
    rw [List.find?_append, List.find?_append, List.find?_cons_of_neg (by simp [hvalue])]
  rcases Option.or_eq_some_iff.1 h with h | ⟨hnone, hhead⟩
  · rw [hfind, h]
    rfl
  · have hnot := List.find?_eq_none.1 hnone first (List.mem_of_head? hhead)
    simp [hfirst] at hnot

/-! ## Days -/

theorem day_of_date (hC : C.Reads) {d : Day} (h : C.date dateFormat value = some d) : day C value = .ok d := by
  obtain ⟨hoffset, hclock⟩ := hC.day_format value d h
  unfold day
  rw [hoffset, hclock, h]

theorem dayOnly_iff : dayOnly C value = true ↔ ∃ d, C.date dateFormat value = some d := by
  rw [dayOnly, Option.isSome_iff_exists]

/-- Equivalent dates have one day. -/
theorem day_congr (h : equivalent C first value = true) : day C value = day C first := by
  rcases equivalent_iff.1 h with ⟨a, b, ha, hb, hutc⟩ | rfl
  · unfold day
    rw [ha, hb]
    dsimp only
    rw [hutc]
  · rfl

theorem equivalent_symm (h : equivalent C first value = true) : equivalent C value first = true := by
  rcases equivalent_iff.1 h with ⟨a, b, ha, hb, hutc⟩ | rfl
  · exact equivalent_iff.2 (.inl ⟨b, a, hb, ha, hutc.symm⟩)
  · exact h

theorem equivalent_trans (h : equivalent C first value = true) (h' : equivalent C value date = true) :
    equivalent C first date = true := by
  rcases equivalent_iff.1 h with ⟨a, b, ha, hb, hutc⟩ | rfl
  · rcases equivalent_iff.1 h' with ⟨b', c, hb', hc, hutc'⟩ | rfl
    · rw [hb] at hb'
      cases hb'
      exact equivalent_iff.2 (.inl ⟨a, c, ha, hc, hutc.trans hutc'⟩)
    · exact h
  · exact h'

/-- A day is equivalent to nothing but itself. -/
theorem eq_of_equivalent_day (hC : C.Reads) {d : Day} (hd : C.date dateFormat first = some d)
    (h : equivalent C first value = true) : first = value := by
  rcases equivalent_iff.1 h with ⟨a, b, ha, -, -⟩ | h
  · rw [(hC.day_format first d hd).1] at ha
    cases ha
  · exact h

/-! ## Permutations -/

/-- What agrees with one representative agrees with every other, and the two denote the same. -/
theorem agrees_transfer (hC : C.Reads) (hperm : dates.Perm dates') (hfirst : representative C dates = some date)
    (hfirst' : representative C dates' = some date') (hagrees : ∀ value ∈ dates, Agrees C date value) :
    SameDate C date date' ∧ ∀ value ∈ dates', Agrees C date' value := by
  have hmem' : date' ∈ dates := hperm.mem_iff.2 (representative_mem hfirst')
  cases hday : dayOnly C date with
  | true =>
    -- all pieces are days, and they are the same day
    have hdays := representative_dayOnly hfirst hday
    obtain ⟨d, hd⟩ := dayOnly_iff.1 hday
    have hsame : ∀ value ∈ dates, C.date dateFormat value = some d := by
      intro value hvalue
      obtain ⟨d', hd'⟩ := dayOnly_iff.1 (hdays value hvalue)
      rcases hagrees value hvalue with heq | ⟨-, x, hx, hx'⟩
      · rw [← eq_of_equivalent_day hC hd heq, hd]
      · rw [day_of_date hC hd'] at hx
        rw [day_of_date hC hd] at hx'
        cases hx
        cases hx'
        exact hd'
    refine ⟨.inr (.inl ⟨d, hd, hsame date' hmem'⟩), fun value hvalue => .inr ?_⟩
    have hvalue := hsame value (hperm.mem_iff.2 hvalue)
    exact ⟨dayOnly_iff.2 ⟨d, hvalue⟩, d, day_of_date hC hvalue, day_of_date hC (hsame date' hmem')⟩
  | false =>
    have hday' : dayOnly C date' = false := by
      by_contra hday'
      have hdays := representative_dayOnly hfirst' (Bool.not_eq_false _ ▸ hday')
      rw [hdays date (hperm.mem_iff.1 (representative_mem hfirst))] at hday
      cases hday
    have heq : equivalent C date date' = true := by
      rcases hagrees date' hmem' with heq | ⟨htrue, -⟩
      · exact heq
      · rw [hday'] at htrue
        cases htrue
    refine ⟨?_, fun value hvalue => ?_⟩
    · rcases equivalent_iff.1 heq with h | h
      · exact .inl h
      · exact .inr (.inr h)
    · rcases hagrees value (hperm.mem_iff.2 hvalue) with h | ⟨hvalue, d, hd, hd'⟩
      · exact .inl (equivalent_trans (equivalent_symm heq) h)
      · exact .inr ⟨hvalue, d, hd, (day_congr heq).trans hd'⟩

/-! ## The theorem -/

theorem accepts_iff_day : accepts C value = true ↔ ∃ d, day C value = .ok d := by
  unfold accepts day
  cases C.rfc3339 value with
  | some v => exact iff_of_true rfl ⟨v.utc.day, rfl⟩
  | none =>
    cases C.dateTime clockFormat value with
    | some v => exact iff_of_true (by simp) ⟨v.day, rfl⟩
    | none =>
      cases C.date dateFormat value with
      | some d => exact iff_of_true rfl ⟨d, rfl⟩
      | none => exact iff_of_false (by simp) (by simp)

theorem accepts_day (hC : C.Reads) (d : Day) : accepts C (C.dateText d) = true :=
  accepts_iff_day.2 ⟨d, day_of_date hC (hC.day_text d).1⟩

/-- A parsed date is accepted again, unless it has a long year. -/
theorem accepts_of_parse (hC : C.Reads) {text : String} (h : parse C text = some value) :
    accepts C value = true ∨
      ∃ instant, ¬ (0 ≤ C.year instant ∧ C.year instant ≤ 9999) ∧ value = C.toRfc3339 instant := by
  unfold parse at h
  dsimp only at h
  split at h
  · rename_i haccepts
    cases h
    exact .inl haccepts
  · split at h
    · rename_i instant _
      cases h
      by_cases hyear : 0 ≤ C.year instant ∧ C.year instant ≤ 9999
      · refine .inl (accepts_iff_day.2 ⟨instant.utc.day, ?_⟩)
        unfold day
        rw [hC.offset_text instant hyear.1 hyear.2]
      · exact .inr ⟨instant, hyear, rfl⟩
    · split at h
      · rename_i d _
        cases h
        exact .inl (accepts_day hC d)
      · obtain ⟨clock, -, rfl⟩ := Option.map_eq_some_iff.1 h
        refine .inl ?_
        unfold accepts
        rw [hC.clock_text clock, Bool.or_true]

theorem accepts_of_evidence (hC : C.Reads) {evidence : PublicationEvidence} (h : evidenceDate C evidence = some value) :
    accepts C value = true ∨
      ∃ instant, ¬ (0 ≤ C.year instant ∧ C.year instant ≤ 9999) ∧ value = C.toRfc3339 instant := by
  unfold evidenceDate at h
  split at h
  · obtain ⟨text, -, h⟩ := Option.bind_eq_some_iff.1 h
    exact accepts_of_parse hC h
  · exact accepts_of_parse hC h

/-- A text in none of the formats. -/
theorem not_accepts_iff : accepts C value = false ↔
    C.rfc3339 value = none ∧ C.date dateFormat value = none ∧ C.dateTime clockFormat value = none := by
  simp [accepts, and_assoc]

/-- A day written as evidence. -/
theorem evidenceDate_day (hC : C.Reads) (d : Day) :
    evidenceDate C { source := "", raw := C.dateText d } = some (C.dateText d) := by
  unfold evidenceDate
  rw [if_neg (show ("" : String) ≠ "html:huawei-blog-byline" by decide)]
  unfold parse
  dsimp only
  rw [(hC.day_text d).2, if_pos (accepts_day hC d)]

/-- The one date of a long year is the result, and the day of it is refused. -/
theorem not_orderIndependent (hC : C.Reads) (h : LongYear C values) : ¬ OrderIndependent C values := by
  obtain ⟨instant, hyear, hne, hall⟩ := h
  have hlong := hC.long_year instant hyear
  obtain ⟨hoffset, hdate, -⟩ := not_accepts_iff.1 hlong
  have hresolved : resolvePublication C values = .ok (some (C.toRfc3339 instant)) := by
    obtain ⟨first, hfirst⟩ := exists_representative (C := C) hne
    have htext := hall first (representative_mem hfirst)
    subst htext
    refine resolvePublication_iff.2 ⟨hfirst, fun value hvalue => .inl (equivalent_iff.2 (.inr ?_))⟩
    exact (hall value hvalue).symm
  intro hindependent
  obtain ⟨date', hdate', -⟩ := hindependent.corroborated values [] _ _ _ instant.utc.day (List.append_nil values).symm
    hresolved (.inr ⟨instant, rfl, rfl⟩) (evidenceDate_day hC _) (hC.day_text _).1
  obtain ⟨hfirst, hagrees⟩ := resolvePublication_iff.1 hdate'
  rw [List.filterMap_append, List.filterMap_cons_some (evidenceDate_day hC _)] at hfirst hagrees
  obtain ⟨text, htext⟩ := List.exists_mem_of_ne_nil _ hne
  have hlongText : C.toRfc3339 instant ∈ values.filterMap (evidenceDate C) := hall text htext ▸ htext
  -- the representative is the long date, since it is no day
  have hrep : date' = C.toRfc3339 instant := by
    rcases List.mem_append.1 (representative_mem hfirst) with hmem | hmem
    · exact hall date' hmem
    · have hday : dayOnly C date' = true := by
        rw [List.filterMap_nil, List.mem_singleton] at hmem
        exact hmem ▸ dayOnly_iff.2 ⟨_, (hC.day_text _).1⟩
      have hdays := representative_dayOnly hfirst hday (C.toRfc3339 instant) (List.mem_append_left _ hlongText)
      rw [dayOnly, hdate] at hdays
      cases hdays
  subst hrep
  rcases hagrees (C.dateText instant.utc.day) (by simp) with heq | ⟨-, d, -, hd⟩
  · rcases equivalent_iff.1 heq with ⟨a, b, ha, -, -⟩ | htext
    · rw [hoffset] at ha
      cases ha
    · have hread := (hC.day_text instant.utc.day).1
      rw [← htext, hdate] at hread
      cases hread
  · rw [accepts_iff_day.2 ⟨d, hd⟩] at hlong
    cases hlong

/-- A result that is no long date has the day that it was written for. -/
theorem day_of_onDay (hC : C.Reads) {d : Day} (haccepts : accepts C date = true) (h : OnDay C date d) :
    day C date = .ok d := by
  rcases h with h | ⟨instant, rfl, rfl⟩
  · exact h
  · by_cases hyear : 0 ≤ C.year instant ∧ C.year instant ≤ 9999
    · unfold day
      rw [hC.offset_text instant hyear.1 hyear.2]
    · rw [hC.long_year instant hyear] at haccepts
      cases haccepts

/-- A result in none of the formats is the one date of a long year. -/
theorem longYear_of_not_accepts (hC : C.Reads) (h : resolvePublication C values = .ok (some date))
    (hnot : accepts C date = false) : LongYear C values := by
  obtain ⟨hfirst, hagrees⟩ := resolvePublication_iff.1 h
  have hmem := representative_mem hfirst
  obtain ⟨e, -, he⟩ := List.mem_filterMap.1 hmem
  rcases accepts_of_evidence hC he with haccepts | ⟨instant, hyear, rfl⟩
  · rw [hnot] at haccepts
    cases haccepts
  · refine ⟨instant, hyear, List.ne_nil_of_mem hmem, fun value hvalue => ?_⟩
    rcases hagrees value hvalue with heq | ⟨-, d, -, hd⟩
    · rcases equivalent_iff.1 heq with ⟨a, b, ha, -, -⟩ | htext
      · rw [(not_accepts_iff.1 hnot).1] at ha
        cases ha
      · exact htext.symm
    · rw [accepts_iff_day.2 ⟨d, hd⟩] at hnot
      cases hnot

theorem resolvePublication_perm (hC : C.Reads) (hperm : values.Perm values')
    (h : resolvePublication C values = .ok (some date)) :
    ∃ date', resolvePublication C values' = .ok (some date') ∧ SameDate C date date' := by
  obtain ⟨hfirst, hagrees⟩ := resolvePublication_iff.1 h
  have hdates := hperm.filterMap (evidenceDate C)
  have hne : values'.filterMap (evidenceDate C) ≠ [] :=
    List.ne_nil_of_mem (hdates.mem_iff.1 (representative_mem hfirst))
  obtain ⟨date', hfirst'⟩ := exists_representative (C := C) hne
  obtain ⟨hsame, hagrees'⟩ := agrees_transfer hC hdates hfirst hfirst' hagrees
  exact ⟨date', resolvePublication_iff.2 ⟨hfirst', hagrees'⟩, hsame⟩

/-- A further day that agrees leaves the result as it is; only a day can be replaced by another text of it. -/
theorem resolvePublication_insert (hC : C.Reads) {pre post : List PublicationEvidence} {evidence : PublicationEvidence}
    {text : String} {d : Day} (h : resolvePublication C (pre ++ post) = .ok (some date)) (hday : day C date = .ok d)
    (htext : evidenceDate C evidence = some text) (hd : C.date dateFormat text = some d) :
    ∃ date', resolvePublication C (pre ++ evidence :: post) = .ok (some date') ∧ SameDate C date date' ∧
      (dayOnly C date = false ∨ (∃ e ∈ pre, (evidenceDate C e).isSome) → date' = date) := by
  obtain ⟨hfirst, hagrees⟩ := resolvePublication_iff.1 h
  have htextDay : dayOnly C text = true := dayOnly_iff.2 ⟨d, hd⟩
  have hnew : Agrees C date text := .inr ⟨htextDay, d, day_of_date hC hd, hday⟩
  have hdates : (pre ++ evidence :: post).filterMap (evidenceDate C) =
      pre.filterMap (evidenceDate C) ++ text :: post.filterMap (evidenceDate C) := by
    rw [List.filterMap_append, List.filterMap_cons_some htext]
  rw [List.filterMap_append] at hfirst hagrees
  have hagrees' : ∀ value ∈ pre.filterMap (evidenceDate C) ++ text :: post.filterMap (evidenceDate C),
      Agrees C date value := by
    intro value hvalue
    rcases List.mem_append.1 hvalue with hvalue | hvalue
    · exact hagrees value (List.mem_append_left _ hvalue)
    · rcases List.mem_cons.1 hvalue with rfl | hvalue
      · exact hnew
      · exact hagrees value (List.mem_append_right _ hvalue)
  cases hdate : dayOnly C date with
  | false =>
    refine ⟨date, resolvePublication_iff.2 ?_, .inr (.inr rfl), fun _ => rfl⟩
    rw [hdates]
    exact ⟨representative_insert hfirst hdate htextDay, hagrees'⟩
  | true =>
    -- all pieces are texts of one day
    have hall := representative_dayOnly hfirst hdate
    have hsame : ∀ value ∈ pre.filterMap (evidenceDate C) ++ text :: post.filterMap (evidenceDate C),
        C.date dateFormat value = some d := by
      obtain ⟨x, hx⟩ := dayOnly_iff.1 hdate
      have hxd := day_of_date hC hx
      rw [hday] at hxd
      cases hxd
      intro value hvalue
      rcases hagrees' value hvalue with heq | ⟨hvalueDay, y, hy, hy'⟩
      · rw [← eq_of_equivalent_day hC hx heq, hx]
      · obtain ⟨z, hz⟩ := dayOnly_iff.1 hvalueDay
        rw [day_of_date hC hz] at hy
        rw [hday] at hy'
        cases hy
        cases hy'
        exact hz
    have hdays' := fun value hvalue => dayOnly_iff.2 ⟨d, hsame value hvalue⟩
    obtain ⟨date', hfirst'⟩ := @exists_representative C
      (pre.filterMap (evidenceDate C) ++ text :: post.filterMap (evidenceDate C)) (by simp)
    have hd' := hsame date' (representative_mem hfirst')
    obtain ⟨x, hx⟩ := dayOnly_iff.1 hdate
    refine ⟨date', resolvePublication_iff.2 ?_, ?_, ?_⟩
    · rw [hdates]
      refine ⟨hfirst', fun value hvalue => .inr ⟨hdays' value hvalue, d, day_of_date hC (hsame value hvalue), ?_⟩⟩
      exact day_of_date hC hd'
    · have hxd := day_of_date hC hx
      rw [hday] at hxd
      cases hxd
      exact .inr (.inl ⟨d, hx, hd'⟩)
    · rintro (hfalse | ⟨e, he, hsome⟩)
      · cases hfalse
      · -- the first piece stays the first one
        rw [representative_of_days hall] at hfirst
        rw [representative_of_days hdays'] at hfirst'
        obtain ⟨t, ht⟩ := Option.isSome_iff_exists.1 hsome
        obtain ⟨y, tail, hpre⟩ := List.exists_cons_of_ne_nil (List.ne_nil_of_mem (List.mem_filterMap.2 ⟨e, he, ht⟩))
        rw [hpre] at hfirst hfirst'
        exact Option.some.inj (hfirst'.symm.trans hfirst)

end
/-! ## A date of a long year -/

namespace Sample

/-- The first of January 12024. -/
def longDay : Day := 3672148

def longDate : PublicationEvidence := { source := "feed", raw := "01 Jan 12024 00:00:00 +0000" }

def noonDate : PublicationEvidence := { source := "feed", raw := "2026-01-01T12:00:00Z" }

/-- A day behind a mark, for the days whose format does not matter here. -/
def readDay (text : String) : Option Day :=
  if text = "+12024-01-01" then some longDay
  else if text.toList.head? = some 'D' then some (readInt text.toList.tail.dropLast) else none

/-- `chrono` on the two dates. -/
def chrono : Chrono where
  rfc3339 := fun text => if text = noonDate.raw then some ⟨⟨20454, 43200000000000⟩, 0⟩ else none
  rfc2822 := fun text => if text = longDate.raw then some ⟨⟨longDay, 0⟩, 0⟩ else none
  year := fun _ => 12024
  toRfc3339 := fun _ => "+12024-01-01T00:00:00+00:00"
  date := fun format text => if format = dateFormat then readDay text else none
  dateText := fun d => if d = longDay then "+12024-01-01" else String.ofList ('D' :: (intChars d ++ ['D']))
  dateTime := fun _ text => if text = "2026-01-01T12:00:00" then some ⟨20454, 43200000000000⟩ else none
  dateTimeText := fun _ => "2026-01-01T12:00:00"

theorem trimText_marked (cs : List Char) : trimText ('D' :: (cs ++ ['D'])) = 'D' :: (cs ++ ['D']) := by
  unfold trimText
  rw [List.dropWhile_cons_of_neg (by decide), ← List.cons_append, List.reverse_append, List.reverse_singleton,
    List.singleton_append, List.dropWhile_cons_of_neg (by decide)]
  simp

theorem chrono_reads : chrono.Reads := by
  refine ⟨fun text d h => ?_, fun d => ?_, fun value => ?_, fun value _ h => ?_, fun value _ => ?_⟩
  · have hnoon : chrono.date dateFormat noonDate.raw = none := by decide +kernel
    have hclock : chrono.date dateFormat "2026-01-01T12:00:00" = none := by decide +kernel
    have hne : text ≠ noonDate.raw ∧ text ≠ "2026-01-01T12:00:00" := by
      constructor
      · rintro rfl
        rw [hnoon] at h
        cases h
      · rintro rfl
        rw [hclock] at h
        cases h
    exact ⟨if_neg hne.1, if_neg hne.2⟩
  · unfold chrono
    dsimp only
    rw [if_pos rfl]
    split
    · rename_i hd
      subst hd
      exact ⟨by decide +kernel, by decide +kernel⟩
    · refine ⟨?_, ?_⟩
      · unfold readDay
        rw [if_neg ?_, String.toList_ofList]
        · rw [List.head?_cons, if_pos rfl, List.tail_cons, List.dropLast_concat, readInt_intChars]
        · intro h
          have hhead := congrArg (fun text => text.toList.head?) h
          have hplus : "+12024-01-01".toList.head? = some '+' := by decide +kernel
          rw [String.toList_ofList, hplus] at hhead
          exact absurd (Option.some.inj hhead) (by decide)
      · unfold trim
        rw [String.toList_ofList, trimText_marked]
  · show (chrono.dateTime clockFormat "2026-01-01T12:00:00").isSome = true
    decide
  · exact absurd (show (12024 : Int) ≤ 9999 from h) (by decide)
  · show accepts chrono "+12024-01-01T00:00:00+00:00" = false
    decide +kernel

end Sample

open Publication.Sample

end Publication
end Inoreader
