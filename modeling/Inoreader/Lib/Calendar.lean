import Inoreader.Lib.Decimal

/-!
# Instants as text

An instant is a number of nanoseconds since the epoch. RFC 3339 writes as many groups of three digits after the second
as there is something to write; a database writes the microseconds without zeros at the end, in its own form.
-/

namespace Lib.Calendar

/-- Year, month and day of a number of days since the epoch. -/
def civil (day : Int) : Int × Nat × Nat :=
  let z := day + 719468
  let dayOfEra := z % 146097
  let yearOfEra := (dayOfEra - dayOfEra / 1460 + dayOfEra / 36524 - dayOfEra / 146096) / 365
  let dayOfYear := dayOfEra - (365 * yearOfEra + yearOfEra / 4 - yearOfEra / 100)
  let shifted := (5 * dayOfYear + 2) / 153
  let month := if shifted < 10 then shifted + 3 else shifted - 9
  (yearOfEra + z / 146097 * 400 + (if month ≤ 2 then 1 else 0), month.toNat,
    (dayOfYear - (153 * shifted + 2) / 5 + 1).toNat)

/-- The number of a day in its year, which begins in March. -/
theorem dayOfYear_bounds {doe yoe : Int} (hdoe : 0 ≤ doe ∧ doe < 146097)
    (hyoe : yoe = (doe - doe / 1460 + doe / 36524 - doe / 146096) / 365) :
    0 ≤ doe - (365 * yoe + yoe / 4 - yoe / 100) ∧ doe - (365 * yoe + yoe / 4 - yoe / 100) ≤ 365 := by
  by_cases hlast : doe = 146096
  · subst hlast
    have hyear : yoe = 399 := hyoe
    subst hyear
    decide
  · have hcycle : doe / 146096 = 0 := by omega
    rw [hcycle] at hyoe
    have hcentury : doe / 36524 = 0 ∨ doe / 36524 = 1 ∨ doe / 36524 = 2 ∨ doe / 36524 = 3 := by omega
    -- within a century the leap days before a year are those of its groups of four years
    rcases hcentury with hc | hc | hc | hc
    all_goals
      rw [hc] at hyoe
      have hyears : yoe / 100 = doe / 36524 := by omega
      have hleap : yoe / 4 ≤ doe / 1460 ∧ doe / 1460 ≤ yoe / 4 + 1 := by omega
      omega

/-- Months and days of a month. -/
theorem civil_bounds (day : Int) : (1 ≤ (civil day).2.1 ∧ (civil day).2.1 ≤ 12) ∧
    1 ≤ (civil day).2.2 ∧ (civil day).2.2 ≤ 31 := by
  have hdoe : 0 ≤ (day + 719468) % 146097 ∧ (day + 719468) % 146097 < 146097 := by omega
  unfold civil
  dsimp only
  generalize (day + 719468) % 146097 = doe at hdoe
  have hdoy := dayOfYear_bounds hdoe rfl
  generalize doe - _ = doy at hdoy
  have hshifted : 0 ≤ (5 * doy + 2) / 153 ∧ (5 * doy + 2) / 153 ≤ 11 := by omega
  split <;> omega

def nanosPerDay : Int := 86400000000000

/-- `-MM-DD` -/
def monthAndDay (t : Int) : List Char :=
  let date := civil (t / nanosPerDay)
  '-' :: padDigits 2 date.2.1 ++ '-' :: padDigits 2 date.2.2

def year (t : Int) : Int := (civil (t / nanosPerDay)).1

/-- `HH:MM:SS` -/
def clock (t : Int) : List Char :=
  let second := (t % nanosPerDay / 1000000000).toNat
  padDigits 2 (second / 3600) ++ ':' :: padDigits 2 (second / 60 % 60) ++ ':' :: padDigits 2 (second % 60)

def nanos (t : Int) : Nat := (t % 1000000000).toNat

/-- RFC 3339 in UTC, with a sign for a year that has not four digits. -/
def rfc3339 (t : Int) : String :=
  let years :=
    if 0 ≤ year t ∧ year t ≤ 9999 then padDigits 4 (year t).toNat
    else (if year t < 0 then '-' else '+') :: padDigits 4 (year t).natAbs
  let fraction :=
    if nanos t = 0 then []
    else if nanos t % 1000000 = 0 then '.' :: padDigits 3 (nanos t / 1000000)
    else if nanos t % 1000 = 0 then '.' :: padDigits 6 (nanos t / 1000)
    else '.' :: padDigits 9 (nanos t)
  String.ofList (years ++ monthAndDay t ++ 'T' :: clock t ++ fraction ++ ['Z'])

/-- A `TIMESTAMPTZ` as text in UTC; the years before the first count back from it. -/
def timestamptz (t : Int) : String :=
  let years := padDigits 4 (if 0 < year t then year t else 1 - year t).toNat
  let digits := ((padDigits 6 (nanos t / 1000)).reverse.dropWhile (· == '0')).reverse
  let fraction := if digits = [] then [] else '.' :: digits
  let era := if 0 < year t then [] else [' ', 'B', 'C']
  String.ofList (years ++ monthAndDay t ++ ' ' :: clock t ++ fraction ++ ['+', '0', '0'] ++ era)

example : rfc3339 1774314000500000000 = "2026-03-24T01:00:00.500Z" := by decide +kernel

example : timestamptz 1774314000500000000 = "2026-03-24 01:00:00.5+00" := by decide +kernel

/-- By code points, the text of a database comes before every RFC 3339 text of its day. -/
theorem timestamptz_lt_rfc3339 {t t' : Int} (hday : t / nanosPerDay = t' / nanosPerDay)
    (hyear : 0 < year t ∧ year t ≤ 9999) : timestamptz t < rfc3339 t' := by
  have hsame : year t' = year t := by unfold year; rw [hday]
  have hdate : monthAndDay t' = monthAndDay t := by unfold monthAndDay; rw [hday]
  unfold timestamptz rfc3339
  rw [hsame, hdate]
  dsimp only
  rw [if_pos hyear.1, if_pos (⟨le_of_lt hyear.1, hyear.2⟩ : 0 ≤ year t ∧ year t ≤ 9999)]
  change String.toList _ < String.toList _
  simp only [String.toList_ofList, List.append_assoc, List.cons_append]
  refine List.append_left_lt (List.append_left_lt ?_)
  exact List.cons_lt_cons_iff.2 (.inl (by decide))

end Lib.Calendar
