import Inoreader.Core.Publication
import Inoreader.Lib.Calendar
import Inoreader.Lib.MixedRadix

/-!
# The order of arrival (`reader_arrival_order`, `publication_clock`)

The database orders articles by one number that it computes from the text of a timestamp. A publication date is turned
into such a text first.
-/

namespace Inoreader
open Lib

/-! ## The accepted syntax -/

/-- `[0-9]{low,high}` -/
structure DigitRun (low high : Nat) where
  chars : List Char
  digits : chars.all Char.isDigit = true
  low_le : low ≤ chars.length
  le_high : chars.length ≤ high

/-- The cast to `numeric`. -/
def DigitRun.value {low high : Nat} (d : DigitRun low high) : Nat := Nat.ofDigitChars 10 d.chars 0

/-- `[-+]?` -/
inductive YearSign
  | none | plus | minus
deriving DecidableEq, Repr

def YearSign.chars : YearSign → List Char
  | none => []
  | plus => ['+']
  | minus => ['-']

/-- `^([-+]?[0-9]{4,6})-([0-9]{2})-([0-9]{2})T([0-9]{2}):([0-9]{2}):([0-9]{2})(?:\.([0-9]{1,9}))?Z$` -/
structure Timestamp where
  sign : YearSign
  yearDigits : DigitRun 4 6
  month : DigitRun 2 2
  day : DigitRun 2 2
  hour : DigitRun 2 2
  minute : DigitRun 2 2
  second : DigitRun 2 2
  fraction : Option (DigitRun 1 9)

namespace Timestamp

def fractionChars : Option (DigitRun 1 9) → List Char
  | none => []
  | some f => '.' :: f.chars

def chars (t : Timestamp) : List Char :=
  t.sign.chars ++ t.yearDigits.chars ++ '-' :: t.month.chars ++ '-' :: t.day.chars ++ 'T' :: t.hour.chars ++
    ':' :: t.minute.chars ++ ':' :: t.second.chars ++ fractionChars t.fraction ++ ['Z']

def text (t : Timestamp) : String := String.ofList t.chars

def year (t : Timestamp) : Int :=
  if t.sign = .minus then -(t.yearDigits.value : Int) else t.yearDigits.value

/-- The nanoseconds of the second. -/
def nanoseconds (t : Timestamp) : Nat :=
  match t.fraction with
  | none => 0
  | some f => f.value * 10 ^ (9 - f.chars.length)

/-- Year, month, day, hour, minute, second and nanoseconds, compared from the left. -/
def fields (t : Timestamp) : List Int :=
  [t.year, t.month.value, t.day.value, t.hour.value, t.minute.value, t.second.value, t.nanoseconds]

structure Valid (t : Timestamp) : Prop where
  month : 1 ≤ t.month.value ∧ t.month.value ≤ 12
  day : 1 ≤ t.day.value ∧ t.day.value ≤ 31
  hour : t.hour.value < 24
  minute : t.minute.value < 60
  second : t.second.value ≤ 60

end Timestamp

/-! ## `reader_arrival_order` -/

/-- A group of digits, and the rest; what follows a group in the expression is never a digit. -/
def readDigits (low high : Nat) (cs : List Char) : Option (DigitRun low high × List Char) :=
  if h : low ≤ (cs.takeWhile Char.isDigit).length ∧ (cs.takeWhile Char.isDigit).length ≤ high then
    some (⟨cs.takeWhile Char.isDigit, List.all_takeWhile, h.1, h.2⟩, cs.dropWhile Char.isDigit)
  else none

def readChar (c : Char) (cs : List Char) : Option (List Char) := if cs.head? = some c then some cs.tail else none

def readSign (cs : List Char) : YearSign × List Char :=
  if cs.head? = some '-' then (.minus, cs.tail)
  else if cs.head? = some '+' then (.plus, cs.tail)
  else (.none, cs)

def readFraction (cs : List Char) : Option (Option (DigitRun 1 9) × List Char) :=
  match readChar '.' cs with
  | none => some (none, cs)
  | some cs => (readDigits 1 9 cs).map fun f => (some f.1, f.2)

/-- `regexp_match` -/
def readTimestamp (cs : List Char) : Option Timestamp :=
  let sign := readSign cs
  (readDigits 4 6 sign.2).bind fun year =>
  (readChar '-' year.2).bind fun cs =>
  (readDigits 2 2 cs).bind fun month =>
  (readChar '-' month.2).bind fun cs =>
  (readDigits 2 2 cs).bind fun day =>
  (readChar 'T' day.2).bind fun cs =>
  (readDigits 2 2 cs).bind fun hour =>
  (readChar ':' hour.2).bind fun cs =>
  (readDigits 2 2 cs).bind fun minute =>
  (readChar ':' minute.2).bind fun cs =>
  (readDigits 2 2 cs).bind fun second =>
  (readFraction second.2).bind fun fraction =>
  if fraction.2 = ['Z'] then
    some { sign := sign.1, yearDigits := year.1, month := month.1, day := day.1, hour := hour.1, minute := minute.1,
           second := second.1, fraction := fraction.1 }
  else none

/-- `rpad(parts[7],9,'0')::numeric` -/
def rpadNanos (f : DigitRun 1 9) : Nat :=
  Nat.ofDigitChars 10 (f.chars ++ List.replicate (9 - f.chars.length) '0') 0

/-- `CASE WHEN parts[7] IS NULL THEN 0 ELSE rpad(parts[7],9,'0')::numeric END` -/
def fractionNanos : Option (DigitRun 1 9) → Nat
  | none => 0
  | some f => rpadNanos f

/-- The key; `none` is the exception. -/
def readerArrivalOrder (value : String) : Option Int :=
  (readTimestamp value.toList).map fun t =>
    (((((t.year * 100 + t.month.value) * 100 + t.day.value) * 100 + t.hour.value) * 100 + t.minute.value) * 100 +
      t.second.value) * 1000000000 + fractionNanos t.fraction

/-! ## `publication_clock` -/

/-- `NaiveTime`: the second of the day, and its nanoseconds; a leap second is the second before it with a second more. -/
structure NaiveTime where
  secs : Nat
  frac : Nat
  secs_lt : secs < 86400
  frac_lt : frac < 2000000000
  leap : 1000000000 ≤ frac → secs % 60 = 59

structure Moment where
  day : Day
  time : NaiveTime

/-- What the clock takes from `chrono`, with the time of the day: `parse_from_rfc3339` in UTC and `parse_from_str` of a
`NaiveDateTime`. -/
structure ChronoTimes where
  instant : String → Option Moment
  clock : (format text : String) → Option Moment

/-- The range of `NaiveDate`. -/
def NaiveDateRange (d : Day) : Prop := -262143 ≤ (Calendar.civil d).1 ∧ (Calendar.civil d).1 ≤ 262142

/-- The two views of `chrono` read the same days. -/
structure ChronoTimes.Agrees (K : ChronoTimes) (C : Publication.Chrono) : Prop where
  instant : ∀ text, (K.instant text).map (·.day) = (C.rfc3339 text).map (·.utc.day)
  clock : ∀ format text, (K.clock format text).map (·.day) = (C.dateTime format text).map (·.day)
  instant_range : ∀ text m, K.instant text = some m → NaiveDateRange m.day
  clock_range : ∀ format text m, K.clock format text = some m → NaiveDateRange m.day
  date_range : ∀ format text d, C.date format text = some d → NaiveDateRange d

/-- `%Y`: four digits, or a sign and at least four. -/
def yearChars (y : Int) : List Char :=
  if 0 ≤ y ∧ y ≤ 9999 then padDigits 4 y.toNat else (if y < 0 then '-' else '+') :: padDigits 4 y.natAbs

/-- `%Y-%m-%d`, and the text of a `NaiveDate`. -/
def dayChars (d : Day) : List Char :=
  yearChars (Calendar.civil d).1 ++ '-' :: padDigits 2 (Calendar.civil d).2.1 ++
    '-' :: padDigits 2 (Calendar.civil d).2.2

/-- `%H:%M:%S%.9f` -/
def timeChars (t : NaiveTime) : List Char :=
  padDigits 2 (t.secs / 3600) ++ ':' :: padDigits 2 (t.secs / 60 % 60) ++
    ':' :: padDigits 2 (t.secs % 60 + t.frac / 1000000000) ++ '.' :: padDigits 9 (t.frac % 1000000000)

/-- `to_rfc3339_opts(Nanos, true)` in UTC, and `%Y-%m-%dT%H:%M:%S%.9fZ`. -/
def Moment.text (m : Moment) : String := String.ofList (dayChars m.day ++ 'T' :: timeChars m.time ++ ['Z'])

def publicationClock (K : ChronoTimes) (C : Publication.Chrono) (value : String) : Option String :=
  match K.instant value with
  | some m => some m.text
  | none => match K.clock Publication.clockFormat value with
    | some m => some m.text
    | none => (C.date Publication.dateFormat value).map fun d =>
      String.ofList (dayChars d ++ "T00:00:00.000000000Z".toList)

/-- The clock of a date is in the accepted syntax, on the day of the date. -/
def Clocked (K : ChronoTimes) (C : Publication.Chrono) (date : String) : Prop :=
  ∃ t : Timestamp, publicationClock K C date = some t.text ∧ t.Valid ∧
    ∃ d, Publication.day C date = .ok d ∧ (t.year, t.month.value, t.day.value) = Calendar.civil d

/-! ## Reading a timestamp -/

section
variable {low high : Nat} {d : DigitRun low high} {c : Char} {cs rest : List Char} {t : Timestamp}

theorem DigitRun.isDigit (d : DigitRun low high) {c : Char} (hc : c ∈ d.chars) : c.isDigit = true :=
  List.all_eq_true.1 d.digits c hc

theorem DigitRun.ext {d e : DigitRun low high} (h : d.chars = e.chars) : d = e := by
  cases d
  cases e
  cases h
  rfl

/-- A group of digits is read in front of anything else. -/
theorem readDigits_append (d : DigitRun low high) (hc : c.isDigit = false) :
    readDigits low high (d.chars ++ c :: cs) = some (d, c :: cs) := by
  have htake : (d.chars ++ c :: cs).takeWhile Char.isDigit = d.chars := by
    rw [List.takeWhile_append_of_pos fun _ h => d.isDigit h, List.takeWhile_cons_of_neg (by simp [hc]), List.append_nil]
  have hdrop : (d.chars ++ c :: cs).dropWhile Char.isDigit = c :: cs := by
    rw [List.dropWhile_append_of_pos fun _ h => d.isDigit h, List.dropWhile_cons_of_neg (by simp [hc])]
  unfold readDigits
  rw [dif_pos (by rw [htake]; exact ⟨d.low_le, d.le_high⟩)]
  exact congrArg some (Prod.ext (DigitRun.ext htake) hdrop)

theorem readDigits_some (h : readDigits low high cs = some (d, rest)) : cs = d.chars ++ rest := by
  unfold readDigits at h
  split at h
  · cases h
    exact List.takeWhile_append_dropWhile.symm
  · cases h

theorem readChar_cons : readChar c (c :: cs) = some cs := if_pos rfl

theorem readChar_some (h : readChar c cs = some rest) : cs = c :: rest := by
  unfold readChar at h
  split at h
  · rename_i hhead
    cases h
    exact List.eq_cons_of_mem_head? (Option.mem_def.2 hhead)
  · cases h

theorem readSign_append (sign : YearSign) (d : DigitRun 4 6) : readSign (sign.chars ++ (d.chars ++ cs)) =
    (sign, d.chars ++ cs) := by
  obtain ⟨x, xs, hx⟩ : ∃ x xs, d.chars = x :: xs :=
    List.exists_cons_of_ne_nil (List.ne_nil_of_length_pos (Nat.lt_of_lt_of_le (by simp) d.low_le))
  have hdigit : x.isDigit = true := d.isDigit (by rw [hx]; exact List.mem_cons_self)
  have hminus : x ≠ '-' := by
    rintro rfl
    cases hdigit
  have hplus : x ≠ '+' := by
    rintro rfl
    cases hdigit
  unfold readSign
  cases sign <;> simp [YearSign.chars, hx, hminus, hplus]

theorem readSign_eq (cs : List Char) : cs = (readSign cs).1.chars ++ (readSign cs).2 := by
  unfold readSign
  split
  · rename_i h
    exact List.eq_cons_of_mem_head? (Option.mem_def.2 h)
  · split
    · rename_i h
      exact List.eq_cons_of_mem_head? (Option.mem_def.2 h)
    · rfl

theorem readFraction_append (f : Option (DigitRun 1 9)) :
    readFraction (Timestamp.fractionChars f ++ ['Z']) = some (f, ['Z']) := by
  cases f with
  | none => rfl
  | some f =>
    unfold readFraction Timestamp.fractionChars
    rw [List.cons_append, readChar_cons]
    dsimp only
    rw [readDigits_append f (by simp)]
    rfl

theorem readFraction_some {f : Option (DigitRun 1 9)} (h : readFraction cs = some (f, rest)) :
    cs = Timestamp.fractionChars f ++ rest := by
  unfold readFraction at h
  cases hpoint : readChar '.' cs with
  | none =>
    rw [hpoint] at h
    cases h
    rfl
  | some cs' =>
    rw [hpoint] at h
    obtain ⟨run, hrun, heq⟩ := Option.map_eq_some_iff.1 h
    cases heq
    rw [readChar_some hpoint, readDigits_some hrun]
    rfl

/-- The text of a timestamp is read as this timestamp. -/
theorem readTimestamp_chars (t : Timestamp) : readTimestamp t.chars = some t := by
  have hfraction : ∃ c cs, Timestamp.fractionChars t.fraction ++ ['Z'] = c :: cs ∧ c.isDigit = false := by
    cases t.fraction with
    | none => exact ⟨'Z', [], rfl, rfl⟩
    | some f => exact ⟨'.', f.chars ++ ['Z'], rfl, rfl⟩
  obtain ⟨c, cs, hrest, hc⟩ := hfraction
  have hread := readFraction_append t.fraction
  unfold Timestamp.chars readTimestamp
  simp only [List.append_assoc, List.cons_append]
  rw [hrest] at hread ⊢
  rw [readSign_append]
  dsimp only
  rw [readDigits_append _ (by rfl), Option.bind_some, readChar_cons, Option.bind_some, readDigits_append _ (by rfl),
    Option.bind_some, readChar_cons, Option.bind_some, readDigits_append _ (by rfl), Option.bind_some, readChar_cons,
    Option.bind_some, readDigits_append _ (by rfl), Option.bind_some, readChar_cons, Option.bind_some,
    readDigits_append _ (by rfl), Option.bind_some, readChar_cons, Option.bind_some, readDigits_append _ hc,
    Option.bind_some, hread, Option.bind_some, if_pos rfl]

/-- Only texts of timestamps are read. -/
theorem readTimestamp_some (h : readTimestamp cs = some t) : cs = t.chars := by
  unfold readTimestamp at h
  dsimp only at h
  obtain ⟨⟨year, r₁⟩, hyear, h⟩ := Option.bind_eq_some_iff.1 h
  obtain ⟨r₂, hdash, h⟩ := Option.bind_eq_some_iff.1 h
  obtain ⟨⟨month, r₃⟩, hmonth, h⟩ := Option.bind_eq_some_iff.1 h
  obtain ⟨r₄, hdash', h⟩ := Option.bind_eq_some_iff.1 h
  obtain ⟨⟨day, r₅⟩, hday, h⟩ := Option.bind_eq_some_iff.1 h
  obtain ⟨r₆, ht, h⟩ := Option.bind_eq_some_iff.1 h
  obtain ⟨⟨hour, r₇⟩, hhour, h⟩ := Option.bind_eq_some_iff.1 h
  obtain ⟨r₈, hcolon, h⟩ := Option.bind_eq_some_iff.1 h
  obtain ⟨⟨minute, r₉⟩, hminute, h⟩ := Option.bind_eq_some_iff.1 h
  obtain ⟨r₁₀, hcolon', h⟩ := Option.bind_eq_some_iff.1 h
  obtain ⟨⟨second, r₁₁⟩, hsecond, h⟩ := Option.bind_eq_some_iff.1 h
  obtain ⟨⟨fraction, r₁₂⟩, hfraction, h⟩ := Option.bind_eq_some_iff.1 h
  split at h
  · rename_i hend
    cases h
    obtain rfl := readChar_some hdash
    obtain rfl := readDigits_some hmonth
    obtain rfl := readChar_some hdash'
    obtain rfl := readDigits_some hday
    obtain rfl := readChar_some ht
    obtain rfl := readDigits_some hhour
    obtain rfl := readChar_some hcolon
    obtain rfl := readDigits_some hminute
    obtain rfl := readChar_some hcolon'
    obtain rfl := readDigits_some hsecond
    obtain rfl := readFraction_some hfraction
    obtain rfl : r₁₂ = ['Z'] := hend
    refine (readSign_eq cs).trans ?_
    rw [readDigits_some hyear]
    unfold Timestamp.chars
    simp only [List.append_assoc, List.cons_append]
  · cases h

end

/-! ## The key -/

section
variable {low high : Nat} {t t₁ t₂ : Timestamp}

theorem digit_lt_ten {c : Char} (h : c.isDigit = true) : c.toNat - '0'.toNat < 10 := by
  rw [Char.isDigit_iff_toNat] at h
  have hzero : '0'.toNat = 48 := rfl
  have hnine : '9'.toNat = 57 := rfl
  omega

theorem ofDigitChars_lt {cs : List Char} (h : cs.all Char.isDigit = true) (init : Nat) :
    Nat.ofDigitChars 10 cs init < (init + 1) * 10 ^ cs.length := by
  induction cs generalizing init with
  | nil => simp
  | cons c cs ih =>
    rw [List.all_cons, Bool.and_eq_true] at h
    have hc := digit_lt_ten h.1
    rw [Nat.ofDigitChars_cons, List.length_cons, Nat.pow_succ']
    refine (ih h.2 _).trans_le ?_
    rw [← Nat.mul_assoc]
    exact Nat.mul_le_mul_right _ (by omega)

theorem DigitRun.value_lt (d : DigitRun low high) : d.value < 10 ^ d.chars.length := by
  have hlt := ofDigitChars_lt d.digits 0
  rwa [Nat.zero_add, Nat.one_mul] at hlt

/-- A group of two digits is below a hundred. -/
theorem DigitRun.two_digits (d : DigitRun 2 2) : d.value < 100 := by
  have hlen : d.chars.length = 2 := Nat.le_antisymm d.le_high d.low_le
  have hlt := d.value_lt
  rwa [hlen] at hlt

theorem rpadNanos_eq (f : DigitRun 1 9) : rpadNanos f = f.value * 10 ^ (9 - f.chars.length) := by
  unfold rpadNanos
  rw [Nat.ofDigitChars_append, Nat.ofDigitChars_replicate_zero, Nat.mul_comm]
  rfl

theorem Timestamp.nanoseconds_lt (t : Timestamp) : t.nanoseconds < 1000000000 := by
  unfold Timestamp.nanoseconds
  cases t.fraction with
  | none => simp
  | some f =>
    have hlt := f.value_lt
    have hsplit : 10 ^ f.chars.length * 10 ^ (9 - f.chars.length) = 1000000000 := by
      rw [← Nat.pow_add, Nat.add_sub_cancel' f.le_high]
    calc f.value * 10 ^ (9 - f.chars.length) < 10 ^ f.chars.length * 10 ^ (9 - f.chars.length) :=
          Nat.mul_lt_mul_of_pos_right hlt (Nat.pow_pos (by simp))
      _ = 1000000000 := hsplit

/-- The digits of the key after the year. -/
def Timestamp.radixDigits (t : Timestamp) : List (Int × Int) :=
  [(100, t.month.value), (100, t.day.value), (100, t.hour.value), (100, t.minute.value), (100, t.second.value),
    (1000000000, t.nanoseconds)]

theorem Timestamp.radixDigits_ok (t : Timestamp) : Digits t.radixDigits := by
  have hnanos := t.nanoseconds_lt
  have hmonth := t.month.two_digits
  have hday := t.day.two_digits
  have hhour := t.hour.two_digits
  have hminute := t.minute.two_digits
  have hsecond := t.second.two_digits
  unfold Digits Timestamp.radixDigits
  simp only [List.forall_mem_cons, List.not_mem_nil, false_implies, implies_true, and_true]
  omega

theorem readerArrivalOrder_text (t : Timestamp) :
    readerArrivalOrder t.text = some (mixedRadix t.year t.radixDigits) := by
  have hnanos : fractionNanos t.fraction = t.nanoseconds := by
    unfold Timestamp.nanoseconds
    cases t.fraction with
    | none => rfl
    | some f => exact rpadNanos_eq f
  unfold readerArrivalOrder Timestamp.text
  rw [String.toList_ofList, readTimestamp_chars, Option.map_some, hnanos]
  rfl

/-- The key compares as the fields do. -/
theorem key_lt_iff : mixedRadix t₁.year t₁.radixDigits < mixedRadix t₂.year t₂.radixDigits ↔ t₁.fields < t₂.fields :=
  mixedRadix_lt_iff t₁.radixDigits_ok t₂.radixDigits_ok rfl _ _

theorem key_eq_iff : mixedRadix t₁.year t₁.radixDigits = mixedRadix t₂.year t₂.radixDigits ↔ t₁.fields = t₂.fields :=
  mixedRadix_eq_iff t₁.radixDigits_ok t₂.radixDigits_ok rfl _ _

/-- The function accepts the texts of timestamps and no others. -/
theorem readerArrivalOrder_isSome_iff {value : String} :
    (readerArrivalOrder value).isSome = true ↔ ∃ t : Timestamp, value = t.text := by
  constructor
  · intro h
    obtain ⟨k, hk⟩ := Option.isSome_iff_exists.1 h
    obtain ⟨t, ht, -⟩ := Option.map_eq_some_iff.1 hk
    exact ⟨t, String.toList_inj.1 ((readTimestamp_some ht).trans (String.toList_ofList).symm)⟩
  · rintro ⟨t, rfl⟩
    rw [readerArrivalOrder_text]
    rfl

end

/-! ## The clock -/

section
variable {K : ChronoTimes} {C : Publication.Chrono} {date : String}

theorem le_length_padDigits (width n : Nat) : width ≤ (padDigits width n).length := by
  unfold padDigits
  rw [List.length_append, List.length_replicate]
  omega

theorem length_padDigits_le {width high n : Nat} (hwidth : width ≤ high) (hhigh : 0 < high) (hn : n < 10 ^ high) :
    (padDigits width n).length ≤ high := by
  have hle : (Nat.toDigits 10 n).length ≤ high := (Nat.length_toDigits_le_iff (by omega) hhigh).2 hn
  unfold padDigits
  rw [List.length_append, List.length_replicate]
  omega

/-- A number with zeros in front. -/
def padRun (low high width n : Nat) (hlow : low ≤ width) (hhigh : (padDigits width n).length ≤ high) :
    DigitRun low high :=
  ⟨padDigits width n, Decimal.isDigit_padDigits, hlow.trans (le_length_padDigits width n), hhigh⟩

theorem padRun_value {low high width n : Nat} {hlow : low ≤ width} {hhigh : (padDigits width n).length ≤ high} :
    (padRun low high width n hlow hhigh).value = n := by
  unfold padRun DigitRun.value
  dsimp only
  rw [Decimal.ofDigitChars_padDigits, Nat.mul_zero, Nat.zero_add]

/-- A number below a hundred. -/
def twoDigits (n : Nat) (hn : n < 100) : DigitRun 2 2 :=
  padRun 2 2 2 n (le_refl 2) (length_padDigits_le (le_refl 2) Nat.two_pos hn)

theorem twoDigits_value {n : Nat} (hn : n < 100) : (twoDigits n hn).value = n := padRun_value

def yearSign (y : Int) : YearSign := if 0 ≤ y ∧ y ≤ 9999 then .none else if y < 0 then .minus else .plus

theorem natAbs_year_lt {y : Int} (hy : -262143 ≤ y ∧ y ≤ 262142) : y.natAbs < 10 ^ 6 := by omega

/-- A year of at most six digits. -/
def yearRun (y : Int) (hy : -262143 ≤ y ∧ y ≤ 262142) : DigitRun 4 6 :=
  padRun 4 6 4 y.natAbs (le_refl 4) (length_padDigits_le (Nat.le_add_left 4 2) (Nat.succ_pos 5) (natAbs_year_lt hy))

theorem NaiveTime.bounds (t : NaiveTime) : t.secs / 3600 < 24 ∧ t.secs / 60 % 60 < 60 ∧
    t.secs % 60 + t.frac / 1000000000 ≤ 60 := by
  obtain ⟨secs, frac, hsecs, hfrac, hleap⟩ := t
  dsimp only
  by_cases hsecond : 1000000000 ≤ frac
  · have hlast := hleap hsecond
    omega
  · omega

theorem NaiveTime.lt_hundred (t : NaiveTime) : t.secs / 3600 < 100 ∧ t.secs / 60 % 60 < 100 ∧
    t.secs % 60 + t.frac / 1000000000 < 100 := by
  have hbounds := t.bounds
  omega

theorem civil_lt_hundred (d : Day) : (Calendar.civil d).2.1 < 100 ∧ (Calendar.civil d).2.2 < 100 := by
  have hbounds := Calendar.civil_bounds d
  omega

/-- The timestamp of a moment. -/
def momentTimestamp (d : Day) (hd : NaiveDateRange d) (t : NaiveTime) : Timestamp where
  sign := yearSign (Calendar.civil d).1
  yearDigits := yearRun (Calendar.civil d).1 hd
  month := twoDigits (Calendar.civil d).2.1 (civil_lt_hundred d).1
  day := twoDigits (Calendar.civil d).2.2 (civil_lt_hundred d).2
  hour := twoDigits (t.secs / 3600) t.lt_hundred.1
  minute := twoDigits (t.secs / 60 % 60) t.lt_hundred.2.1
  second := twoDigits (t.secs % 60 + t.frac / 1000000000) t.lt_hundred.2.2
  fraction := some (padRun 1 9 9 (t.frac % 1000000000) (Nat.le_add_left 1 8)
    (length_padDigits_le (le_refl 9) (Nat.succ_pos 8) (Nat.mod_lt _ (Nat.succ_pos _))))

theorem yearChars_eq {y : Int} (hy : -262143 ≤ y ∧ y ≤ 262142) :
    yearChars y = (yearSign y).chars ++ (yearRun y hy).chars := by
  unfold yearChars yearSign yearRun padRun
  split_ifs with hshort hneg
  · have habs : y.toNat = y.natAbs := by omega
    rw [habs]
    rfl
  · rfl
  · rfl

theorem yearSign_minus_iff {y : Int} : yearSign y = .minus ↔ y < 0 := by
  unfold yearSign
  split_ifs with hshort hneg
  · exact iff_of_false (by simp) (by omega)
  · exact iff_of_true rfl hneg
  · exact iff_of_false (by simp) hneg

theorem momentTimestamp_chars {d : Day} (hd : NaiveDateRange d) (t : NaiveTime) :
    (momentTimestamp d hd t).chars = dayChars d ++ 'T' :: timeChars t ++ ['Z'] := by
  unfold dayChars timeChars
  rw [yearChars_eq hd]
  unfold Timestamp.chars momentTimestamp Timestamp.fractionChars twoDigits padRun
  simp only [List.append_assoc, List.cons_append]

theorem momentTimestamp_year {d : Day} (hd : NaiveDateRange d) (t : NaiveTime) :
    (momentTimestamp d hd t).year = (Calendar.civil d).1 := by
  have hvalue : (yearRun (Calendar.civil d).1 hd).value = (Calendar.civil d).1.natAbs := padRun_value
  show (if yearSign (Calendar.civil d).1 = .minus then -((yearRun (Calendar.civil d).1 hd).value : Int)
    else (yearRun (Calendar.civil d).1 hd).value) = _
  rw [hvalue]
  by_cases hneg : (Calendar.civil d).1 < 0
  · rw [if_pos (yearSign_minus_iff.2 hneg)]
    omega
  · rw [if_neg fun hminus => hneg (yearSign_minus_iff.1 hminus)]
    omega

theorem momentTimestamp_valid {d : Day} (hd : NaiveDateRange d) (t : NaiveTime) : (momentTimestamp d hd t).Valid := by
  obtain ⟨hmonth, hday⟩ := Calendar.civil_bounds d
  obtain ⟨hhour, hminute, hsecond⟩ := t.bounds
  unfold momentTimestamp twoDigits
  refine ⟨?_, ?_, ?_, ?_, ?_⟩
  · rwa [padRun_value]
  · rwa [padRun_value]
  · rwa [padRun_value]
  · rwa [padRun_value]
  · rwa [padRun_value]

/-- The day of the text is the day of the moment. -/
theorem momentTimestamp_day {d : Day} (hd : NaiveDateRange d) (t : NaiveTime) :
    ((momentTimestamp d hd t).year, (momentTimestamp d hd t).month.value, (momentTimestamp d hd t).day.value) =
      Calendar.civil d := by
  rw [momentTimestamp_year]
  obtain ⟨hmonth, hday⟩ := civil_lt_hundred d
  exact Prod.ext rfl (Prod.ext (twoDigits_value hmonth) (twoDigits_value hday))

theorem Moment.text_eq {m : Moment} (hd : NaiveDateRange m.day) : m.text = (momentTimestamp m.day hd m.time).text := by
  unfold Moment.text Timestamp.text
  rw [momentTimestamp_chars]

def midnight : NaiveTime := ⟨0, 0, Nat.succ_pos _, Nat.succ_pos _, fun h => absurd h (Nat.not_succ_le_zero _)⟩

theorem day_text_eq {d : Day} (hd : NaiveDateRange d) : String.ofList (dayChars d ++ "T00:00:00.000000000Z".toList) =
    (momentTimestamp d hd midnight).text := by
  have hmidnight : 'T' :: timeChars midnight ++ ['Z'] = "T00:00:00.000000000Z".toList := by decide
  unfold Timestamp.text
  rw [momentTimestamp_chars, List.append_assoc, hmidnight]

/-- A date in one of the formats has a clock on its day; a date in none has no clock and no day. -/
theorem clocked_iff (hK : K.Agrees C) : Clocked K C date ↔ Publication.accepts C date = true := by
  rw [Publication.accepts_iff_day]
  constructor
  · rintro ⟨t, -, -, d, hd, -⟩
    exact ⟨d, hd⟩
  · rintro ⟨d, hd⟩
    have hclock : ∀ {d' : Day} (hrange : NaiveDateRange d') (time : NaiveTime), d' = d →
        publicationClock K C date = some (momentTimestamp d' hrange time).text → Clocked K C date := by
      rintro d' hrange time rfl hsome
      exact ⟨_, hsome, momentTimestamp_valid hrange time, d', hd, momentTimestamp_day hrange time⟩
    unfold Publication.day at hd
    have hinstant := hK.instant date
    have hclocks := hK.clock Publication.clockFormat date
    cases hm : K.instant date with
    | some m =>
      rw [hm] at hinstant
      obtain ⟨v, hv, hday⟩ := Option.map_eq_some_iff.1 hinstant.symm
      rw [hv] at hd
      cases hd
      refine hclock (hK.instant_range date m hm) m.time hday.symm ?_
      unfold publicationClock
      rw [hm, ← Moment.text_eq]
    | none =>
      rw [hm] at hinstant
      have hnone : C.rfc3339 date = none := Option.map_eq_none_iff.1 hinstant.symm
      rw [hnone] at hd
      cases hc : K.clock Publication.clockFormat date with
      | some m =>
        rw [hc] at hclocks
        obtain ⟨v, hv, hday⟩ := Option.map_eq_some_iff.1 hclocks.symm
        rw [hv] at hd
        cases hd
        refine hclock (hK.clock_range _ date m hc) m.time hday.symm ?_
        unfold publicationClock
        rw [hm]
        dsimp only
        rw [hc, ← Moment.text_eq]
      | none =>
        rw [hc] at hclocks
        have hnone' : C.dateTime Publication.clockFormat date = none := Option.map_eq_none_iff.1 hclocks.symm
        rw [hnone'] at hd
        cases hdate : C.date Publication.dateFormat date with
        | none =>
          rw [hdate] at hd
          cases hd
        | some v =>
          rw [hdate] at hd
          cases hd
          refine hclock (hK.date_range _ date _ hdate) midnight rfl ?_
          unfold publicationClock
          rw [hm]
          dsimp only
          rw [hc]
          dsimp only
          rw [hdate, Option.map_some, day_text_eq]

/-- The key orders timestamps as their fields, exactly on the accepted syntax; and a publication date has a clock in this
syntax, on its own day, just if its text is in one of the formats that it is validated against. -/
theorem arrival_order_faithful (hK : K.Agrees C) :
    (∀ t₁ t₂ : Timestamp, ∃ k₁ k₂, readerArrivalOrder t₁.text = some k₁ ∧ readerArrivalOrder t₂.text = some k₂ ∧
      (k₁ < k₂ ↔ t₁.fields < t₂.fields) ∧ (k₁ = k₂ ↔ t₁.fields = t₂.fields)) ∧
    (∀ value, (readerArrivalOrder value).isSome = true ↔ ∃ t : Timestamp, value = t.text) ∧
    ∀ date, Clocked K C date ↔ Publication.accepts C date = true :=
  ⟨fun t₁ t₂ => ⟨_, _, readerArrivalOrder_text t₁, readerArrivalOrder_text t₂, key_lt_iff, key_eq_iff⟩,
    fun _ => readerArrivalOrder_isSome_iff, fun _ => clocked_iff hK⟩

end

/-! ## A date of a long year has no clock -/

namespace Sample

/-- `chrono` on a date of a long year and on a noon. -/
def arrivalChrono : Publication.Chrono :=
  { Publication.Sample.chrono with
    date := fun _ text => if text = "+12024-01-01" then some Publication.Sample.longDay else none }

def noonTime : NaiveTime := ⟨43200, 0, by simp, by simp, by simp⟩

def chronoTimes : ChronoTimes where
  instant := fun text => if text = Publication.Sample.noonDate.raw then some ⟨20454, noonTime⟩ else none
  clock := fun _ text => if text = "2026-01-01T12:00:00" then some ⟨20454, noonTime⟩ else none

theorem chronoTimes_agrees : chronoTimes.Agrees arrivalChrono := by
  have hnoon : NaiveDateRange 20454 := by
    unfold NaiveDateRange
    decide
  have hlong : NaiveDateRange Publication.Sample.longDay := by
    unfold NaiveDateRange
    decide
  refine ⟨fun text => ?_, fun format text => ?_, fun text m h => ?_, fun format text m h => ?_, fun format text d h => ?_⟩
  · unfold chronoTimes arrivalChrono Publication.Sample.chrono
    dsimp only
    split <;> rfl
  · unfold chronoTimes arrivalChrono Publication.Sample.chrono
    dsimp only
    split <;> rfl
  · unfold chronoTimes at h
    dsimp only at h
    split at h
    · cases h
      exact hnoon
    · cases h
  · unfold chronoTimes at h
    dsimp only at h
    split at h
    · cases h
      exact hnoon
    · cases h
  · unfold arrivalChrono at h
    dsimp only at h
    split at h
    · cases h
      exact hlong
    · cases h

end Sample

theorem arrival_order_noon : Publication.accepts Sample.arrivalChrono Publication.Sample.noonDate.raw = true ∧
    Clocked Sample.chronoTimes Sample.arrivalChrono Publication.Sample.noonDate.raw := by
  have haccepts : Publication.accepts Sample.arrivalChrono Publication.Sample.noonDate.raw = true := by decide
  exact ⟨haccepts, ((arrival_order_faithful Sample.chronoTimes_agrees).2.2 _).2 haccepts⟩

/-- The publication date read from an RFC 2822 text of a long year. -/
theorem longDate_not_clocked :
    Publication.parse Sample.arrivalChrono Publication.Sample.longDate.raw = some "+12024-01-01T00:00:00+00:00" ∧
    publicationClock Sample.chronoTimes Sample.arrivalChrono "+12024-01-01T00:00:00+00:00" = none ∧
    ¬ Clocked Sample.chronoTimes Sample.arrivalChrono "+12024-01-01T00:00:00+00:00" := by
  have hnone : publicationClock Sample.chronoTimes Sample.arrivalChrono "+12024-01-01T00:00:00+00:00" = none := by
    decide
  refine ⟨by decide +kernel, hnone, ?_⟩
  rintro ⟨t, ht, -⟩
  rw [hnone] at ht
  cases ht

end Inoreader
