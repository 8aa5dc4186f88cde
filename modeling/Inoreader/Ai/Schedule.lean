import Inoreader.Ai.Db

/-!
# The automatic schedule (`schema/automatic_schedule.sql`)

Automatic work is permitted outside the peak hours of working days, as long as the calendar of holidays is valid. The
database answers with the first instant that is permitted.
-/

namespace Inoreader
namespace AutomaticSchedule

/-- The peak hours of a working day in Shanghai. -/
def Peak (policy : AutomaticSchedule) (instant : DateTime) : Prop :=
  isWeekend (shanghaiDate instant) = false ∧ shanghaiDate instant ∉ policy.holidays ∧
    ((9 * hour ≤ shanghaiTime instant ∧ shanghaiTime instant < 12 * hour) ∨
      (14 * hour ≤ shanghaiTime instant ∧ shanghaiTime instant < 18 * hour))

/-- Without a pause everything is permitted; with one, nothing after the end of the calendar. -/
def Permitted (policy : AutomaticSchedule) (instant : DateTime) : Prop :=
  policy.pausePeakHours = false ∨
    shanghaiDate instant ≤ policy.calendarValidThrough ∧ ¬ policy.Peak instant

/-- The answer for an instant that is not permitted. -/
structure Resumes (policy : AutomaticSchedule) (instant r : DateTime) : Prop where
  later : instant < r
  closed : ∀ t, instant ≤ t → t < r → ¬ policy.Permitted t
  opens : (∃ t, instant < t ∧ policy.Permitted t) → policy.Permitted r

/-! ## Days -/

theorem dayLength_eq : dayLength = 86400000000000 := rfl

/-- A local day with a time, and back. -/
theorem local_parts (t o : Int) : (t + o) / 86400000000000 * 86400000000000 + (t + o) % 86400000000000 - o = t ∧
    0 ≤ (t + o) % 86400000000000 ∧ (t + o) % 86400000000000 < 86400000000000 := by
  omega

theorem local_instant {d time o : Int} (hlow : 0 ≤ time) (hhigh : time < 86400000000000) :
    (d * 86400000000000 + time - o + o) / 86400000000000 = d ∧
      (d * 86400000000000 + time - o + o) % 86400000000000 = time := by
  omega

/-- Instants before a time of the same day are of this day and have a later time. -/
theorem local_between {s t time o : Int} (htime : time ≤ 86400000000000) (hst : s ≤ t)
    (ht : t < (s + o) / 86400000000000 * 86400000000000 + time - o) :
    (t + o) / 86400000000000 = (s + o) / 86400000000000 ∧ (s + o) % 86400000000000 ≤ (t + o) % 86400000000000 ∧
      (t + o) % 86400000000000 < time := by
  omega

theorem local_next_day (t o : Int) : t < ((t + o) / 86400000000000 + 1) * 86400000000000 + 0 - o := by omega

theorem lt_of_time {day time high o t : Int} (heq : day + time - o = t) (hlt : time < high) : t < day + high - o := by
  omega

theorem shanghaiDate_instant {d : Day} {time : Int} (hlow : 0 ≤ time) (hhigh : time < dayLength) :
    shanghaiDate (shanghaiInstant d time) = d ∧ shanghaiTime (shanghaiInstant d time) = time := by
  rw [dayLength_eq] at hhigh
  unfold shanghaiInstant shanghaiDate shanghaiTime
  rw [dayLength_eq]
  exact local_instant hlow hhigh

theorem between_instants {s t : DateTime} {time : Int} (htime : time ≤ dayLength) (hst : s ≤ t)
    (ht : t < shanghaiInstant (shanghaiDate s) time) :
    shanghaiDate t = shanghaiDate s ∧ shanghaiTime s ≤ shanghaiTime t ∧ shanghaiTime t < time := by
  unfold shanghaiInstant shanghaiDate at ht
  rw [dayLength_eq] at htime ht
  unfold shanghaiDate shanghaiTime
  rw [dayLength_eq]
  exact local_between htime hst ht

theorem lt_shanghaiInstant {t : DateTime} {time : Int} (h : shanghaiTime t < time) :
    t < shanghaiInstant (shanghaiDate t) time := by
  unfold shanghaiTime at h
  unfold shanghaiInstant shanghaiDate
  rw [dayLength_eq] at h ⊢
  exact lt_of_time (local_parts t (8 * hour)).1 h

theorem lt_next_day (t : DateTime) : t < shanghaiInstant (shanghaiDate t + 1) 0 := by
  unfold shanghaiInstant shanghaiDate
  rw [dayLength_eq]
  exact local_next_day t (8 * hour)

theorem lt_moscowMidnight (t : DateTime) : t < moscowMidnight (moscowDate t + 1) := by
  have hnext := local_next_day t (3 * hour)
  rw [Int.add_zero] at hnext
  exact hnext

theorem shanghaiDate_mono {s t : DateTime} (h : s ≤ t) : shanghaiDate s ≤ shanghaiDate t :=
  Int.ediv_le_ediv (by decide) (Int.add_le_add_right h _)

/-! ## The first permitted instant -/

section
variable {policy : AutomaticSchedule} {instant r : DateTime}

theorem not_permitted_iff : ¬ policy.Permitted instant ↔
    policy.pausePeakHours = true ∧
      (policy.calendarValidThrough < shanghaiDate instant ∨ policy.Peak instant) := by
  unfold Permitted
  rw [not_or, Bool.not_eq_false, not_and_or, not_not, Int.not_le]

/-- The end of a peak window is the first instant after it. -/
theorem resumes_window {low high : Int} (hpause : policy.pausePeakHours = true)
    (hvalid : shanghaiDate instant ≤ policy.calendarValidThrough)
    (hwindow : ∀ t, shanghaiDate t = shanghaiDate instant → low ≤ shanghaiTime t → shanghaiTime t < high → policy.Peak t)
    (hlow : low ≤ shanghaiTime instant) (hhigh : shanghaiTime instant < high) (hnonneg : 0 ≤ low)
    (hday : high < dayLength)
    (hend : ¬ ((9 * hour ≤ high ∧ high < 12 * hour) ∨ (14 * hour ≤ high ∧ high < 18 * hour))) :
    policy.Resumes instant (shanghaiInstant (shanghaiDate instant) high) := by
  have hpositive : 0 ≤ high := (hnonneg.trans hlow).trans hhigh.le
  obtain ⟨hsame, htime⟩ := shanghaiDate_instant (d := shanghaiDate instant) hpositive hday
  refine ⟨lt_shanghaiInstant hhigh, fun t hge hlt => ?_, fun _ => .inr ⟨?_, ?_⟩⟩
  · obtain ⟨hdate, hfrom, hto⟩ := between_instants hday.le hge hlt
    exact not_permitted_iff.2 ⟨hpause, .inr (hwindow t hdate (hlow.trans hfrom) hto)⟩
  · rw [hsame]
    exact hvalid
  · rintro ⟨-, -, hpeak⟩
    rw [htime] at hpeak
    exact hend hpeak

/-- After the end of the calendar nothing is permitted any more; the answer is the next day. -/
theorem resumes_expired (hpause : policy.pausePeakHours = true)
    (hexpired : policy.calendarValidThrough < shanghaiDate instant) :
    policy.Resumes instant (shanghaiInstant (shanghaiDate instant + 1) 0) := by
  have hclosed : ∀ t, instant ≤ t → ¬ policy.Permitted t := fun t ht =>
    not_permitted_iff.2 ⟨hpause, .inl (hexpired.trans_le (shanghaiDate_mono ht))⟩
  refine ⟨lt_next_day instant, fun t hge _ => hclosed t hge, ?_⟩
  rintro ⟨t, hlt, hpermitted⟩
  exact absurd hpermitted (hclosed t hlt.le)

/-- What the function answers, case by case. -/
theorem resumeAt_spec (policy : AutomaticSchedule) (instant : DateTime) :
    (policy.Permitted instant ∧ policy.resumeAt instant = none) ∨
      ∃ r, policy.Resumes instant r ∧ policy.resumeAt instant = some r := by
  unfold resumeAt
  dsimp only
  cases hpause : policy.pausePeakHours with
  | false => exact .inl ⟨.inl hpause, rfl⟩
  | true =>
    rw [if_neg (by simp)]
    split_ifs with hexpired hfree hmorning hafternoon
    · exact .inr ⟨_, resumes_expired hpause hexpired, rfl⟩
    · refine .inl ⟨.inr ⟨Int.not_lt.1 hexpired, ?_⟩, rfl⟩
      rintro ⟨hweekday, hwork, -⟩
      simp [hweekday, hwork] at hfree
    · simp only [Bool.or_eq_true, decide_eq_true_eq, not_or, Bool.not_eq_true] at hfree
      refine .inr ⟨_, resumes_window hpause (Int.not_lt.1 hexpired) (fun t hdate hlow hhigh => ?_) hmorning.1 hmorning.2
        (by decide) (by decide) (by decide), rfl⟩
      unfold Peak
      rw [hdate]
      exact ⟨hfree.1, hfree.2, .inl ⟨hlow, hhigh⟩⟩
    · simp only [Bool.or_eq_true, decide_eq_true_eq, not_or, Bool.not_eq_true] at hfree
      refine .inr ⟨_, resumes_window hpause (Int.not_lt.1 hexpired) (fun t hdate hlow hhigh => ?_) hafternoon.1
        hafternoon.2 (by decide) (by decide) (by decide), rfl⟩
      unfold Peak
      rw [hdate]
      exact ⟨hfree.1, hfree.2, .inr ⟨hlow, hhigh⟩⟩
    · refine .inl ⟨.inr ⟨Int.not_lt.1 hexpired, ?_⟩, rfl⟩
      rintro ⟨-, -, hpeak⟩
      exact hpeak.elim hmorning hafternoon

/-- The answer is null just when the instant is permitted, and otherwise the first permitted instant; a deferral never
goes back. -/
theorem automatic_schedule (policy : AutomaticSchedule) (instant : DateTime) :
    (policy.resumeAt instant = none ↔ policy.Permitted instant) ∧
      (∀ r, policy.resumeAt instant = some r → policy.Resumes instant r) ∧
      ∀ reason, instant ≤ policy.deferredUntil reason instant := by
  have hmoscow : instant ≤ moscowMidnight (moscowDate instant + 1) := (lt_moscowMidnight instant).le
  rcases resumeAt_spec policy instant with ⟨hpermitted, hnone⟩ | ⟨r, hresumes, hsome⟩
  · refine ⟨iff_of_true hnone hpermitted, fun r hr => ?_, fun reason => ?_⟩
    · rw [hnone] at hr
      cases hr
    · cases reason with
      | peakHours =>
        unfold deferredUntil
        rw [hnone]
        exact le_refl instant
      | dailyBudget => exact hmoscow
  · refine ⟨iff_of_false ?_ (hresumes.closed instant (le_refl _) hresumes.later), fun r' hr => ?_, fun reason => ?_⟩
    · rw [hsome]
      exact Option.some_ne_none r
    · rw [hsome] at hr
      cases hr
      exact hresumes
    · cases reason with
      | peakHours =>
        unfold deferredUntil
        rw [hsome]
        exact hresumes.later.le
      | dailyBudget => exact hmoscow

end

end AutomaticSchedule
end Inoreader
