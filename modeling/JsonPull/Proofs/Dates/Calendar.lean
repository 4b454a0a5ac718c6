import Mathlib.Order.Monotone.Basic
import Mathlib.Tactic.SplitIfs
import JsonPull.Calendar

/-! # Every local time has an instant of its own

Years follow each other without a gap, and so do the months of a year. A count of days therefore
belongs to one date, and an instant to one local time. -/

namespace JsonPull.Calendar

/-- Consecutive spans have no place in common. -/
theorem span_unique (start length : Nat → Nat) (hnext : ∀ n, start (n + 1) = start n + length n)
    {m n i j : Nat} (hi : i < length m) (hj : j < length n) (h : start m + i = start n + j) :
    m = n ∧ i = j := by
  have hmono : Monotone start := monotone_nat_of_le_succ fun n => by simp [hnext]
  rcases Nat.lt_trichotomy m n with hlt | rfl | hlt
  · have hle := hmono (Nat.succ_le_of_lt hlt)
    simp only [Nat.succ_eq_add_one, hnext] at hle
    omega
  · simpa using h
  · have hle := hmono (Nat.succ_le_of_lt hlt)
    simp only [Nat.succ_eq_add_one, hnext] at hle
    omega

/-! ## Years and months -/

/-- The days of a year. -/
def daysInYear (year : Nat) : Nat :=
  if isLeapYear year then 366 else 365

theorem daysBeforeYear_succ (year : Nat) :
    daysBeforeYear (year + 1) = daysBeforeYear year + daysInYear year := by
  have h₄ := multiples_succ 4 year (by decide)
  have h₁₀₀ := multiples_succ 100 year (by decide)
  have h₄₀₀ := multiples_succ 400 year (by decide)
  simp only [Nat.reduceSub] at h₄ h₁₀₀ h₄₀₀
  have hleap : daysInYear year =
      if year % 4 = 0 ∧ (year % 100 ≠ 0 ∨ year % 400 = 0) then 366 else 365 := by
    simp [daysInYear, isLeapYear]
  unfold daysBeforeYear
  rw [h₄, h₁₀₀, h₄₀₀, hleap]
  split_ifs <;> omega

theorem daysBeforeMonth_succ (year month : Nat) :
    daysBeforeMonth year (month + 1 + 1) =
      daysBeforeMonth year (month + 1) + daysInMonth year (month + 1) := rfl

theorem daysBeforeMonth_mono (year : Nat) : Monotone fun month => daysBeforeMonth year (month + 1) :=
  monotone_nat_of_le_succ fun month => by simp [daysBeforeMonth_succ]

/-- A year is as long as its twelve months. -/
theorem daysBeforeMonth_end (year : Nat) : daysBeforeMonth year 13 = daysInYear year := by
  by_cases h : isLeapYear year = true <;> simp [daysBeforeMonth, daysInMonth, daysInYear, h]

/-! ## Dates -/

variable {t t' : Local}

/-- The days from the start of year 0 to a date. -/
def Local.dayNumber (t : Local) : Nat :=
  daysBeforeYear t.year + daysBeforeMonth t.year t.month + (t.day - 1)

/-- The seconds of a day before a time of day. -/
def Local.secondOfDay (t : Local) : Nat :=
  t.hour * 3600 + t.minute * 60 + t.second

theorem Local.seconds_instant (t : Local) : t.instant.seconds =
    ((t.dayNumber : Int) - daysBeforeEpoch) * 86400 + t.secondOfDay := rfl

theorem Local.isValid_iff : t.isValid = true ↔
    (1 ≤ t.month ∧ t.month ≤ 12) ∧ (1 ≤ t.day ∧ t.day ≤ daysInMonth t.year t.month) ∧
      (t.hour ≤ 23 ∧ t.minute ≤ 59 ∧ t.second ≤ 59) ∧ t.nanos < 1000000000 := by
  simp [Local.isValid, and_assoc]

theorem Local.secondOfDay_lt (h : t.isValid = true) : t.secondOfDay < 86400 := by
  obtain ⟨-, -, ⟨hhour, hminute, hsecond⟩, -⟩ := Local.isValid_iff.mp h
  unfold Local.secondOfDay
  omega

/-- A date lies within its year. -/
theorem Local.dayOfYear_lt (h : t.isValid = true) :
    daysBeforeMonth t.year t.month + (t.day - 1) < daysInYear t.year := by
  obtain ⟨⟨hfirst, hlast⟩, ⟨hday, hdays⟩, -⟩ := Local.isValid_iff.mp h
  have hmonth : t.month - 1 + 1 = t.month := by omega
  have hnext := daysBeforeMonth_succ t.year (t.month - 1)
  have hle : daysBeforeMonth t.year (t.month - 1 + 1 + 1) ≤ daysBeforeMonth t.year 13 :=
    daysBeforeMonth_mono t.year (show t.month - 1 + 1 ≤ 12 by omega)
  rw [daysBeforeMonth_end, hnext, hmonth] at hle
  omega

/-- A count of days has one date. -/
theorem Local.date_unique (h : t.isValid = true) (h' : t'.isValid = true)
    (hdays : t.dayNumber = t'.dayNumber) :
    t.year = t'.year ∧ t.month = t'.month ∧ t.day = t'.day := by
  unfold Local.dayNumber at hdays
  obtain ⟨hyear, hrest⟩ := span_unique daysBeforeYear daysInYear daysBeforeYear_succ
    (Local.dayOfYear_lt h) (Local.dayOfYear_lt h') (by simpa only [Nat.add_assoc] using hdays)
  obtain ⟨⟨hmonth, -⟩, ⟨hday, hlast⟩, -⟩ := Local.isValid_iff.mp h
  obtain ⟨⟨hmonth', -⟩, ⟨hday', hlast'⟩, -⟩ := Local.isValid_iff.mp h'
  obtain ⟨m, hm⟩ : ∃ m, t.month = m + 1 := ⟨t.month - 1, by omega⟩
  obtain ⟨m', hm'⟩ : ∃ m', t'.month = m' + 1 := ⟨t'.month - 1, by omega⟩
  rw [hm] at hlast hrest
  rw [← hyear, hm'] at hlast' hrest
  obtain ⟨rfl, hdays⟩ := span_unique (fun m => daysBeforeMonth t.year (m + 1))
    (fun m => daysInMonth t.year (m + 1)) (daysBeforeMonth_succ t.year)
    (i := t.day - 1) (j := t'.day - 1) (by omega) (by omega) hrest
  exact ⟨hyear, hm.trans hm'.symm, by omega⟩

/-- A count of seconds has one time of day. -/
theorem Local.time_unique (h : t.isValid = true) (h' : t'.isValid = true)
    (hseconds : t.secondOfDay = t'.secondOfDay) :
    t.hour = t'.hour ∧ t.minute = t'.minute ∧ t.second = t'.second := by
  obtain ⟨-, -, ⟨-, hminute, hsecond⟩, -⟩ := Local.isValid_iff.mp h
  obtain ⟨-, -, ⟨-, hminute', hsecond'⟩, -⟩ := Local.isValid_iff.mp h'
  unfold Local.secondOfDay at hseconds
  omega

/-- An instant has one local time at zero offset. -/
theorem Local.instant_inj (h : t.isValid = true) (h' : t'.isValid = true)
    (hinstant : t.instant = t'.instant) : t = t' := by
  have hseconds := congrArg Instant.seconds hinstant
  have hnanos : t.nanos = t'.nanos := congrArg Instant.nanos hinstant
  rw [Local.seconds_instant, Local.seconds_instant] at hseconds
  have hlt := Local.secondOfDay_lt h
  have hlt' := Local.secondOfDay_lt h'
  obtain ⟨hyear, hmonth, hday⟩ := Local.date_unique h h' (by omega)
  obtain ⟨hhour, hminute, hsecond⟩ := Local.time_unique h h' (by omega)
  cases t
  cases t'
  simp_all

/-- A clock that is so many seconds ahead of zero offset shows a local time at an instant. -/
structure Shows (instant : Instant) (east : Int) (t : Local) : Prop where
  isValid : t.isValid = true
  seconds : t.instant.seconds = instant.seconds + east
  nanos : t.instant.nanos = instant.nanos

/-- A clock shows one local time at a time. -/
theorem Shows.unique {instant : Instant} {east : Int} (h : Shows instant east t)
    (h' : Shows instant east t') : t = t' := by
  refine Local.instant_inj h.isValid h'.isValid ?_
  rw [Instant.mk.injEq]
  exact ⟨h.seconds.trans h'.seconds.symm, h.nanos.trans h'.nanos.symm⟩

end JsonPull.Calendar
