import Mathlib
import JsonPull.Proofs.Dates.Calendar
import JsonPull.Proofs.Dates.Spelling

/-! # Written dates

A text is read as a date if and only if it is the text of a written date, and then as that date. -/

namespace JsonPull.DateText

open Number Calendar Json

variable {bytes inner rest : List UInt8} {count start place : Nat} {b : UInt8} {time : Local}

/-! ## Local times -/

/-- A date and a time of day up to its seconds. -/
def dayText (time : Local) : List UInt8 :=
  padded 4 time.year ++ [0x2D] ++ padded 2 time.month ++ [0x2D] ++ padded 2 time.day ++ [0x54] ++
    padded 2 time.hour ++ [0x3A] ++ padded 2 time.minute ++ [0x3A] ++ padded 2 time.second

/-- A local time with so many digits of a fraction, and its zone designator. -/
def isoText (time : Local) (count : Nat) (zone : Designator) : List UInt8 :=
  dayText time ++ (fractionText count time.nanos ++ zone.text)

/-- A local time of four digits of years, whose fraction has no more than so many digits. -/
structure Fits (time : Local) (count : Nat) : Prop where
  isValid : time.isValid = true
  year_le : time.year ≤ 9999
  count_le : count ≤ 9
  nanos_dvd : 10 ^ (9 - count) ∣ time.nanos

theorem Fits.nanos_lt (h : Fits time count) : time.nanos < 1000000000 :=
  (Local.isValid_iff.mp h.isValid).2.2.2

theorem daysInMonth_le (year month : Nat) : daysInMonth year month ≤ 31 := by
  unfold daysInMonth
  split
  · split <;> decide
  · decide
  · decide
  · decide
  · decide
  · decide

/-- What two digits can write of a valid time. -/
theorem fields_lt (h : time.isValid = true) :
    time.month < 10 ^ 2 ∧ time.day < 10 ^ 2 ∧ time.hour < 10 ^ 2 ∧ time.minute < 10 ^ 2 ∧
      time.second < 10 ^ 2 := by
  obtain ⟨⟨-, hmonth⟩, ⟨-, hday⟩, ⟨hhour, hminute, hsecond⟩, -⟩ := Local.isValid_iff.mp h
  have hle := daysInMonth_le time.year time.month
  omega

theorem number?_padded {n : Nat} (hpos : 0 < count) (hle : count ≤ 9) (hn : n < 10 ^ count) :
    number? (padded count n) = some n :=
  (number?_eq_some_iff (length_padded ..) hpos hle).mpr ⟨hn, rfl⟩

/-- The marks and the fields of a written day. -/
theorem fields_dayText (time : Local) (rest : List UInt8) :
    hasIsoMarks (dayText time ++ rest) = true ∧
      field (dayText time ++ rest) 0 4 = padded 4 time.year ∧
      field (dayText time ++ rest) 5 2 = padded 2 time.month ∧
      field (dayText time ++ rest) 8 2 = padded 2 time.day ∧
      field (dayText time ++ rest) 11 2 = padded 2 time.hour ∧
      field (dayText time ++ rest) 14 2 = padded 2 time.minute ∧
      field (dayText time ++ rest) 17 2 = padded 2 time.second ∧
      (dayText time ++ rest).drop 19 = rest := by
  have htwo : ∀ n, ∃ a b, padded 2 n = [a, b] := fun n => ⟨_, _, rfl⟩
  obtain ⟨_, _, _, _, hyear⟩ : ∃ a b c d, padded 4 time.year = [a, b, c, d] := ⟨_, _, _, _, rfl⟩
  obtain ⟨_, _, hmonth⟩ := htwo time.month
  obtain ⟨_, _, hday⟩ := htwo time.day
  obtain ⟨_, _, hhour⟩ := htwo time.hour
  obtain ⟨_, _, hminute⟩ := htwo time.minute
  obtain ⟨_, _, hsecond⟩ := htwo time.second
  unfold dayText hasIsoMarks field
  rw [hyear, hmonth, hday, hhour, hminute, hsecond]
  simp

theorem drop_field (bytes : List UInt8) (start count : Nat) :
    bytes.drop start = field bytes start count ++ bytes.drop (start + count) := by
  rw [field, ← List.drop_drop, List.take_append_drop]

theorem drop_mark (h : bytes[place]? = some b) : bytes.drop place = b :: bytes.drop (place + 1) := by
  obtain ⟨hlt, rfl⟩ := List.getElem?_eq_some_iff.mp h
  exact List.drop_eq_getElem_cons hlt

theorem iso?_isoText {zone : Designator} (h : Fits time count) (hzone : zone.Has Offset.IsRead) :
    iso? (isoText time count zone) = some (time, zone.zone) := by
  obtain ⟨hmonth, hday, hhour, hminute, hsecond⟩ := fields_lt h.isValid
  have hyear : time.year < 10 ^ 4 := Nat.lt_succ_of_le h.year_le
  have hnumber : ∀ {n}, n < 10 ^ 2 → number? (padded 2 n) = some n :=
    fun hn => number?_padded (by decide) (by decide) hn
  have hlength : isIsoLength (isoText time count zone).length = true := by
    have hfraction := length_fractionText_le count time.nanos
    have hdesignator := length_designator_le zone
    have hcount := h.count_le
    simp only [isIsoLength, isoText, dayText, List.length_append, length_padded,
      List.length_singleton, Bool.and_eq_true, decide_eq_true_eq]
    omega
  have hfraction : fraction? (fractionText count time.nanos ++ zone.text) =
      some (time.nanos, zone.text) :=
    fraction?_text h.count_le h.nanos_dvd h.nanos_lt fun b hb => head?_designator zone hb
  obtain ⟨hmarks, h₀, h₅, h₈, h₁₁, h₁₄, h₁₇, hrest⟩ :=
    fields_dayText time (fractionText count time.nanos ++ zone.text)
  rw [iso?, hlength, isoText, hmarks, h₀, h₅, h₈, h₁₁, h₁₄, h₁₇, hrest, hfraction,
    number?_padded (by decide) (by decide) hyear, hnumber hmonth, hnumber hday, hnumber hhour,
    hnumber hminute, hnumber hsecond]
  simp [zone?_text hzone, h.isValid]

theorem isoText_of_iso? {zone : Zone} (h : iso? bytes = some (time, zone)) :
    ∃ count, ∃ d : Designator, Fits time count ∧ d.Has Offset.IsRead ∧ d.zone = zone ∧
      isoText time count d = bytes := by
  unfold iso? at h
  split_ifs at h with hshape
  simp only [Bool.not_eq_true', Bool.not_eq_false, Bool.and_eq_true, isIsoLength,
    decide_eq_true_eq] at hshape
  obtain ⟨⟨hle, -⟩, hmarks⟩ := hshape
  simp only [hasIsoMarks, List.all_cons, List.all_nil, Bool.and_true, Bool.and_eq_true,
    beq_iff_eq] at hmarks
  obtain ⟨h₄, h₇, h₁₀, h₁₃, h₁₆⟩ := hmarks
  simp only [Option.bind_eq_bind, Option.bind_eq_some_iff, Prod.exists] at h
  obtain ⟨year, hyear, month, hmonth, day, hday, hour, hhour, minute, hminute, second, hsecond,
    nanos, rest, hfraction, zone', hzone, htime⟩ := h
  have hfield : ∀ {start count n}, start + count ≤ 19 → 0 < count → count ≤ 9 →
      number? (field bytes start count) = some n → n < 10 ^ count ∧
        field bytes start count = padded count n := by
    intro start count n hstart hpos hcount hn
    have hlength : (field bytes start count).length = count := by
      simp [field]
      omega
    exact (number?_eq_some_iff hlength hpos hcount).mp hn
  obtain ⟨hyear, h₀⟩ := hfield (by decide) (by decide) (by decide) hyear
  obtain ⟨-, h₅⟩ := hfield (by decide) (by decide) (by decide) hmonth
  obtain ⟨-, h₈⟩ := hfield (by decide) (by decide) (by decide) hday
  obtain ⟨-, h₁₁⟩ := hfield (by decide) (by decide) (by decide) hhour
  obtain ⟨-, h₁₄⟩ := hfield (by decide) (by decide) (by decide) hminute
  obtain ⟨-, h₁₇⟩ := hfield (by decide) (by decide) (by decide) hsecond
  obtain ⟨count, hcount, hdvd, hrest⟩ := text_of_fraction? hfraction
  obtain ⟨d, hread, rfl, rfl⟩ := zone?_eq_some_iff.mp hzone
  split_ifs at htime with hvalid
  cases htime
  refine ⟨count, d, ⟨hvalid, by dsimp only; omega, hcount, hdvd⟩, hread, rfl, ?_⟩
  -- The fields and the marks between them follow each other without a gap.
  calc isoText _ count d
      = padded 4 year ++ 0x2D :: (padded 2 month ++ 0x2D :: (padded 2 day ++ 0x54 ::
          (padded 2 hour ++ 0x3A :: (padded 2 minute ++ 0x3A :: (padded 2 second ++
            bytes.drop 19))))) := by simp [isoText, dayText, hrest]
    _ = bytes.drop 0 := by
      rw [← h₁₇, ← drop_field bytes 17 2, ← drop_mark h₁₆, ← h₁₄, ← drop_field bytes 14 2,
        ← drop_mark h₁₃, ← h₁₁, ← drop_field bytes 11 2, ← drop_mark h₁₀, ← h₈,
        ← drop_field bytes 8 2, ← drop_mark h₇, ← h₅, ← drop_field bytes 5 2, ← drop_mark h₄, ← h₀,
        ← drop_field bytes 0 4]
    _ = bytes := List.drop_zero

/-! ## Counts of milliseconds -/

/-- A count of milliseconds with its sign. -/
def countText (negative : Bool) (digits : List UInt8) : List UInt8 :=
  if negative then 0x2D :: digits else digits

/-- The count that a sign and digits write. -/
def countOf (negative : Bool) (digits : List UInt8) : Int :=
  if negative then -(ofDecimalDigits digits : Int) else ofDecimalDigits digits

/-- An offset behind a count, if there is one. -/
def offsetText (offset : Option Offset) : List UInt8 :=
  offset.elim [] fun o => Style.plain.text o

theorem millisOffset?_eq_some_iff {east : Option Int} : millisOffset? bytes = some east ↔
    ∃ offset : Option Offset, (∀ o ∈ offset, o.IsRead) ∧ offset.map Offset.east = east ∧
      offsetText offset = bytes := by
  constructor
  · intro h
    unfold millisOffset? at h
    split at h
    · cases h
      exact ⟨none, by simp, rfl, rfl⟩
    · split at h
      · rename_i hsign
        obtain ⟨east, hoffset, rfl⟩ := Option.map_eq_some_iff.mp h
        obtain ⟨o, hread, rfl, -, rfl, hhours, hminutes⟩ :=
          (offset?_eq_some_iff 2 (by decide) (by decide) hsign rfl rfl).mp hoffset
        refine ⟨some o, by simpa using hread, rfl, ?_⟩
        rw [offsetText, Option.elim_some, Style.text, ← hhours, ← hminutes]
        rfl
      · cases h
    · cases h
  · rintro ⟨offset, hread, rfl, rfl⟩
    cases offset with
    | none => rfl
    | some o =>
        have ho : o.IsRead := hread o rfl
        have hminutes : o.minutes < 10 ^ 2 := Nat.lt_succ_of_le ho.1
        have hoffset := (offset?_eq_some_iff 2 (by decide) (by decide) (isSign_sign o)
          (length_padded ..) (length_padded ..)).mpr ⟨o, ho, rfl, hminutes, rfl, rfl, rfl⟩
        obtain ⟨h, h', hh⟩ : ∃ h h', padded 2 o.hours = [h, h'] := ⟨_, _, rfl⟩
        obtain ⟨m, m', hm⟩ : ∃ m m', padded 2 o.minutes = [m, m'] := ⟨_, _, rfl⟩
        rw [hh, hm] at hoffset
        simp [offsetText, Style.text, hh, hm, millisOffset?, isSign_sign, hoffset]

/-- An offset does not begin with a digit. -/
theorem head?_offsetText (offset : Option Offset) (hb : b ∈ (offsetText offset).head?) :
    isDigit b = false := by
  cases offset with
  | none => cases hb
  | some o => exact (head?_designator (.offset .plain o) hb).1

theorem number?_digits {digits : List UInt8} (h : IsDigits digits) :
    number? digits = some (ofDecimalDigits digits) :=
  number?_eq_some_digits.mpr ⟨h.1, fun _ hb => isDigit_of_mem h hb, rfl⟩

theorem millis?_text {negative : Bool} {digits : List UInt8} {offset : Option Offset}
    (hdigits : IsDigits digits) (hmillis : isMillis (countOf negative digits) = true)
    (hoffset : ∀ o ∈ offset, o.IsRead) :
    millis? (countText negative digits ++ offsetText offset) =
      some (countOf negative digits, offset.map Offset.east) := by
  obtain ⟨htake, hdrop⟩ := takeWhile_digits hdigits fun b hb => head?_offsetText offset hb
  have heast := millisOffset?_eq_some_iff.mpr ⟨offset, hoffset, rfl, rfl⟩
  cases negative with
  | true =>
      rw [countOf, if_pos rfl] at hmillis
      simp [millis?, countText, countOf, htake, hdrop, number?_digits hdigits, heast, hmillis]
  | false =>
      have hsign : ∀ more, digits ++ offsetText offset ≠ 0x2D :: more := by
        intro more hmore
        obtain ⟨d, rest, rfl⟩ := List.exists_cons_of_ne_nil hdigits.1
        cases hmore
        exact absurd (hdigits.2 0x2D (by simp)) (by decide)
      rw [countOf, if_neg Bool.false_ne_true] at hmillis
      unfold millis? countText countOf
      rw [if_neg Bool.false_ne_true]
      split
      rename_i negative unsigned hsplit
      split at hsplit
      · rename_i more hmore
        exact absurd hmore (hsign more)
      · cases hsplit
        simp [htake, hdrop, number?_digits hdigits, heast, hmillis]

theorem text_of_millis? {millis : Int} {east : Option Int}
    (h : millis? bytes = some (millis, east)) :
    ∃ negative digits, ∃ offset : Option Offset, IsDigits digits ∧
      isMillis (countOf negative digits) = true ∧ (∀ o ∈ offset, o.IsRead) ∧
      countOf negative digits = millis ∧ offset.map Offset.east = east ∧
      countText negative digits ++ offsetText offset = bytes := by
  unfold millis? at h
  split at h
  rename_i negative unsigned hsplit
  have hbytes : countText negative unsigned = bytes := by
    split at hsplit <;> (cases hsplit; rfl)
  simp only [Option.bind_eq_bind, Option.bind_eq_some_iff] at h
  obtain ⟨count, hcount, east', heast, hmillis⟩ := h
  obtain ⟨hne, hdigits, rfl⟩ := number?_eq_some_digits.mp hcount
  obtain ⟨offset, hread, rfl, hoffset⟩ := millisOffset?_eq_some_iff.mp heast
  rw [← countOf] at hmillis
  split_ifs at hmillis with hbound
  cases hmillis
  have hunsigned : IsDigits (unsigned.takeWhile isDigit) :=
    ⟨hne, fun b hb => by simpa [isDigit] using hdigits b hb⟩
  refine ⟨negative, unsigned.takeWhile isDigit, offset, hunsigned, hbound, hread, rfl, rfl, ?_⟩
  rw [hoffset, ← hbytes]
  cases negative with
  | true => exact congrArg (0x2D :: ·) (List.takeWhile_append_dropWhile ..)
  | false => exact List.takeWhile_append_dropWhile ..

theorem inner?_eq_some_iff : inner? bytes = some inner ↔ opening ++ inner ++ closing = bytes := by
  constructor
  · intro h
    unfold inner? at h
    dsimp only at h
    split_ifs at h with hopening hclosing
    cases h
    rw [List.append_assoc]
    nth_rewrite 2 [← hclosing.2]
    rw [List.take_append_drop]
    nth_rewrite 1 [← hopening]
    rw [List.take_append_drop]
  · rintro rfl
    simp [inner?, List.append_assoc]

/-! ## Dates -/

/-- A date as it is written. -/
inductive Written where
  | iso (time : Local) (count : Nat) (zone : Designator)
  | millis (negative : Bool) (digits : List UInt8) (offset : Option Offset)

namespace Written

def text : Written → List UInt8
  | iso time count zone => isoText time count zone
  | millis negative digits offset =>
    opening ++ (countText negative digits ++ offsetText offset) ++ closing

/-- The date that is written, with its offset on request. -/
def date (keepOffset : Bool) : Written → Timestamp
  | iso time _ zone => ofLocal keepOffset time zone.zone
  | millis negative digits offset =>
    ofMillisOffset keepOffset (countOf negative digits) (offset.map Offset.east)

/-- A written date within the bounds of the calendar, with a condition on its offset. -/
inductive Has (p : Offset → Prop) : Written → Prop
  | iso {time : Local} {count : Nat} {zone : Designator} (hfits : Fits time count)
      (hzone : zone.Has p) : Has p (iso time count zone)
  | millis {negative : Bool} {digits : List UInt8} {offset : Option Offset}
      (hdigits : IsDigits digits) (hmillis : isMillis (countOf negative digits) = true)
      (hoffset : ∀ o ∈ offset, p o) : Has p (millis negative digits offset)

end Written

/-- A written day begins with a digit. -/
theorem inner?_isoText (time : Local) (count : Nat) (zone : Designator) :
    inner? (isoText time count zone) = none := by
  obtain ⟨d, more, hyear⟩ : ∃ d more, padded 4 time.year = d :: more := ⟨_, _, rfl⟩
  have hdigit : isDigit d = true := isDigit_of_mem_padded (by rw [hyear]; exact List.mem_cons_self ..)
  cases h : inner? (isoText time count zone) with
  | none => rfl
  | some inner =>
      have htext := congrArg List.head? (inner?_eq_some_iff.mp h)
      simp only [opening, isoText, dayText, hyear, List.cons_append, List.head?_cons,
        Option.some.injEq] at htext
      rw [← htext] at hdigit
      exact absurd hdigit (by decide)

/-- A text is read as a date if and only if it is that of a written date whose offset is read. -/
theorem ofBytes?_eq_some_iff {keepOffset : Bool} {date : Timestamp} :
    ofBytes? keepOffset bytes = some date ↔
      ∃ w : Written, w.Has Offset.IsRead ∧ w.text = bytes ∧ w.date keepOffset = date := by
  constructor
  · intro h
    unfold ofBytes? at h
    split at h
    · rename_i inner hinner
      obtain ⟨⟨millis, east⟩, hmillis, rfl⟩ := Option.map_eq_some_iff.mp h
      obtain ⟨negative, digits, offset, hdigits, hbound, hoffset, rfl, rfl, rfl⟩ :=
        text_of_millis? hmillis
      exact ⟨.millis negative digits offset, .millis hdigits hbound hoffset,
        inner?_eq_some_iff.mp hinner, rfl⟩
    · obtain ⟨⟨time, zone⟩, hiso, rfl⟩ := Option.map_eq_some_iff.mp h
      obtain ⟨count, d, hfits, hread, rfl, htext⟩ := isoText_of_iso? hiso
      exact ⟨.iso time count d, .iso hfits hread, htext, rfl⟩
  · rintro ⟨w, hread, rfl, rfl⟩
    cases hread with
    | iso hfits hzone =>
        unfold ofBytes? Written.text
        rw [inner?_isoText, iso?_isoText hfits hzone]
        rfl
    | millis hdigits hmillis hoffset =>
        unfold ofBytes? Written.text
        rw [inner?_eq_some_iff.mpr rfl]
        dsimp only
        rw [millis?_text hdigits hmillis hoffset]
        rfl

end JsonPull.DateText
