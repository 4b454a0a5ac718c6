import Mathlib
import JsonPull.Proofs.DateText
import JsonPull.Proofs.Json.Number
import JsonPull.Proofs.Text.Utf8

/-! # How dates are spelled

A written date is a local time with its fraction and its zone designator, or a count of milliseconds
with an optional offset. Its text is stated apart from the reader, which accepts the texts of
written dates and no others. -/

namespace JsonPull.DateText

open Number Calendar Json

variable {bytes rest : List UInt8} {count n nanos : Nat} {b : UInt8}

/-! ## Numbers of a fixed width -/

/-- The last digits of a number, as many as are asked for. -/
def padded : Nat → Nat → List UInt8
  | 0, _ => []
  | count + 1, n => padded count (n / 10) ++ [UInt8.ofNat (0x30 + n % 10)]

@[simp] theorem length_padded (count n : Nat) : (padded count n).length = count := by
  induction count generalizing n with
  | zero => rfl
  | succ count ih => simp [padded, ih]

theorem toNat_digit (n : Nat) : (UInt8.ofNat (0x30 + n % 10)).toNat = 0x30 + n % 10 :=
  Text.toNat_ofNat (by omega)

theorem isDigit_iff : isDigit b = true ↔ 0x30 ≤ b.toNat ∧ b.toNat ≤ 0x39 := by
  simp [isDigit, UInt8.le_iff_toNat_le]

theorem isDigit_of_mem_padded (hb : b ∈ padded count n) : isDigit b = true := by
  induction count generalizing n with
  | zero => cases hb
  | succ count ih =>
      rcases List.mem_append.mp hb with hb | hb
      · exact ih hb
      · rw [List.mem_singleton.mp hb, isDigit_iff, toNat_digit]
        omega

theorem ofDecimalDigits_concat (bytes : List UInt8) (b : UInt8) :
    ofDecimalDigits (bytes ++ [b]) = 10 * ofDecimalDigits bytes + (b.toNat - 0x30) := by
  simp [ofDecimalDigits_eq_foldl]

theorem ofDecimalDigits_padded (h : n < 10 ^ count) : ofDecimalDigits (padded count n) = n := by
  induction count generalizing n with
  | zero =>
      have hn : n = 0 := by simpa using h
      simp [padded, hn, ofDecimalDigits_eq_foldl]
  | succ count ih =>
      have hdiv : n / 10 < 10 ^ count := by
        rw [Nat.pow_succ] at h
        omega
      rw [padded, ofDecimalDigits_concat, ih hdiv, toNat_digit]
      omega

/-- Digits are the number that they write, in as many digits. -/
theorem padded_ofDecimalDigits (h : ∀ b ∈ bytes, isDigit b = true) :
    padded bytes.length (ofDecimalDigits bytes) = bytes := by
  induction bytes using List.reverseRecOn with
  | nil => rfl
  | append_singleton bytes b ih =>
      have hb := isDigit_iff.mp (h b (by simp))
      have hrest := ih fun b hb => h b (by simp [hb])
      have hdiv : (10 * ofDecimalDigits bytes + (b.toNat - 0x30)) / 10 = ofDecimalDigits bytes := by
        omega
      have hmod : 0x30 + (10 * ofDecimalDigits bytes + (b.toNat - 0x30)) % 10 = b.toNat := by omega
      rw [List.length_append, List.length_singleton, ofDecimalDigits_concat, padded, hdiv, hmod,
        hrest, UInt8.ofNat_toNat]

theorem number?_eq_some_digits : number? bytes = some n ↔
    bytes ≠ [] ∧ (∀ b ∈ bytes, isDigit b = true) ∧ n = ofDecimalDigits bytes := by
  unfold number?
  by_cases h : bytes.isEmpty || !bytes.all isDigit
  · rw [if_pos h]
    simp only [Bool.or_eq_true, List.isEmpty_iff, Bool.not_eq_true', List.all_eq_false] at h
    constructor
    · intro hsome
      cases hsome
    · rintro ⟨hne, hdigits, -⟩
      rcases h with h | ⟨b, hb, hnot⟩
      · exact absurd h hne
      · exact absurd (hdigits b hb) hnot
  · rw [if_neg h]
    simp only [Bool.or_eq_true, List.isEmpty_iff, Bool.not_eq_true', Bool.not_eq_false, not_or,
      List.all_eq_true] at h
    rw [Option.some.injEq]
    exact ⟨fun heq => ⟨h.1, h.2, heq.symm⟩, fun heq => heq.2.2.symm⟩

/-- A field of so many digits writes the numbers below a power of ten, each in one way. -/
theorem number?_eq_some_iff (hlength : bytes.length = count) (hpos : 0 < count) (hle : count ≤ 9) :
    number? bytes = some n ↔ n < 10 ^ count ∧ bytes = padded count n := by
  constructor
  · intro h
    have hlt := number?_lt (by omega) h
    obtain ⟨-, hdigits, rfl⟩ := number?_eq_some_digits.mp h
    rw [← hlength]
    exact ⟨hlt, (padded_ofDecimalDigits hdigits).symm⟩
  · rintro ⟨hlt, rfl⟩
    refine number?_eq_some_digits.mpr ⟨?_, ?_, ?_⟩
    · exact List.ne_nil_of_length_pos (by rwa [length_padded])
    · exact fun b hb => isDigit_of_mem_padded hb
    · exact (ofDecimalDigits_padded hlt).symm

/-! ## Offsets and zone designators -/

/-- The hours and minutes of an offset, before or behind zero offset. -/
structure Offset where
  west : Bool
  hours : Nat
  minutes : Nat
deriving DecidableEq, Repr

namespace Offset

def sign (o : Offset) : UInt8 :=
  if o.west then 0x2D else 0x2B

def seconds (o : Offset) : Nat :=
  o.hours * 3600 + o.minutes * 60

/-- The seconds to the east of zero offset. -/
def east (o : Offset) : Int :=
  if o.west then -(o.seconds : Int) else o.seconds

/-- Hours and minutes as a clock shows them. -/
def IsClock (o : Offset) : Prop :=
  o.hours ≤ 23 ∧ o.minutes ≤ 59

/-- Two digits of minutes, and less than a day in all. -/
def IsRead (o : Offset) : Prop :=
  o.minutes ≤ 99 ∧ o.seconds < 86400

instance (o : Offset) : Decidable o.IsClock :=
  inferInstanceAs (Decidable (_ ∧ _))

instance (o : Offset) : Decidable o.IsRead :=
  inferInstanceAs (Decidable (_ ∧ _))

theorem IsClock.isRead {o : Offset} (h : o.IsClock) : o.IsRead := by
  obtain ⟨hhours, hminutes⟩ := h
  unfold IsRead seconds
  omega

/-- The hours of an offset that is read are those of a day. -/
theorem IsRead.hours_le {o : Offset} (h : o.IsRead) : o.hours ≤ 23 := by
  have hday := h.2
  unfold seconds at hday
  omega

/-- What a clock does not show is only read with minutes from 60 to 99 that stay within the day. -/
theorem isRead_iff {o : Offset} : o.IsRead ↔
    o.IsClock ∨ (60 ≤ o.minutes ∧ o.minutes ≤ 99 ∧ o.hours * 60 + o.minutes < 1440) := by
  unfold IsRead IsClock seconds
  omega

end Offset

/-- The ways to write an offset: `+HH` for whole hours, `+HHmm` and `+HH:mm`. -/
inductive Style where
  | hours
  | plain
  | colon
deriving DecidableEq, Repr

/-- An offset in a style. -/
def Style.text (o : Offset) : Style → List UInt8
  | .hours => o.sign :: padded 2 o.hours
  | .plain => o.sign :: (padded 2 o.hours ++ padded 2 o.minutes)
  | .colon => o.sign :: (padded 2 o.hours ++ 0x3A :: padded 2 o.minutes)

/-- Where a time was written, as its last letters say it. -/
inductive Designator where
  | none
  | utc
  | offset (style : Style) (o : Offset)
deriving DecidableEq, Repr

namespace Designator

def text : Designator → List UInt8
  | none => []
  | utc => [0x5A]
  | offset style o => style.text o

def zone : Designator → Zone
  | none => .none
  | utc => .utc
  | offset _ o => .offset o.east

/-- The seconds to the east of zero offset. -/
def east : Designator → Int
  | none | utc => 0
  | offset _ o => o.east

/-- A condition on the offset of a designator, which writes whole hours when it writes no
minutes. -/
def Has (p : Offset → Prop) : Designator → Prop
  | none | utc => True
  | offset style o => p o ∧ (style = .hours → o.minutes = 0)

theorem Has.imp {p q : Offset → Prop} (hpq : ∀ o, p o → q o) {d : Designator} (h : d.Has p) :
    d.Has q := by
  cases d with
  | none => trivial
  | utc => trivial
  | offset style o => exact ⟨hpq o h.1, h.2⟩

end Designator

theorem isSign_iff : isSign b = true ↔ b = 0x2B ∨ b = 0x2D := by
  simp [isSign]

theorem isSign_sign (o : Offset) : isSign o.sign = true := by
  by_cases h : o.west = true <;> simp [isSign, Offset.sign, h]

/-- A sign and two digits each for hours and minutes are an offset below a day. -/
theorem offset?_eq_some_iff {hours minutes : List UInt8} {east : Int} (width : Nat)
    (hpos : 0 < width) (hle : width ≤ 2) (hsign : isSign b = true) (hhours : hours.length = 2)
    (hminutes : minutes.length = width) :
    offset? b hours minutes = some east ↔
      ∃ o : Offset, o.IsRead ∧ o.east = east ∧ o.minutes < 10 ^ width ∧ b = o.sign ∧
        hours = padded 2 o.hours ∧ minutes = padded width o.minutes := by
  have hbound : 10 ^ width ≤ 10 ^ 2 := Nat.pow_le_pow_right (by decide) hle
  constructor
  · intro h
    unfold offset? at h
    simp only [Option.bind_eq_bind, Option.bind_eq_some_iff] at h
    obtain ⟨h, hh, m, hm, heast⟩ := h
    obtain ⟨-, hhours⟩ := (number?_eq_some_iff hhours (by decide) (by decide)).mp hh
    obtain ⟨hlt, hminutes⟩ := (number?_eq_some_iff hminutes hpos (by omega)).mp hm
    have hm : m ≤ 99 := by omega
    split_ifs at heast with hwest hday hday
    · cases heast
      have hread : Offset.IsRead ⟨true, h, m⟩ := ⟨hm, by dsimp only [Offset.seconds]; omega⟩
      exact ⟨_, hread, rfl, hlt, by simpa [Offset.sign] using hwest, hhours, hminutes⟩
    · cases heast
      have hplus : b = 0x2B := (isSign_iff.mp hsign).resolve_right (by simpa using hwest)
      have hread : Offset.IsRead ⟨false, h, m⟩ := ⟨hm, by dsimp only [Offset.seconds]; omega⟩
      exact ⟨_, hread, rfl, hlt, hplus, hhours, hminutes⟩
  · rintro ⟨⟨west, h, m⟩, hread, rfl, hlt, rfl, rfl, rfl⟩
    have hh := hread.hours_le
    have hday : h * 3600 + m * 60 < 86400 := hread.2
    have hnumber : number? (padded 2 h) = some h :=
      (number?_eq_some_iff hhours (by decide) (by decide)).mpr ⟨by dsimp only at hh; omega, rfl⟩
    have hnumber' : number? (padded width m) = some m :=
      (number?_eq_some_iff hminutes hpos (by omega)).mpr ⟨hlt, rfl⟩
    unfold offset?
    simp only [hnumber, hnumber', Option.bind_eq_bind, Option.bind_some]
    cases west <;> simp [Offset.sign, Offset.east, Offset.seconds] <;> omega

theorem minutes_zero (hlt : n < 10 ^ 1) (h : [(0x30 : UInt8)] = padded 1 n) : n = 0 := by
  rw [← ofDecimalDigits_padded hlt, ← h]
  rfl

/-- The offset behind a sign, in one of the three styles. -/
theorem zone?_style (o : Offset) (style : Style) :
    zone? (style.text o) = (offset? o.sign (padded 2 o.hours)
      (if style = .hours then [0x30] else padded 2 o.minutes)).map .offset := by
  obtain ⟨h, h', hhours⟩ : ∃ h h', padded 2 o.hours = [h, h'] := ⟨_, _, rfl⟩
  obtain ⟨m, m', hminutes⟩ : ∃ m m', padded 2 o.minutes = [m, m'] := ⟨_, _, rfl⟩
  cases style <;> simp [Style.text, hhours, hminutes, zone?, isSign_sign]

theorem zone?_text {d : Designator} (h : d.Has Offset.IsRead) : zone? d.text = some d.zone := by
  cases d with
  | none => rfl
  | utc => rfl
  | offset style o =>
      obtain ⟨hread, hwhole⟩ := h
      have hminutes : o.minutes < 10 ^ 2 := Nat.lt_succ_of_le hread.1
      rw [Designator.text, zone?_style, Designator.zone]
      by_cases hstyle : style = .hours
      · have hzero := hwhole hstyle
        have hpadded : [(0x30 : UInt8)] = padded 1 o.minutes := by rw [hzero]; rfl
        rw [if_pos hstyle, (offset?_eq_some_iff 1 (by decide) (by decide) (isSign_sign o)
          (length_padded ..) rfl).mpr ⟨o, hread, rfl, by omega, rfl, rfl, hpadded⟩]
        rfl
      · rw [if_neg hstyle, (offset?_eq_some_iff 2 (by decide) (by decide) (isSign_sign o)
          (length_padded ..) (length_padded ..)).mpr ⟨o, hread, rfl, hminutes, rfl, rfl, rfl⟩]
        rfl

theorem zone?_eq_some_iff {zone : Zone} : zone? bytes = some zone ↔
    ∃ d : Designator, d.Has Offset.IsRead ∧ d.text = bytes ∧ d.zone = zone := by
  constructor
  · intro h
    unfold zone? at h
    split at h
    · cases h
      exact ⟨.none, trivial, rfl, rfl⟩
    · cases h
      exact ⟨.utc, trivial, rfl, rfl⟩
    · split at h
      · rename_i hsign
        obtain ⟨east, hoffset, rfl⟩ := Option.map_eq_some_iff.mp h
        obtain ⟨o, hread, rfl, hlt, rfl, hhours, hminutes⟩ :=
          (offset?_eq_some_iff 1 (by decide) (by decide) hsign rfl rfl).mp hoffset
        exact ⟨.offset .hours o, ⟨hread, fun _ => minutes_zero hlt hminutes⟩,
          congrArg (o.sign :: ·) hhours.symm, rfl⟩
      · cases h
    · split at h
      · rename_i hsign
        obtain ⟨east, hoffset, rfl⟩ := Option.map_eq_some_iff.mp h
        obtain ⟨o, hread, rfl, -, rfl, hhours, hminutes⟩ :=
          (offset?_eq_some_iff 2 (by decide) (by decide) hsign rfl rfl).mp hoffset
        refine ⟨.offset .plain o, ⟨hread, nofun⟩, ?_, rfl⟩
        rw [Designator.text, Style.text, ← hhours, ← hminutes]
        rfl
      · cases h
    · split at h
      · rename_i hsign
        simp only [Bool.and_eq_true, beq_iff_eq] at hsign
        obtain ⟨hsign, rfl⟩ := hsign
        obtain ⟨east, hoffset, rfl⟩ := Option.map_eq_some_iff.mp h
        obtain ⟨o, hread, rfl, -, rfl, hhours, hminutes⟩ :=
          (offset?_eq_some_iff 2 (by decide) (by decide) hsign rfl rfl).mp hoffset
        refine ⟨.offset .colon o, ⟨hread, nofun⟩, ?_, rfl⟩
        rw [Designator.text, Style.text, ← hhours, ← hminutes]
        rfl
      · cases h
    · cases h
  · rintro ⟨d, hread, rfl, rfl⟩
    exact zone?_text hread

/-- A designator is short, and begins neither with a digit nor with a point. -/
theorem length_designator_le (d : Designator) : d.text.length ≤ 6 := by
  cases d with
  | none => decide
  | utc => decide
  | offset style o => cases style <;> simp [Designator.text, Style.text]

theorem head?_designator (d : Designator) (hb : b ∈ d.text.head?) :
    isDigit b = false ∧ b ≠ 0x2E := by
  have hsign : ∀ o : Offset, isDigit o.sign = false ∧ o.sign ≠ 0x2E := by
    intro o
    by_cases h : o.west = true <;> simp [Offset.sign, h] <;> decide
  cases d with
  | none => cases hb
  | utc =>
      cases hb
      decide
  | offset style o => cases style <;> (cases hb; exact hsign o)

/-! ## Fractions -/

/-- The nanoseconds of a second in so many digits behind a point; no digits have no point. -/
def fractionText (count nanos : Nat) : List UInt8 :=
  if count = 0 then [] else 0x2E :: padded count (nanos / 10 ^ (9 - count))

theorem length_fractionText_le (count nanos : Nat) : (fractionText count nanos).length ≤ count + 1 := by
  unfold fractionText
  split <;> simp

theorem tenPow_eq (count : Nat) : tenPow count = 10 ^ count := rfl

theorem fraction?_text (hcount : count ≤ 9) (hdvd : 10 ^ (9 - count) ∣ nanos)
    (hnanos : nanos < 1000000000) (hrest : ∀ b ∈ rest.head?, isDigit b = false ∧ b ≠ 0x2E) :
    fraction? (fractionText count nanos ++ rest) = some (nanos, rest) := by
  by_cases hzero : count = 0
  · subst hzero
    have hnone : nanos = 0 := Nat.eq_zero_of_dvd_of_lt hdvd hnanos
    rw [hnone, fractionText, if_pos rfl, List.nil_append]
    unfold fraction?
    split
    · exact absurd rfl (hrest _ rfl).2
    · rfl
  · have hlt : nanos / 10 ^ (9 - count) < 10 ^ count := by
      rw [Nat.div_lt_iff_lt_mul (by positivity), ← Nat.pow_add]
      rwa [show count + (9 - count) = 9 by omega]
    have hdigits : IsDigits (padded count (nanos / 10 ^ (9 - count))) :=
      ⟨List.ne_nil_of_length_pos (by rw [length_padded]; omega), fun b hb => by
        simpa [isDigit] using isDigit_of_mem_padded hb⟩
    obtain ⟨htake, hdrop⟩ := takeWhile_digits hdigits fun b hb => (hrest b hb).1
    have hempty : (padded count (nanos / 10 ^ (9 - count))).isEmpty = false := by
      simpa using hdigits.1
    rw [fractionText, if_neg hzero, List.cons_append, fraction?_point, htake, hdrop, hempty,
      length_padded, ofDecimalDigits_padded hlt, tenPow_eq, Nat.div_mul_cancel hdvd]
    simp [hcount]

theorem text_of_fraction? (h : fraction? bytes = some (nanos, rest)) :
    ∃ count ≤ 9, 10 ^ (9 - count) ∣ nanos ∧ bytes = fractionText count nanos ++ rest := by
  unfold fraction? at h
  split at h
  · rename_i tail
    dsimp only at h
    split_ifs at h with hlength
    cases h
    simp only [Bool.or_eq_true, List.isEmpty_iff, decide_eq_true_eq, not_or] at hlength
    obtain ⟨hne, hle⟩ := hlength
    refine ⟨(tail.takeWhile isDigit).length, by omega, Nat.dvd_mul_left .., ?_⟩
    rw [fractionText, if_neg (mt List.length_eq_zero_iff.mp hne), tenPow_eq,
      Nat.mul_div_cancel _ (by positivity),
      padded_ofDecimalDigits fun b hb => List.mem_takeWhile_imp hb, List.cons_append,
      List.takeWhile_append_dropWhile]
  · cases h
    exact ⟨0, by decide, Nat.dvd_zero _, rfl⟩

end JsonPull.DateText
