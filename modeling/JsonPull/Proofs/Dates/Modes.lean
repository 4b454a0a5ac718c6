import Mathlib
import JsonPull.Proofs.Dates.Written
import JsonPull.Proofs.Value.Integer

/-! # Dates in both modes

What is written is what is read, at its own offset or moved to zero offset. The modes differ in the
form of a date only: they accept the same texts, and each as the same instant. -/

namespace JsonPull

/-- The point in time of a date; a local time of an unknown place is taken to be at zero offset. -/
def Timestamp.instant : Timestamp → Instant
  | .unspecified instant => instant
  | .utc instant => instant
  | .offset instant _ => instant

namespace DateText

open Number Calendar Json

variable {bytes : List UInt8} {count : Nat} {time : Local} {zone : Designator}

/-! ## Local times -/

/-- A clock at the place where a time was written shows that time, and no other. -/
theorem shows_shifted_iff (h : time.isValid = true) (east : Int) (t : Local) :
    Shows (shifted time east) east t ↔ t = time := by
  have hself : Shows (shifted time east) east time :=
    ⟨h, by simp [shifted], rfl⟩
  constructor
  · intro hshows
    exact hshows.unique hself
  · rintro rfl
    exact hself

theorem shifted_zero (time : Local) : shifted time 0 = time.instant := by
  simp [shifted]

theorem ofLocal_true (time : Local) (zone : Designator) :
    ofLocal true time zone.zone = .offset (shifted time zone.east) zone.east := by
  cases zone <;> rfl

theorem ofLocal_false (time : Local) (zone : Designator) : ofLocal false time zone.zone =
    if zone = .none then .unspecified (shifted time zone.east)
    else .utc (shifted time zone.east) := by
  cases zone with
  | none => exact congrArg Timestamp.unspecified (shifted_zero time).symm
  | utc => rfl
  | offset style o => rfl

theorem ofBytes?_isoText (keepOffset : Bool) (h : Fits time count)
    (hzone : zone.Has Offset.IsRead) :
    ofBytes? keepOffset (isoText time count zone) = some (ofLocal keepOffset time zone.zone) :=
  ofBytes?_eq_some_iff.mpr ⟨_, .iso h hzone, rfl, rfl⟩

/-! ## Counts of milliseconds -/

theorem ofMillis_nanos_lt (millis : Int) : (ofMillis millis).nanos < 1000000000 := by
  have hlt : millis.fmod 1000 < 1000 := Int.fmod_lt_of_pos millis (by decide)
  simp only [ofMillis]
  omega

/-- The seconds and nanoseconds of an instant are its milliseconds, also before 1970. -/
theorem ofMillis_total (millis : Int) :
    (ofMillis millis).seconds * 1000000000 + (ofMillis millis).nanos = millis * 1000000 := by
  have hnonneg : 0 ≤ millis.fmod 1000 := Int.fmod_nonneg_of_pos millis (by decide)
  have hdivision := Int.mul_fdiv_add_fmod millis 1000
  simp only [ofMillis, Nat.cast_mul, Int.toNat_of_nonneg hnonneg]
  push_cast
  omega

/-- A count of milliseconds with an optional offset. -/
def millisText (millis : Int) (offset : Option Offset) : List UInt8 :=
  opening ++ (Text.toBytes (toString millis) ++ offsetText offset) ++ closing

theorem countText_of_isInteger {text : List UInt8} {z : Int} (h : IsInteger text z) :
    ∃ negative digits, IsDigits digits ∧ countText negative digits = text ∧
      countOf negative digits = z := by
  have hvalue : ∀ digits, ofDecimalDigits digits = ofDigits digits := ofDecimalDigits_eq_foldl
  cases h with
  | unsigned hwhole =>
      exact ⟨false, _, hwhole.1, rfl, congrArg Nat.cast (hvalue _)⟩
  | negative hwhole =>
      exact ⟨true, _, hwhole.1, rfl, congrArg (fun n : Nat => -(n : Int)) (hvalue _)⟩

theorem ofBytes?_millisText (keepOffset : Bool) {millis : Int} {offset : Option Offset}
    (hmillis : isMillis millis = true) (hoffset : ∀ o ∈ offset, o.IsRead) :
    ofBytes? keepOffset (millisText millis offset) =
      some (ofMillisOffset keepOffset millis (offset.map Offset.east)) := by
  obtain ⟨negative, digits, hdigits, htext, rfl⟩ :=
    countText_of_isInteger (isInteger_toString millis)
  refine ofBytes?_eq_some_iff.mpr ⟨.millis negative digits offset, ?_, ?_, rfl⟩
  · exact .millis hdigits hmillis hoffset
  · rw [Written.text, millisText, htext]

/-! ## Both modes -/

theorem instant_ofLocal (time : Local) (zone : Zone) :
    (ofLocal false time zone).instant = (ofLocal true time zone).instant := by
  cases zone with
  | none => exact (shifted_zero time).symm
  | utc => rfl
  | offset east => rfl

theorem instant_ofBytes? (bytes : List UInt8) :
    (ofBytes? false bytes).map Timestamp.instant = (ofBytes? true bytes).map Timestamp.instant := by
  unfold ofBytes?
  cases inner? bytes with
  | some inner =>
      simp only [Option.map_map]
      rfl
  | none =>
      simp only [Option.map_map]
      refine Option.map_congr fun (time, zone) _ => ?_
      exact instant_ofLocal time zone

/-- A local time of the years 0000 to 9999, with up to nine digits of a fraction and with no zone, `Z`
or an offset that a clock shows, is read as that local time at that offset, or as the same instant,
or as a local time of an unknown place if it has no zone. A count of milliseconds is read as its
instant, whatever its offset. Every text at all has the same instant in both modes, if it has one in
any. -/
theorem ofBytes?_round_trip :
    (∀ (time : Local) (count : Nat) (zone : Designator), time.isValid = true → time.year ≤ 9999 →
      count ≤ 9 → 10 ^ (9 - count) ∣ time.nanos → zone.Has Offset.IsClock →
      ∃ instant, (∀ t, Shows instant zone.east t ↔ t = time) ∧
        ofBytes? true (isoText time count zone) = some (.offset instant zone.east) ∧
        ofBytes? false (isoText time count zone) =
          some (if zone = .none then .unspecified instant else .utc instant)) ∧
    (∀ (millis : Int) (offset : Option Offset), isMillis millis = true →
      (∀ o ∈ offset, o.IsClock) →
      ∃ instant : Instant, instant.nanos < 1000000000 ∧
        instant.seconds * 1000000000 + instant.nanos = millis * 1000000 ∧
        ofBytes? true (millisText millis offset) =
          some (.offset instant ((offset.map Offset.east).getD 0)) ∧
        ofBytes? false (millisText millis offset) = some (.utc instant)) ∧
    ∀ bytes : List UInt8,
      (ofBytes? false bytes).map Timestamp.instant = (ofBytes? true bytes).map Timestamp.instant := by
  refine ⟨?_, ?_, instant_ofBytes?⟩
  · intro time count zone hvalid hyear hcount hdvd hzone
    have hfits : Fits time count := ⟨hvalid, hyear, hcount, hdvd⟩
    have hread : zone.Has Offset.IsRead := hzone.imp fun _ => Offset.IsClock.isRead
    refine ⟨shifted time zone.east, shows_shifted_iff hvalid _, ?_, ?_⟩
    · rw [ofBytes?_isoText true hfits hread, ofLocal_true]
    · rw [ofBytes?_isoText false hfits hread, ofLocal_false]
  · intro millis offset hmillis hoffset
    have hread : ∀ o ∈ offset, o.IsRead := fun o ho => (hoffset o ho).isRead
    refine ⟨ofMillis millis, ofMillis_nanos_lt millis, ofMillis_total millis, ?_, ?_⟩
    · rw [ofBytes?_millisText true hmillis hread]
      rfl
    · rw [ofBytes?_millisText false hmillis hread]
      rfl

/-- Half a second past half past midnight at `+01:00` is a time of the year before at zero offset,
and a count below zero is a time before 1970. -/
theorem ofBytes?_round_trip_before_midnight :
    (∃ instant, (∀ t, Shows instant 3600 t ↔ t = ⟨2020, 1, 1, 0, 30, 0, 500000000⟩) ∧
      ofBytes? true (Text.toBytes "2020-01-01T00:30:00.5+01:00") = some (.offset instant 3600) ∧
      ofBytes? false (Text.toBytes "2020-01-01T00:30:00.5+01:00") = some (.utc instant)) ∧
    ∃ instant : Instant, instant.nanos < 1000000000 ∧
      instant.seconds * 1000000000 + instant.nanos = -1 * 1000000 ∧
      ofBytes? true (Text.toBytes "/Date(-1-0130)/") = some (.offset instant (-5400)) ∧
      ofBytes? false (Text.toBytes "/Date(-1-0130)/") = some (.utc instant) := by
  obtain ⟨hiso, hmillis, -⟩ := ofBytes?_round_trip
  have hzone : Designator.Has Offset.IsClock (.offset .colon ⟨false, 1, 0⟩) := ⟨by decide, nofun⟩
  have hclock : ∀ o ∈ some (⟨true, 1, 30⟩ : Offset), o.IsClock := by
    intro o ho
    cases ho
    decide
  have htext : Text.toBytes "2020-01-01T00:30:00.5+01:00" =
      isoText ⟨2020, 1, 1, 0, 30, 0, 500000000⟩ 1 (.offset .colon ⟨false, 1, 0⟩) := by
    decide +kernel
  have htext' : Text.toBytes "/Date(-1-0130)/" = millisText (-1) (some ⟨true, 1, 30⟩) := by
    decide +kernel
  rw [htext, htext']
  refine ⟨?_, ?_⟩
  · exact hiso _ 1 _ (by decide) (by decide) (by decide) (by decide) hzone
  · exact hmillis (-1) _ (by decide) hclock

end DateText

end JsonPull
