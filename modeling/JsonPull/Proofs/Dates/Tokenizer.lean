import JsonPull.Proofs.Dates.Written
import JsonPull.Proofs.Quotation.Requests

/-! # Calls that read dates

Where dates are looked for, a string is a date if its text is that of a written date, and else it
stays a string. The minutes of an offset may be beyond those of a clock. -/

namespace JsonPull

open JsonPull.DateText JsonPull.Json JsonPull.Quotation

/-- More minutes than a clock shows, in two digits and within a day. -/
def DateText.Offset.IsBeyondClock (o : Offset) : Prop :=
  60 ≤ o.minutes ∧ o.minutes ≤ 99 ∧ o.hours * 60 + o.minutes < 1440

theorem DateText.isRead_eq :
    Offset.IsRead = fun o => o.IsClock ∨ o.IsBeyondClock := by
  funext o
  exact propext Offset.isRead_iff

/-- A text is a date in either mode if and only if it is that of a written date. -/
theorem DateText.isSome_ofBytes?_iff (keepOffset : Bool) (bytes : List UInt8) :
    (ofBytes? keepOffset bytes).isSome = true ↔
      ∃ w : Written, w.Has Offset.IsRead ∧ w.text = bytes := by
  rw [Option.isSome_iff_exists]
  constructor
  · rintro ⟨date, hdate⟩
    obtain ⟨w, hread, htext, -⟩ := ofBytes?_eq_some_iff.mp hdate
    exact ⟨w, hread, htext⟩
  · rintro ⟨w, hread, htext⟩
    exact ⟨w.date keepOffset, ofBytes?_eq_some_iff.mpr ⟨w, hread, htext, rfl⟩⟩

namespace Reading

variable {dates : DateHandling} {text : String} {w : Written}

/-- Whether dates keep the offsets that they are written in. -/
def keepsOffset (dates : DateHandling) : Bool :=
  dates == .dateTimeOffset

theorem dateOf?_eq (hdates : dates ≠ .none) :
    dateOf? dates text = ofBytes? (keepsOffset dates) (Text.toBytes text) := by
  cases dates with
  | none => exact absurd rfl hdates
  | dateTime => rfl
  | dateTimeOffset => rfl

theorem textEntry_date (hdates : dates ≠ .none) (hread : w.Has Offset.IsRead)
    (htext : w.text = Text.toBytes text) :
    textEntry dates text = (.date, .date (w.date (keepsOffset dates))) := by
  unfold textEntry
  rw [dateOf?_eq hdates, ofBytes?_eq_some_iff.mpr ⟨w, hread, htext, rfl⟩]

theorem textEntry_string (hdates : dates ≠ .none)
    (hnone : ∀ w : Written, w.Has Offset.IsRead → w.text ≠ Text.toBytes text) :
    textEntry dates text = (.string, .string text) := by
  have hdate : ofBytes? (keepsOffset dates) (Text.toBytes text) = none := by
    rw [← Option.not_isSome_iff_eq_none, isSome_ofBytes?_iff]
    rintro ⟨w, hread, htext⟩
    exact hnone w hread htext
  unfold textEntry
  rw [dateOf?_eq hdates, hdate]

end Reading

open Reading

namespace Tokenizer

/-- A text is accepted as a date in either mode if and only if it is that of a written date whose
offset, if it has one, has the hours and minutes of a clock, or has from 60 to 99 minutes and stays
within a day. Where a value is due, a call that looks for dates reads a string of such a text as that
date, and every other string as its text. -/
theorem dates_are_written (keepOffset : Bool) (bytes : List UInt8) :
    ((ofBytes? keepOffset bytes).isSome = true ↔
      ∃ w : Written, w.Has (fun o => o.IsClock ∨ o.IsBeyondClock) ∧ w.text = bytes) ∧
    ∀ (options : Options) (source : Source), source.Steady → ∀ (pool : Pool) (heeds : Bool)
      (calls : List Call) (t : Tokenizer),
      (ofSource options source pool heeds).afterAll (calls.map .call) = t →
      t.nextPhase.expectsValue = true → ∀ (c : Call) (dates : DateHandling),
      c.request.dates options.settings = dates → dates ≠ .none →
      ∀ (quote : UInt8) (items : List Item) (body rest : List UInt8), quote = 0x22 ∨ quote = 0x27 →
      Spells quote items body → Text.toBytes (Quotation.text items) = bytes →
      t.Faces source.bytes (quote :: (body ++ quote :: rest)) →
      (∀ w : Written, w.Has (fun o => o.IsClock ∨ o.IsBeyondClock) → w.text = bytes →
        t.Reads c (some (c.answer (some (.date (w.date (keepsOffset dates)))) c.done, .date,
          .date (w.date (keepsOffset dates))))) ∧
      ((∀ w : Written, w.Has (fun o => o.IsClock ∨ o.IsBeyondClock) → w.text ≠ bytes) →
        t.Reads c (some (c.answer (some (.string (Quotation.text items))) c.done, .string,
          .string (Quotation.text items)))) := by
  rw [← isRead_eq]
  refine ⟨isSome_ofBytes?_iff keepOffset bytes, ?_⟩
  rintro options source hsteady pool heeds calls t rfl hexpects c dates hrequest hdates quote items
    body rest hquote hbody rfl hfaces
  have hsound := (sound_ofSource options hsteady pool heeds).afterAll calls
  have hoptions : ((ofSource options source pool heeds).afterAll (calls.map .call)).options =
      options := options_afterAll _ calls
  have hform : c.request ≠ .bytes ∧ c.request.conversion? = none := by
    cases hc : c.request <;> simp_all [Request.dates, Request.conversion?]
  rw [← hoptions] at hrequest
  constructor
  · intro w hread htext
    refine hsound.reads_text hexpects hform.1 hform.2 hquote hbody hfaces ?_
    rw [hrequest]
    exact textEntry_date hdates hread htext
  · intro hnone
    refine hsound.reads_text hexpects hform.1 hform.2 hquote hbody hfaces ?_
    rw [hrequest]
    exact textEntry_string hdates hnone

/-- In an array, `"2020-01-02T03:04:05-01:75"` is a date more than two hours behind. -/
theorem dates_are_written_west :
    let body := Text.toBytes "2020-01-02T03:04:05-01:75"
    let source : Source :=
      { script := [.bytes ⟨([0x5B, 0x22] ++ body.take 12).toArray⟩ 0,
          .bytes ⟨(body.drop 12 ++ [0x22, 0x5D]).toArray⟩ 0], limit := some 5 }
    let t := (ofSource { initialCapacity := 1 } source {} false).afterAll ([.read].map .call)
    let date : Timestamp := .offset (Calendar.Local.instant ⟨2020, 1, 2, 5, 19, 5, 0⟩) (-8100)
    t.Reads (.readAs .dateTimeOffset)
      (some (.dateTimeOffset (some (.parsed date)), .date, .date date)) := by
  intro body source t date
  have hsteady : source.Steady := by decide +kernel
  have hexpects : t.nextPhase.expectsValue = true := by decide +kernel
  have hphase : t.state.phase ≠ .postValue := by decide +kernel
  have hbody : Spells 0x22 (body.map .byte) body := spells_bytes (by decide +kernel)
  have hahead : source.bytes.drop t.feed.window.cursor = [] ++ (0x22 :: (body ++ 0x22 :: [0x5D])) := by
    decide +kernel
  have hfaces : t.Faces source.bytes _ := ⟨[], .blanks hphase isBlank_nil, hahead⟩
  let w : Written := .iso ⟨2020, 1, 2, 3, 4, 5, 0⟩ 0 (.offset .colon ⟨true, 1, 75⟩)
  have hbeyond : Offset.IsBeyondClock ⟨true, 1, 75⟩ := ⟨by decide, by decide, by decide⟩
  have hw : w.Has fun o => o.IsClock ∨ o.IsBeyondClock :=
    .iso ⟨by decide, by decide, by decide, by decide⟩ ⟨.inr hbeyond, nofun⟩
  have htext : w.text = Text.toBytes (Quotation.text (body.map .byte)) := by decide +kernel
  have hdate : w.date (keepsOffset .dateTimeOffset) = date := by decide +kernel
  have hreads := ((dates_are_written true _).2 { initialCapacity := 1 } source hsteady {} false
    [.read] t rfl hexpects (.readAs .dateTimeOffset) .dateTimeOffset rfl nofun 0x22 _ body _
    (.inl rfl) hbody rfl hfaces).1 w hw htext
  rw [hdate] at hreads
  exact hreads

/-- The strings `"2020-01-02T03:04:05+00:99"` and `"/Date(0+0099)/"` are dates, although no clock
shows ninety-nine minutes. -/
theorem minutes_beyond_clock_are_dates :
    let options : Options := { initialCapacity := 1 }
    let iso : Source :=
      { script := [.bytes ⟨(0x22 :: Text.toBytes "2020-01-02T03:04:05+00:99" ++ [0x22]).toArray⟩ 0] }
    let millis : Source :=
      { script := [.bytes ⟨(0x22 :: Text.toBytes "/Date(0+0099)/" ++ [0x22]).toArray⟩ 0] }
    let date : Timestamp := .utc (Calendar.Local.instant ⟨2020, 1, 2, 1, 25, 5, 0⟩)
    (ofSource options iso {} false).Reads .read (some (.found true, .date, .date date)) ∧
      (ofSource options millis {} false).Reads .read
        (some (.found true, .date, .date (.utc { seconds := 0, nanos := 0 }))) ∧
      ¬ Offset.IsClock ⟨false, 0, 99⟩ := by
  intro options iso millis date
  have hiso : ((ofSource options iso {} false).call .read).1 = .ok (.found true) ∧
      ((ofSource options iso {} false).call .read).2.token = .scalar .date ∧
      ((ofSource options iso {} false).call .read).2.value? = some (.date date) := by
    decide +kernel
  have hmillis : ((ofSource options millis {} false).call .read).1 = .ok (.found true) ∧
      ((ofSource options millis {} false).call .read).2.token = .scalar .date ∧
      ((ofSource options millis {} false).call .read).2.value? =
        some (.date (.utc { seconds := 0, nanos := 0 })) := by
    decide +kernel
  exact ⟨hiso, hmillis, by decide⟩

end Tokenizer

end JsonPull
