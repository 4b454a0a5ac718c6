import JsonPull.Proofs.Bytes.Array
import JsonPull.Proofs.Bytes.Payload
import JsonPull.Proofs.Quotation.Requests

/-! # Calls that read bytes

Bytes are written as a string or as an array. However they are written, a call for bytes reads them as
one scalar. -/

namespace JsonPull

open JsonPull.Json JsonPull.Quotation

variable {settings : Settings} {stream text blank rest data : List UInt8} {s : State} {pos : Nat}

/-- The values that write bytes where so many containers are open. A string holds their Base64 with
blanks anywhere, or a GUID, and an array opens one more container. -/
inductive WritesBytes (settings : Settings) (depth : Nat) : List UInt8 → List UInt8 → Prop where
  | base64 {quote : UInt8} {items : List Item} {body data : List UInt8}
      (hquote : quote = 0x22 ∨ quote = 0x27) (hbody : Spells quote items body)
      (htext : Spaced (Base64.encode data) (Quotation.text items).toList) :
      WritesBytes settings depth (quote :: (body ++ [quote])) data
  | guid {quote : UInt8} {items : List Item} {body data : List UInt8}
      (hquote : quote = 0x22 ∨ quote = 0x27) (hbody : Spells quote items body)
      (htext : Guid.IsText (Text.toBytes (Quotation.text items)) data) :
      WritesBytes settings depth (quote :: (body ++ [quote])) data
  | array {text data : List UInt8} (harray : IsByteArray text data)
      (hdepth : ∀ limit, settings.maxDepth = some limit → depth < limit) :
      WritesBytes settings depth text data

/-- What bytes are written as begins like a value. -/
theorem WritesBytes.first {depth : Nat} (h : WritesBytes settings depth text data) :
    ∃ b more, text = b :: more ∧ Reading.StartsValue b ∧ Reading.Solid b := by
  cases h with
  | base64 hquote | guid hquote =>
      obtain ⟨hlead, hsolid⟩ := Reading.lead_quote hquote
      have hstart : Reading.StartsValue _ :=
        Reading.startsValue_of_scalar? (c := .read) (by rw [hlead]; rfl)
      exact ⟨_, _, rfl, hstart, hsolid⟩
  | array harray =>
      have hstart : Reading.StartsValue 0x5B := ⟨by rintro (_ | _ | _) <;> decide, by decide, by decide⟩
      cases harray <;> exact ⟨_, _, rfl, hstart, by decide, rfl⟩

/-! ## Every form writes them -/

theorem flatMap_encode_plain (h : ∀ b ∈ text, IsPlain b) :
    (text.map fun b => Char.ofNat b.toNat).flatMap Text.encode = text := by
  induction text with
  | nil => rfl
  | cons b text ih =>
      rw [List.map_cons, List.flatMap_cons, Text.encode_ofByte (h b (by simp)).1,
        ih fun b' hb' => h b' (by simp [hb'])]
      rfl

/-- Bytes that stand for themselves are the text of a string. -/
theorem toList_text_plain (h : ∀ b ∈ text, IsPlain b) :
    (Quotation.text (text.map .byte)).toList = text.map fun b => Char.ofNat b.toNat := by
  have hdecode := Text.decodeLossy_encode (text.map fun b => Char.ofNat b.toNat)
  rw [flatMap_encode_plain h] at hdecode
  rw [text_bytes, Text.ofBytes, hdecode, String.toList_ofList]

/-- Any bytes are written as their Base64 in quotes and by an array, and sixteen as a GUID. -/
theorem exists_writesBytes (settings : Settings) (depth : Nat) (data : List UInt8) :
    WritesBytes settings depth (0x22 :: (Base64.encode data ++ [0x22])) data ∧
      (data.length = 16 → ∃ text, Guid.IsText text data ∧
        WritesBytes settings depth (0x22 :: (text ++ [0x22])) data) ∧
      ∃ text, IsByteArray text data := by
  have hspells : ∀ text : List UInt8, (∀ b ∈ text, IsPlain b) →
      Spells 0x22 (text.map .byte) text := fun text hplain =>
    spells_bytes fun b hb => (hplain b hb).2
  refine ⟨?_, fun hlength => ?_, exists_isByteArray data⟩
  · have hplain : ∀ b ∈ Base64.encode data, IsPlain b := fun b hb =>
      (Base64.byte_spec b (Base64.mem_encode data b hb)).1
    refine .base64 (.inl rfl) (hspells _ hplain) ?_
    rw [toList_text_plain hplain]
    exact spaced_ascii fun b hb => (hplain b hb).1
  · obtain ⟨text, htext⟩ := Guid.exists_isText hlength
    refine ⟨text, htext, .guid (.inl rfl) (hspells _ htext.isPlain) ?_⟩
    rw [Text.toBytes, toList_text_plain htext.isPlain, flatMap_encode_plain htext.isPlain]
    exact htext

namespace Reading

theorem lands_requestedValue_string {quote : UInt8} {items : List Item} {body : List UInt8}
    (hdata : Payload.ofText (Quotation.text items) = .ok data)
    (hquote : quote = 0x22 ∨ quote = 0x27) (hbody : Spells quote items body)
    (hblank : IsBlank blank) (h : Ahead stream pos (blank ++ (quote :: (body ++ [quote]) ++ rest))) :
    (requestedValue .bytes).Lands settings stream s pos
      (Converted settings stream rest s (.ok (.bytes, .bytes data))) := by
  rw [List.cons_append, List.append_assoc, List.singleton_append] at h
  obtain ⟨hlead, hsolid⟩ := lead_quote hquote
  have hx : scalar? (.readAs .bytes) (Lead.ofByte quote) = some (do
      stringValue quote .bytes
      convertText .bytes) := by
    rw [hlead]
    rfl
  refine lands_requestedValue hx hblank hsolid h fun s' pos' hs ha => Succeeds.lands ?_
  rw [succeeds_bind]
  refine (succeeds_stringValue_bytes hdata hquote hbody ha).mono fun _ s'' pos'' hpublished => ?_
  rw [convertText_none rfl, succeeds_pure]
  exact ⟨rfl, hpublished.of_same hs⟩

theorem lands_requestedValue_array (harray : IsByteArray text data)
    (hdepth : ∀ limit, settings.maxDepth = some limit → s.frames.length < limit)
    (hblank : IsBlank blank) (h : Ahead stream pos (blank ++ (text ++ rest))) :
    (requestedValue .bytes).Lands settings stream s pos
      (Converted settings stream rest s (.ok (.bytes, .bytes data))) := by
  obtain ⟨more, rfl⟩ : ∃ more, text = 0x5B :: more := by
    cases harray <;> exact ⟨_, rfl⟩
  refine lands_skipping hblank.isSpace ⟨by decide, rfl⟩ h fun s' pos' hs ha => ?_
  have hread : (do advance 1; openContainer .array .empty; byteArray : Reading Unit).Lands settings
      stream s' pos' fun r =>
        Converted settings stream rest s (.ok (.bytes, .bytes data)) (r.map fun _ => ()) :=
    ((succeeds_byteArray harray (hs.frames_eq ▸ hdepth) ha).mono fun _ _ _ hpublished =>
      ⟨rfl, hpublished.of_same hs⟩).lands
  have hstopped := hread.stopped ()
  rw [bind_pure_comp] at hstopped
  exact hstopped

/-- Bytes are published as a scalar in whatever form they are written. -/
theorem lands_requestedValue_bytes (hwrites : WritesBytes settings s.frames.length text data)
    (hblank : IsBlank blank) (h : Ahead stream pos (blank ++ (text ++ rest))) :
    (requestedValue .bytes).Lands settings stream s pos
      (Converted settings stream rest s (.ok (.bytes, .bytes data))) := by
  cases hwrites with
  | base64 hquote hbody htext =>
      exact lands_requestedValue_string (Payload.ofText_base64 htext) hquote hbody hblank h
  | guid hquote hbody htext =>
      exact lands_requestedValue_string (Payload.ofText_guid htext) hquote hbody hblank h
  | array harray hdepth => exact lands_requestedValue_array harray hdepth hblank h

end Reading

open Reading

namespace Tokenizer

variable {t : Tokenizer}

theorem Sound.reads_bytes (h : t.Sound stream) (hexpects : t.nextPhase.expectsValue = true)
    (hwrites : WritesBytes t.options.settings t.state.frames.length text data)
    (hfaces : t.Faces stream (text ++ rest)) :
    t.Reads (.readAs .bytes) (some (.bytes (some data), .bytes, .bytes data)) ∧
      Published t.options.settings stream .bytes (some (.bytes data)) rest t.state
        (t.call (.readAs .bytes)).2.state (t.call (.readAs .bytes)).2.feed.window.cursor := by
  obtain ⟨b, more, rfl, hstart, hsolid⟩ := hwrites.first
  obtain ⟨before, happroach, hahead⟩ := hfaces
  have hvalue : ∀ s' pos' blank, Arrives t.options.settings t.state.clearSlot s' → IsBlank blank →
      Ahead stream pos' (blank ++ b :: (more ++ rest)) →
      (requestedValue .bytes).Lands t.options.settings stream s' pos' fun r s'' pos'' => r = .ok () ∧
        Published t.options.settings stream .bytes (some (.bytes data)) rest t.state s'' pos'' := by
    intro s' pos' blank harrives hblank ha
    have hdepth : s'.frames.length = t.state.frames.length := congrArg List.length harrives.frames_eq
    refine (lands_requestedValue_bytes (hdepth ▸ hwrites) hblank ha).mono ?_
    rintro _ s'' pos'' ⟨rfl, ⟨slot, hslot, hsame⟩, ha'⟩
    exact ⟨rfl, ⟨slot, hslot, (harrives.publishScalar .bytes slot true).trans hsame⟩, ha'⟩
  have hprogram : (Call.readAs .bytes).program.Lands t.options.settings stream t.state
      t.feed.window.cursor _ := Call.lands_readAs hstart hsolid happroach hexpects hahead hvalue
  obtain ⟨u, ⟨rfl, hpublished⟩, hresult, hvalue⟩ :=
    call_of_program (h.call (.readAs .bytes)).1 (h.call (.readAs .bytes)).2.view
      (hprogram.mono fun r s' pos' hr => ⟨r, hr, by cases r <;> rfl⟩)
  exact ⟨reads_of_published hresult hvalue hpublished, hpublished⟩

/-- Bytes are read in every form. Where a value is due, a call for bytes answers those that are
written there, as the Base64 of a string, as a GUID or as an array. It leaves the same phase, the same
open containers with the same indices and the same value, and the rest of the source, however the
source splits its bytes. -/
theorem bytes_in_every_form (options : Options) {source : Source} (hsteady : source.Steady)
    (pool : Pool) (heeds : Bool) (calls : List Call) {t : Tokenizer}
    (ht : (ofSource options source pool heeds).afterAll (calls.map .call) = t)
    (hexpects : t.nextPhase.expectsValue = true) {text rest data : List UInt8}
    (hwrites : WritesBytes options.settings t.state.frames.length text data)
    (hfaces : t.Faces source.bytes (text ++ rest)) :
    t.Reads (.readAs .bytes) (some (.bytes (some data), .bytes, .bytes data)) ∧
      Published options.settings source.bytes .bytes (some (.bytes data)) rest t.state
        (t.call (.readAs .bytes)).2.state (t.call (.readAs .bytes)).2.feed.window.cursor := by
  have hsound : t.Sound source.bytes :=
    ht ▸ (sound_ofSource options hsteady pool heeds).afterAll calls
  have hoptions : t.options = options := ht ▸ options_afterAll _ calls
  rw [← hoptions] at hwrites ⊢
  exact hsound.reads_bytes hexpects hwrites hfaces

/-- In an array, behind `7,`: `[0x1F/*]*/, 2]` as two bytes. -/
theorem bytes_in_every_form_array :
    let options : Options := { initialCapacity := 1, maxDepth := some 2, surfaceComments := true }
    let source : Source :=
      { script := [.bytes ⟨#[0x5B, 0x37, 0x2C, 0x5B, 0x30, 0x78]⟩ 0,
          .bytes ⟨#[0x31, 0x46, 0x2F, 0x2A, 0x5D, 0x2A, 0x2F, 0x2C, 0x20, 0x32, 0x5D, 0x5D]⟩ 0],
        limit := some 5 }
    let t := (ofSource options source {} false).afterAll ([.read, .read].map .call)
    t.state.frames.length = 1 ∧
      t.Reads (.readAs .bytes) (some (.bytes (some [0x1F, 2]), .bytes, .bytes [0x1F, 2])) ∧
      Published options.settings source.bytes .bytes (some (.bytes [0x1F, 2])) [0x5D] t.state
        (t.call (.readAs .bytes)).2.state (t.call (.readAs .bytes)).2.feed.window.cursor := by
  intro options source t
  have hsteady : source.Steady := by decide
  have hphase : t.phase = .postValue := by decide +kernel
  have hexpects : t.nextPhase.expectsValue = true := by decide +kernel
  have hdepth : t.state.frames.length = 1 := by decide +kernel
  have hbody : ¬ ([0x2A, 0x2F] : List UInt8) <:+: [0x5D] ++ [0x2A] := by decide
  have hhex : List.Forall₂ IsHex [0x31, 0x46] [1, 15] :=
    .cons (.inl (by decide)) (.cons (.inr (.inr (by decide))) .nil)
  have hfirst : IsByteText [0x30, 0x78, 0x31, 0x46] 0x1F :=
    .radix (.hex (.inl rfl) (.mk hhex (by decide) (by decide)))
  have hwhole : IsWhole [0x32] := by
    refine ⟨⟨by decide, ?_⟩, by decide⟩
    simp
  have hsecond : IsByteText [0x32] 2 := .decimal (.unsigned hwhole)
  have hspace : Gap [0x20] := .blank (c := ' ') (by decide) .nil
  let text : List UInt8 :=
    [0x5B, 0x30, 0x78, 0x31, 0x46, 0x2F, 0x2A, 0x5D, 0x2A, 0x2F, 0x2C, 0x20, 0x32, 0x5D]
  have harray : IsByteArray text [0x1F, 2] :=
    .elements (.comma .nil hfirst (.comment (.block hbody) .nil) (.last hspace hsecond .nil))
  have hahead : source.bytes.drop t.feed.window.cursor = ([] ++ 0x2C :: []) ++ (text ++ [0x5D]) := by
    decide +kernel
  have hfaces : t.Faces source.bytes (text ++ [0x5D]) :=
    ⟨_, .comma hphase isBlank_nil isBlank_nil, hahead⟩
  have hlimit : ∀ limit, options.settings.maxDepth = some limit → t.state.frames.length < limit := by
    rw [hdepth]
    rintro _ ⟨⟩
    decide
  have hreads := bytes_in_every_form options hsteady {} false [.read, .read] (t := t) rfl hexpects
    (.array harray hlimit) hfaces
  exact ⟨hdepth, hreads⟩

end Tokenizer

end JsonPull
