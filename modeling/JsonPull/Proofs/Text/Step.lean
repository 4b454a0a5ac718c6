import JsonPull.Proofs.Text.Utf8

/-! # Steps through bytes

A step takes a character where its encoding stands, and a single byte elsewhere. The first byte tells
how far to look. -/

namespace JsonPull.Text

variable {bytes rest : List UInt8} {lead : UInt8} {c : Char}

/-- A step from the front of some bytes: a character and how many of the bytes are its own. Where the
encoding of a character stands, it is this character with its encoding; elsewhere it is U+FFFD with a
single byte; and there is none exactly at the end. -/
structure IsStep (bytes : List UInt8) (step : Option (Char × Nat)) : Prop where
  wellFormed : ∀ c, encode c <+: bytes → step = some (c, (encode c).length)
  illFormed : bytes ≠ [] → (∀ c, ¬encode c <+: bytes) → step = some (replacement, 1)
  ended : step = none ↔ bytes = []

/-- The step that the first byte announces, unless its sequence is broken or cut off. -/
def step? : List UInt8 → Option (Char × Nat)
  | [] => none
  | lead :: rest =>
    match decodeSequence? ((lead :: rest).take (sequenceLength lead)) with
    | some c => some (c, sequenceLength lead)
    | none => some (replacement, 1)

theorem step?_ascii (h : lead < 0x80) (rest : List UInt8) :
    step? (lead :: rest) = some (Char.ofNat lead.toNat, 1) := by
  have hdecode : decodeSequence? [lead] = some (Char.ofNat lead.toNat) := by
    rw [decodeSequence?, if_pos h]
  have hlength : sequenceLength lead = 1 := sequenceLength_of_decodeSequence? hdecode
  rw [step?, hlength, List.take_succ_cons, List.take_zero, hdecode]

/-- A byte beyond ASCII is no character alone. -/
theorem step?_alone (h : ¬lead < 0x80) (hlength : sequenceLength lead = 1) (rest : List UInt8) :
    step? (lead :: rest) = some (replacement, 1) := by
  have hdecode : decodeSequence? [lead] = none := by
    rw [decodeSequence?, if_neg h]
  rw [step?, hlength, List.take_succ_cons, List.take_zero, hdecode]

/-- The end of the bytes cuts off a sequence. -/
theorem step?_short (h : (lead :: rest).length < sequenceLength lead) :
    step? (lead :: rest) = some (replacement, 1) := by
  have hdecode : decodeSequence? (lead :: rest) = none := by
    by_contra hsome
    obtain ⟨c, hc⟩ := Option.ne_none_iff_exists'.mp hsome
    exact absurd (sequenceLength_of_decodeSequence? hc) (Nat.ne_of_gt h)
  rw [step?, List.take_of_length_le h.le, hdecode]

/-- The first byte of a character announces all of its bytes. -/
theorem take_sequenceLength (h : encode c <+: lead :: rest) :
    (lead :: rest).take (sequenceLength lead) = encode c ∧
      sequenceLength lead = (encode c).length := by
  obtain ⟨more, hmore⟩ := h
  have hdecode := decodeSequence?_encode c
  cases hencode : encode c with
  | nil => exact absurd hencode String.utf8EncodeChar_ne_nil
  | cons first tail =>
      rw [hencode] at hmore hdecode
      have hlength := sequenceLength_of_decodeSequence? hdecode
      obtain rfl : first = lead := List.head_eq_of_cons_eq hmore
      rw [← hmore, hlength, List.length_cons]
      exact ⟨List.take_left' rfl, rfl⟩

theorem step?_encode (h : encode c <+: bytes) : step? bytes = some (c, (encode c).length) := by
  cases bytes with
  | nil => exact absurd (List.prefix_nil.mp h) String.utf8EncodeChar_ne_nil
  | cons lead rest =>
      obtain ⟨htake, hlength⟩ := take_sequenceLength h
      rw [step?, htake, decodeSequence?_encode, hlength]

theorem isStep_step? (bytes : List UInt8) : IsStep bytes (step? bytes) := by
  refine ⟨fun c h => step?_encode h, fun hne hnone => ?_, ?_⟩
  · obtain ⟨lead, rest, rfl⟩ := List.exists_cons_of_ne_nil hne
    cases hdecode : decodeSequence? ((lead :: rest).take (sequenceLength lead)) with
    | none => rw [step?, hdecode]
    | some c =>
        refine absurd ?_ (hnone c)
        rw [← eq_encode_of_decodeSequence? hdecode]
        exact List.take_prefix _ _
  · cases bytes with
    | nil => exact ⟨fun _ => rfl, fun _ => rfl⟩
    | cons lead rest =>
        rw [step?]
        split <;> exact ⟨nofun, nofun⟩

end JsonPull.Text
