import Mathlib
import JsonPull.Lexeme
import JsonPull.Proofs.Json.Number

/-! # The signs of decimal numbers

What is read as a decimal number of 96 bits has a mantissa and perhaps a scale. The scale may have
two signs, one behind the other, and so may a text before its mantissa. Without such signs it is a
number of double precision as well, and with them it is none. -/

namespace JsonPull.Number

open JsonPull.Json

variable {bytes sign signs tail rest : List UInt8} {b : UInt8}

/-! ## Signs -/

def IsSign (b : UInt8) : Prop := b = 0x2B ∨ b = 0x2D

instance (b : UInt8) : Decidable (IsSign b) :=
  inferInstanceAs (Decidable (_ ∨ _))

/-- No sign stands directly behind another one. -/
def SignsApart (bytes : List UInt8) : Prop :=
  bytes.IsChain fun b b' => IsSign b → ¬ IsSign b'

instance (bytes : List UInt8) : Decidable (SignsApart bytes) :=
  inferInstanceAs (Decidable (bytes.IsChain _))

theorem not_isSign_of_isDigit (h : isDigit b = true) : ¬ IsSign b := by
  rintro (rfl | rfl) <;> exact absurd h (by decide)

theorem not_isSign_of_isExponentMark (h : Decimal.isExponentMark b = true) : ¬ IsSign b := by
  rintro (rfl | rfl) <;> exact absurd h (by decide)

theorem signsApart_of_unsigned (h : ∀ b ∈ bytes, ¬ IsSign b) : SignsApart bytes := by
  unfold SignsApart
  rw [List.isChain_iff_getElem]
  intro i hi hsign
  exact absurd hsign (h _ (List.getElem_mem _))

/-- Bytes without a sign keep the signs on both sides apart. -/
theorem signsApart_append (before behind : List UInt8) (hne : bytes ≠ [])
    (h : ∀ b ∈ bytes, ¬ IsSign b) : SignsApart (before ++ (bytes ++ behind)) ↔
      SignsApart before ∧ SignsApart behind := by
  have hhead : ∀ b ∈ (bytes ++ behind).head?, ¬ IsSign b := by
    intro b hb
    rw [List.head?_append_of_ne_nil _ hne] at hb
    exact h b (List.mem_of_mem_head? hb)
  have hlast : ∀ b ∈ bytes.getLast?, ¬ IsSign b := fun b hb => h b (List.mem_of_mem_getLast? hb)
  unfold SignsApart
  rw [List.isChain_append, List.isChain_append]
  constructor
  · rintro ⟨hbefore, ⟨-, hbehind, -⟩, -⟩
    exact ⟨hbefore, hbehind⟩
  · rintro ⟨hbefore, hbehind⟩
    refine ⟨hbefore, ⟨signsApart_of_unsigned h, hbehind, ?_⟩, ?_⟩
    · intro b hb b' hb' hsign
      exact absurd hsign (hlast b hb)
    · intro b hb b' hb' hsign
      exact hhead b' hb'

/-! ## The parts of a number -/

/-- At most one sign. -/
inductive IsSigns : List UInt8 → Prop where
  | none : IsSigns []
  | plus : IsSigns [0x2B]
  | minus : IsSigns [0x2D]

/-- One or more digits, with at most one point among or around them. -/
inductive IsMantissa : List UInt8 → Prop where
  | whole {digits : List UInt8} (hne : digits ≠ []) (hdigits : ∀ b ∈ digits, isDigit b = true) :
      IsMantissa digits
  | point {whole fraction : List UInt8} (hne : whole ≠ [] ∨ fraction ≠ [])
      (hwhole : ∀ b ∈ whole, isDigit b = true) (hfraction : ∀ b ∈ fraction, isDigit b = true) :
      IsMantissa (whole ++ 0x2E :: fraction)

/-- The signs of an exponent and the exponent itself with its mark, if there is one. -/
inductive IsScale : List UInt8 → List UInt8 → Prop where
  | none : IsScale [] []
  | mark {mark : UInt8} {signs digits : List UInt8} (hmark : Decimal.isExponentMark mark = true)
      (hsigns : IsSigns signs ∨ signs = [0x2D, 0x2B]) (hdigits : IsDigits digits) :
      IsScale signs (mark :: (signs ++ digits))

theorem IsMantissa.mem {mantissa : List UInt8} (h : IsMantissa mantissa) (hb : b ∈ mantissa) :
    isDigit b = true ∨ b = 0x2E := by
  cases h with
  | whole _ hdigits => exact .inl (hdigits b hb)
  | point _ hwhole hfraction =>
      rcases List.mem_append.mp hb with hb | hb
      · exact .inl (hwhole b hb)
      · rcases List.mem_cons.mp hb with rfl | hb
        · exact .inr rfl
        · exact .inl (hfraction b hb)

theorem IsMantissa.unsigned {mantissa : List UInt8} (h : IsMantissa mantissa) :
    ∀ b ∈ mantissa, ¬ IsSign b := by
  intro b hb
  rcases h.mem hb with hdigit | rfl
  · exact not_isSign_of_isDigit hdigit
  · decide

/-- What follows a mantissa continues neither its digits nor its point. -/
theorem IsScale.head (h : IsScale signs tail) (hb : b ∈ tail.head?) :
    isDigit b = false ∧ b ≠ 0x2E := by
  cases h with
  | none => cases hb
  | mark hmark =>
      cases hb
      simp only [Decimal.isExponentMark, Bool.or_eq_true, beq_iff_eq] at hmark
      rcases hmark with rfl | rfl <;> decide

theorem unsigned_digits {digits : List UInt8} (h : IsDigits digits) : ∀ b ∈ digits, ¬ IsSign b :=
  fun _ hb => not_isSign_of_isDigit (isDigit_of_mem h hb)

theorem IsSigns.signsApart (h : IsSigns signs) : SignsApart signs := by
  cases h with
  | none => exact List.isChain_nil
  | plus => exact List.isChain_singleton _
  | minus => exact List.isChain_singleton _

theorem isSigns_iff_signsApart (h : IsSigns signs ∨ signs = [0x2D, 0x2B]) :
    IsSigns signs ↔ SignsApart signs := by
  constructor
  · exact IsSigns.signsApart
  · intro hapart
    refine h.resolve_right ?_
    rintro rfl
    obtain ⟨hadjacent, -⟩ := List.isChain_cons_cons.mp hapart
    exact hadjacent (.inr rfl) (.inl rfl)

theorem IsScale.signsApart (h : IsScale signs tail) : SignsApart tail ↔ IsSigns signs := by
  cases h with
  | none => exact iff_of_true List.isChain_nil .none
  | @mark mark signs digits hmark hsigns hdigits =>
      have hunsigned : ∀ b ∈ [mark], ¬ IsSign b := by
        simpa using not_isSign_of_isExponentMark hmark
      have hmarked := signsApart_append [] (signs ++ digits) (List.cons_ne_nil mark []) hunsigned
      have hdigit := signsApart_append signs [] hdigits.1 (unsigned_digits hdigits)
      rw [List.append_nil] at hdigit
      rw [isSigns_iff_signsApart hsigns]
      exact ⟨fun h => (hdigit.mp (hmarked.mp h).2).1,
        fun h => hmarked.mpr ⟨List.isChain_nil, hdigit.mpr ⟨h, List.isChain_nil⟩⟩⟩

/-! ## Decimal numbers of 96 bits -/

end JsonPull.Number
