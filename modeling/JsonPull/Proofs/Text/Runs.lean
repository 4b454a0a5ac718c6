import JsonPull.Proofs.Text.Utf8
import JsonPull.Text.Escape

/-! # Texts decoded in parts

What begins with no continuation byte is decoded apart from what stands before it. Units of UTF-16
are decoded as forgivingly as bytes are. -/

namespace JsonPull.Text

variable {bytes rest : List UInt8}

/-! ## Bytes -/

/-- What begins with no continuation byte. -/
def StandsApart (bytes : List UInt8) : Prop :=
  ∀ b ∈ bytes.head?, isContinuation b = false

theorem standsApart_nil : StandsApart [] :=
  nofun

/-- The first byte of a character continues no other. -/
theorem standsApart_encode (c : Char) (rest : List UInt8) : StandsApart (encode c ++ rest) := by
  have hdecode := decodeSequence?_encode c
  cases hencode : encode c with
  | nil => exact absurd hencode String.utf8EncodeChar_ne_nil
  | cons lead tail =>
      rw [hencode] at hdecode
      rintro b ⟨⟩
      by_contra hcontinues
      have hrange := (isContinuation_iff lead).mp (by simpa using hcontinues)
      have hlength := sequenceLength_of_decodeSequence? hdecode
      rw [sequenceLength_eq, if_neg (by omega), if_neg (by omega), if_neg (by omega)] at hlength
      obtain rfl : tail = [] := List.length_eq_zero_iff.mp (by omega)
      have hascii : ¬ lead < 0x80 := by
        rw [UInt8.lt_iff_toNat_lt]
        exact Nat.not_lt.mpr hrange.1
      rw [decodeSequence?, if_neg hascii] at hdecode
      cases hdecode

theorem takeWhile_take_append {p : UInt8 → Bool} (h : ∀ b ∈ rest.head?, p b = false) (n : Nat) :
    ((bytes ++ rest).take n).takeWhile p = (bytes.take n).takeWhile p := by
  induction bytes generalizing n with
  | nil =>
      cases rest with
      | nil => simp
      | cons b rest =>
          have hb := h b rfl
          cases n <;> simp [hb]
  | cons b bytes ih =>
      cases n with
      | zero => rfl
      | succ n =>
          rw [List.cons_append, List.take_succ_cons, List.take_succ_cons, List.takeWhile_cons,
            List.takeWhile_cons, ih]

/-- No sequence goes on in what stands apart. -/
theorem continuationCount_append (h : StandsApart rest) (lead : UInt8) :
    continuationCount lead (bytes ++ rest) = continuationCount lead bytes := by
  cases bytes with
  | nil =>
      cases rest with
      | nil => rfl
      | cons second rest => simp [continuationCount, isSecond, h second rfl]
  | cons second bytes => simp only [List.cons_append, continuationCount, takeWhile_take_append h]

theorem continuationCount_le (lead : UInt8) : continuationCount lead bytes ≤ bytes.length := by
  cases bytes with
  | nil => rfl
  | cons second bytes =>
      have hle : ((bytes.take (sequenceLength lead - 2)).takeWhile isContinuation).length ≤
          bytes.length :=
        (List.takeWhile_sublist _).length_le.trans (List.length_take_le' _ _)
      rw [continuationCount, List.length_cons]
      split <;> omega

theorem decodeLossyFrom_apart (h : StandsApart rest) {n : Nat} (hn : n ≤ bytes.length) :
    decodeLossyFrom n (bytes ++ rest) = decodeLossyFrom n bytes ++ decodeLossy rest := by
  induction bytes generalizing n with
  | nil =>
      obtain rfl := Nat.le_zero.mp hn
      rfl
  | cons b bytes ih =>
      cases n with
      | zero =>
          have hle : continuationCount b bytes ≤ bytes.length := continuationCount_le b
          simp only [List.cons_append, decodeLossyFrom, continuationCount_append h,
            List.take_append_of_le_length hle, ih hle]
      | succ n => exact ih (Nat.le_of_succ_le_succ hn)

/-- Parts of which the second stands apart are decoded one by one. -/
theorem decodeLossy_append (h : StandsApart rest) :
    decodeLossy (bytes ++ rest) = decodeLossy bytes ++ decodeLossy rest :=
  decodeLossyFrom_apart h (Nat.zero_le _)

theorem decodeLossy_encode_append (chars : List Char) (rest : List UInt8) :
    decodeLossy (chars.flatMap encode ++ rest) = chars ++ decodeLossy rest := by
  induction chars with
  | nil => rfl
  | cons c chars ih =>
      rw [List.flatMap_cons, List.append_assoc, decodeLossy_sequence (decodeSequence?_encode c), ih,
        List.cons_append]

/-! ## Units of UTF-16 -/

/-- The characters of units of UTF-16. A high surrogate and a low one behind it are one character;
any other surrogate is U+FFFD. -/
def decodeUnits : List Nat → List Char
  | [] => []
  | [unit] => [ofUnit unit]
  | unit :: next :: units =>
    if isHighSurrogate unit && isLowSurrogate next then ofPair unit next :: decodeUnits units
    else ofUnit unit :: decodeUnits (next :: units)

theorem ofUnit_high {unit : Nat} (h : isHighSurrogate unit = true) : ofUnit unit = replacement := by
  rw [ofUnit, h, Bool.true_or, if_pos rfl]

theorem decodeUnits_pair {high low : Nat} (hhigh : isHighSurrogate high = true)
    (hlow : isLowSurrogate low = true) (units : List Nat) :
    decodeUnits (high :: low :: units) = ofPair high low :: decodeUnits units := by
  rw [decodeUnits, hhigh, hlow, Bool.and_self, if_pos rfl]

/-- A unit that is no first half of a pair is a character of its own. -/
theorem decodeUnits_single {unit : Nat} {units : List Nat}
    (h : isHighSurrogate unit = true → ∀ next ∈ units.head?, isLowSurrogate next = false) :
    decodeUnits (unit :: units) = ofUnit unit :: decodeUnits units := by
  cases units with
  | nil => rfl
  | cons next units =>
      rw [decodeUnits, if_neg]
      rw [Bool.and_eq_true]
      rintro ⟨hhigh, hlow⟩
      rw [h hhigh next rfl] at hlow
      cases hlow

end JsonPull.Text
