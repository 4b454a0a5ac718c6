import JsonPull.Proofs.Json.Number
import JsonPull.Proofs.Json.Quoted

/-! # Integer literals

A literal writes an integer in base ten, or the bits of one in base sixteen or eight. What it writes
is stated by the digits alone; the conversions find the same integer. -/

namespace JsonPull

open JsonPull.Number JsonPull.Json

/-- One or more digits of a base up to sixteen, and the number that they write. -/
inductive Writes (base : Nat) : List UInt8 → Nat → Prop where
  | mk {bytes : List UInt8} {digits : List Nat} (h : List.Forall₂ IsHex bytes digits)
      (hlt : ∀ d ∈ digits, d < base) (hne : bytes ≠ []) :
      Writes base bytes (Nat.ofDigits base digits.reverse)

/-- The literals that write the bits of an integer. -/
inductive IsRadixLiteral : List UInt8 → Nat → Prop where
  | hex {mark : UInt8} {digits : List UInt8} {m : Nat} (hmark : mark = 0x78 ∨ mark = 0x58)
      (h : Writes 16 digits m) : IsRadixLiteral (0x30 :: mark :: digits) m
  | octal {digits : List UInt8} {m : Nat} (h : Writes 8 digits m) :
      IsRadixLiteral (0x30 :: digits) m

variable {bytes digits lexeme : List UInt8} {base m n : Nat} {z : Int} {b : UInt8}
  {settings : Settings}

/-! ## The decimal text of an integer -/

theorem toNat_of_isDigit {c : Char} (h : c.isDigit = true) : 0x30 ≤ c.toNat ∧ c.toNat ≤ 0x39 := by
  simpa [Char.isDigit, UInt32.le_iff_toNat_le] using h

/-- Only zero is written with a leading zero. -/
theorem head?_toDigits (hn : n ≠ 0) : (Nat.toDigits 10 n).head? ≠ some '0' := by
  induction n using Nat.strong_induction_on with
  | h n ih =>
      by_cases hlt : n < 10
      · rw [Nat.toDigits_of_lt_base hlt]
        interval_cases n <;> first | exact absurd rfl hn | decide
      · rw [Nat.toDigits_of_base_le (by decide) (Nat.le_of_not_lt hlt)]
        have hhead := ih (n / 10) (by omega) (by omega)
        cases hdigits : Nat.toDigits 10 (n / 10) with
        | nil =>
            have hlength := Nat.length_toDigits_pos (b := 10) (n := n / 10)
            simp [hdigits] at hlength
        | cons c more => simpa [hdigits] using hhead

/-- The digits of a text are bytes. -/
theorem flatMap_encode_digits (n : Nat) :
    (Nat.toDigits 10 n).flatMap Text.encode =
      (Nat.toDigits 10 n).map fun c => UInt8.ofNat c.toNat := by
  rw [List.map_eq_flatMap]
  refine List.flatMap_congr fun c hc => Text.encode_ascii ?_
  have hdigit := toNat_of_isDigit (Nat.isDigit_of_mem_toDigits (by decide) (by decide) hc)
  omega

theorem toNat_digit {c : Char} (hc : c ∈ Nat.toDigits 10 n) :
    (UInt8.ofNat c.toNat).toNat = c.toNat ∧ 0x30 ≤ c.toNat ∧ c.toNat ≤ 0x39 := by
  have hdigit := toNat_of_isDigit (Nat.isDigit_of_mem_toDigits (by decide) (by decide) hc)
  exact ⟨Text.toNat_ofNat (by omega), hdigit⟩

theorem isWhole_toDigits (n : Nat) : IsWhole ((Nat.toDigits 10 n).flatMap Text.encode) := by
  rw [flatMap_encode_digits]
  refine ⟨⟨?_, ?_⟩, ?_⟩
  · have hlength := Nat.length_toDigits_pos (b := 10) (n := n)
    exact mt List.map_eq_nil_iff.mp (List.ne_nil_of_length_pos hlength)
  · intro b hb
    obtain ⟨c, hc, rfl⟩ := List.mem_map.mp hb
    obtain ⟨hnat, hle, hge⟩ := toNat_digit hc
    rw [UInt8.le_iff_toNat_le, UInt8.le_iff_toNat_le, hnat]
    exact ⟨hle, hge⟩
  · intro hzero
    by_cases hn : n = 0
    · subst hn
      rfl
    · have hhead := head?_toDigits hn
      cases hdigits : Nat.toDigits 10 n with
      | nil => simp [hdigits] at hzero
      | cons c more =>
          have hc : c ∈ Nat.toDigits 10 n := by simp [hdigits]
          simp only [hdigits, List.map_cons, List.head?_cons, Option.some.injEq] at hzero hhead
          have hnat := congrArg UInt8.toNat hzero
          rw [(toNat_digit hc).1] at hnat
          have hchar : c = '0' := Char.toNat_inj.mp hnat
          exact absurd (congrArg some hchar) hhead

theorem ofDigits_toDigits (n : Nat) : ofDigits ((Nat.toDigits 10 n).flatMap Text.encode) = n := by
  have hfold : ∀ (chars : List Char), (∀ c ∈ chars, c ∈ Nat.toDigits 10 n) → ∀ start,
      (chars.map fun c => UInt8.ofNat c.toNat).foldl (fun n b => 10 * n + (b.toNat - 0x30)) start =
        Nat.ofDigitChars 10 chars start := by
    intro chars hchars
    induction chars with
    | nil => exact fun _ => rfl
    | cons c chars ih =>
        intro start
        rw [List.map_cons, List.foldl_cons, (toNat_digit (hchars c (by simp))).1,
          ih fun c hc => hchars c (List.mem_cons_of_mem _ hc)]
        rfl
  rw [flatMap_encode_digits, ofDigits, hfold _ fun _ hc => hc]
  exact Nat.ofDigitChars_ten_toDigits

/-- The decimal text of an integer is one of its texts in JSON. -/
theorem isInteger_toString (z : Int) : IsInteger (Text.toBytes (toString z)) z := by
  have hrepr : ∀ n : Nat, (Nat.repr n).toList = Nat.toDigits 10 n := fun n => by
    rw [← Nat.toString_eq_repr, Nat.toString_eq_ofList_toDigits, String.toList_ofList]
  rw [Int.toString_eq_repr, Int.repr_eq_if]
  split
  · rename_i hle
    have hinteger := IsInteger.unsigned (isWhole_toDigits z.toNat)
    rw [ofDigits_toDigits, Int.toNat_of_nonneg hle] at hinteger
    rwa [Text.toBytes, hrepr]
  · rename_i hlt
    have hinteger := IsInteger.negative (isWhole_toDigits (-z).toNat)
    rw [ofDigits_toDigits, Int.toNat_of_nonneg (by omega), Int.neg_neg] at hinteger
    rw [Text.toBytes, String.toList_append, List.flatMap_append, hrepr]
    exact hinteger

/-! ## Decimal integers as numbers of double precision -/

/-- A decimal integer is a numeral without a fraction and without an exponent. -/
theorem numeral_of_decimalInteger? (h : decimalInteger? lexeme = some z) :
    ∃ negative, (z ≠ 0 → negative = decide (z < 0)) ∧ Numeral.ofBytes? lexeme =
      some { negative, coefficient := z.natAbs, exponent := 0 } := by
  have hwhole : ∀ {digits : List UInt8}, IsDigits digits →
      Numeral.splitDigits digits = (digits, [], []) := by
    intro digits hdigits
    obtain ⟨htake, hdrop⟩ : (digits ++ []).takeWhile isDigit = digits ∧
        (digits ++ []).dropWhile isDigit = [] := takeWhile_digits hdigits (by simp)
    rw [List.append_nil] at htake hdrop
    unfold Numeral.splitDigits
    rw [htake, hdrop]
  have hnumeral : ∀ {digits : List UInt8} {n : Nat} {negative : Bool},
      ofDigits? 10 digits = some n → Numeral.splitSign lexeme = (negative, digits) → Numeral.ofBytes? lexeme =
        some { negative, coefficient := n, exponent := 0 } := by
    intro digits n negative hn hsplit
    have hdigits := digits_of_ofDigits? hn
    have hvalue : ofDecimalDigits digits = n := by
      rw [ofDecimalDigits_eq_foldl]
      exact Option.some.inj ((ofDigits?_digits hdigits).symm.trans hn)
    have hempty : digits.isEmpty = false := by simpa using hdigits.1
    simp [Numeral.ofBytes?, hsplit, hwhole hdigits, hempty, Numeral.exponent?, hvalue]
  unfold decimalInteger? at h
  split at h
  · rename_i digits
    cases hn : ofDigits? 10 digits with
    | none => simp [hn] at h
    | some n =>
        obtain rfl : -(n : Int) = z := by simpa [hn] using h
        refine ⟨true, fun hz => ?_, ?_⟩
        · exact (decide_eq_true (by omega)).symm
        · rw [hnumeral hn rfl, Int.natAbs_neg, Int.natAbs_natCast]
  · obtain ⟨n, hn, rfl⟩ := Option.map_eq_some_iff.mp h
    have hsplit := splitSign_digits (digits_of_ofDigits? hn) []
    rw [List.append_nil] at hsplit
    refine ⟨false, fun _ => (decide_eq_false ?_).symm, hnumeral hn hsplit⟩
    exact not_lt_of_ge (Int.natCast_nonneg n)

theorem foldDigits_eq_ofDigits (base : Nat) (digits : List Nat) :
    foldDigits base digits = Nat.ofDigits base digits.reverse := by
  rw [Nat.ofDigits_eq_foldr, List.foldr_reverse, foldDigits]
  simp [Nat.add_comm]

theorem exists_hex_of_mem {digits : List Nat} (h : List.Forall₂ IsHex bytes digits)
    (hb : b ∈ bytes) : ∃ d ∈ digits, IsHex b d := by
  induction h with
  | nil => cases hb
  | @cons b' d bytes digits hfirst hrest ih =>
      rcases List.mem_cons.mp hb with rfl | hb
      · exact ⟨d, by simp, hfirst⟩
      · obtain ⟨d', hd', hbd'⟩ := ih hb
        exact ⟨d', List.mem_cons_of_mem _ hd', hbd'⟩

/-- Digits are read as the number that they write. -/
theorem Writes.ofDigits? (h : Writes base bytes m) : ofDigits? base bytes = some m := by
  cases h with
  | @mk digits hhex hlt hne =>
      have hvalue : ∀ {b d}, IsHex b d → d < base → digitValue? base b = some d := by
        intro b d hb hd
        simp [digitValue?, hexValue?_hex hb, hd]
      refine ofDigits?_eq_some_iff.mpr ⟨hne, ?_, ?_⟩
      · intro b hb
        obtain ⟨d, hd, hbd⟩ := exists_hex_of_mem hhex hb
        simp [hvalue hbd (hlt d hd)]
      · rw [foldDigits_eq_ofDigits]
        congr 2
        clear hne
        induction hhex with
        | nil => rfl
        | cons hb hrest ih =>
            rw [List.filterMap_cons, hvalue hb (hlt _ (by simp)),
              ← ih fun d hd => hlt d (List.mem_cons_of_mem _ hd)]

theorem Writes.head (h : Writes base bytes m) :
    ∃ b more d, bytes = b :: more ∧ IsHex b d ∧ d < base := by
  cases h with
  | mk hhex hlt hne =>
      cases hhex with
      | nil => exact absurd rfl hne
      | cons hb hrest => exact ⟨_, _, _, rfl, hb, hlt _ (by simp)⟩

theorem ofUnsigned?_writes (h : Writes base bytes m) : ofUnsigned? base bytes = some m := by
  obtain ⟨b, more, d, rfl, hb, -⟩ := h.head
  unfold ofUnsigned?
  split
  · rename_i heq
    obtain ⟨rfl, -⟩ := List.cons.inj heq
    rcases hb with hb | hb | hb <;> simp at hb <;> omega
  · exact h.ofDigits?

/-! ## Radix literals -/

theorem IsRadixLiteral.isRadix (h : IsRadixLiteral lexeme m) : isRadix lexeme = true := by
  cases h with
  | hex hmark h => rcases hmark with rfl | rfl <;> rfl
  | octal h =>
      obtain ⟨b, more, d, rfl, hb, hd⟩ := h.head
      have hnat : b.toNat = 0x30 + d := by
        rcases hb with hb | hb | hb <;> omega
      have hne : ∀ mark : UInt8, mark.toNat < 0x30 ∨ 0x38 ≤ mark.toNat → b ≠ mark := by
        rintro mark hmark rfl
        omega
      simp [Number.isRadix, hne 0x2E (by decide), hne 0x65 (by decide), hne 0x45 (by decide)]

theorem IsRadixLiteral.radixValue? (h : IsRadixLiteral lexeme m) : radixValue? lexeme = some m := by
  cases h with
  | hex hmark h => rcases hmark with rfl | rfl <;> exact ofUnsigned?_writes h
  | octal h =>
      obtain ⟨b, more, d, rfl, hb, hd⟩ := h.head
      have hnat : b.toNat = 0x30 + d := by
        rcases hb with hb | hb | hb <;> omega
      have hzero : Writes 8 (0x30 :: b :: more) m := by
        cases h with
        | @mk digits hhex hlt hne =>
            have hcons : Writes 8 (0x30 :: b :: more) (Nat.ofDigits 8 (0 :: digits).reverse) :=
              .mk (.cons (.inl ⟨by decide, rfl⟩) hhex) (by simpa using hlt) (by simp)
            simpa [Nat.ofDigits_append] using hcons
      unfold Number.radixValue?
      split
      · rename_i heq
        simp only [List.cons.injEq] at heq
        rw [heq.2.1] at hnat
        simp at hnat
        omega
      · rename_i heq
        simp only [List.cons.injEq] at heq
        rw [heq.2.1] at hnat
        simp at hnat
        omega
      · exact ofUnsigned?_writes hzero

theorem twosComplement_eq_toInt {width : Nat} (hwidth : 0 < width) (hm : m < 2 ^ width) :
    twosComplement width m = (BitVec.ofNat width m).toInt := by
  obtain ⟨k, rfl⟩ : ∃ k, width = k + 1 := ⟨width - 1, by omega⟩
  have hpow : 2 ^ (k + 1) = 2 * 2 ^ k := Nat.pow_succ'
  have htwo : ∀ n, twoPow n = 2 ^ n := fun _ => rfl
  rw [BitVec.toInt_eq_toNat_cond, BitVec.toNat_ofNat, Nat.mod_eq_of_lt hm, twosComplement, htwo,
    htwo, Nat.add_sub_cancel]
  congr 1
  exact propext (by omega)

/-- A radix literal writes the bits of an integer, if there are not too many. -/
theorem IsRadixLiteral.radixInteger? (h : IsRadixLiteral lexeme m) {width : Nat}
    (hwidth : 0 < width) : radixInteger? width lexeme =
      if m < 2 ^ width then some (BitVec.ofNat width m).toInt else none := by
  have htwo : twoPow width = 2 ^ width := rfl
  rw [Number.radixInteger?, h.radixValue?, Option.bind_some, htwo]
  split
  · rename_i hm
    rw [twosComplement_eq_toInt hwidth hm]
  · rfl

theorem IsRadixLiteral.isByte (h : IsRadixLiteral lexeme m) :
    ∀ b ∈ lexeme, Lexeme.isByte b = true := by
  have hhex : ∀ {base digits m}, Writes base digits m → ∀ b ∈ digits, Lexeme.isByte b = true := by
    rintro base digits m ⟨h, -, -⟩ b hb
    obtain ⟨d, -, hbd⟩ := exists_hex_of_mem h hb
    simp only [Lexeme.isByte, isDigit, Bool.or_eq_true, Bool.and_eq_true, decide_eq_true_eq,
      beq_iff_eq, UInt8.le_iff_toNat_le, UInt8.reduceToNat]
    rcases hbd with hbd | hbd | hbd <;> omega
  cases h with
  | hex hmark h =>
      intro b hb
      simp only [List.mem_cons] at hb
      rcases hb with rfl | rfl | hb
      · decide
      · rcases hmark with rfl | rfl <;> decide
      · exact hhex h b hb
  | octal h =>
      intro b hb
      rcases List.mem_cons.mp hb with rfl | hb
      · decide
      · exact hhex h b hb

/-! ## Conversions -/

theorem fitsSigned_pow {width : Nat} :
    fitsSigned (width + 1) z = true ↔ -2 ^ width ≤ z ∧ z < 2 ^ width := by
  have htwo : (twoPow width : Int) = 2 ^ width := by simp [twoPow]
  rw [fitsSigned, Nat.add_sub_cancel, htwo, Bool.and_eq_true, decide_eq_true_eq, decide_eq_true_eq]

namespace Lexeme

theorem plain_int64 (h : IsInteger lexeme z) (hz : -2 ^ 63 ≤ z ∧ z < 2 ^ 63) :
    plain settings lexeme = .ok (.integer z) := by
  have hfits : fitsSigned 64 z = true := fitsSigned_pow.mpr hz
  unfold plain
  rw [isRadix_number h.isNumber, if_neg Bool.false_ne_true, decimalInteger?_integer h]
  dsimp only
  rw [if_pos hfits]

theorem plain_radix (h : IsRadixLiteral lexeme m) :
    plain settings lexeme = if m < 2 ^ 64 then .ok (.integer (BitVec.ofNat 64 m).toInt)
      else .error (.notNumber (Text.ofBytes lexeme)) := by
  unfold plain
  rw [if_pos h.isRadix, radix64?, h.radixInteger? (by decide)]
  by_cases hm : m < 2 ^ 64
  · rw [if_pos hm, if_pos hm]
  · rw [if_neg hm, if_neg hm]

end Lexeme

end JsonPull
