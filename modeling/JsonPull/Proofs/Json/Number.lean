import JsonPull.Lexeme
import JsonPull.Proofs.Json.Text

/-! # Numbers of JSON

A number of JSON is never read as a radix literal. Its value is the integer that it writes, if that
has 64 bits, and else the number of double precision that it denotes. -/

namespace JsonPull.Json

open JsonPull.Number

variable {text whole digits rest : List UInt8} {n : Int} {b : UInt8}

/-! ## Digits -/

theorem digitValue?_digit (hb : 0x30 ≤ b ∧ b ≤ 0x39) :
    digitValue? 10 b = some (b.toNat - 0x30) := by
  have hle := UInt8.le_iff_toNat_le.mp hb.2
  have hlt : b.toNat - 0x30 < 10 := by
    have h : b.toNat ≤ 57 := hle
    omega
  simp [digitValue?, hexValue?, hb, hlt]

theorem ofDigits?_digits (h : IsDigits digits) : ofDigits? 10 digits = some (ofDigits digits) := by
  have hvalues : digits.filterMap (digitValue? 10) = digits.map fun b => b.toNat - 0x30 := by
    rw [← List.filterMap_eq_map]
    exact List.filterMap_congr fun b hb => digitValue?_digit (h.2 b hb)
  refine ofDigits?_eq_some_iff.mpr ⟨h.1, ?_, ?_⟩
  · intro b hb
    rw [digitValue?_digit (h.2 b hb)]
    rfl
  · rw [hvalues, foldDigits, List.foldl_map]
    rfl

theorem digit_of_digitValue? (h : (digitValue? 10 b).isSome = true) : 0x30 ≤ b ∧ b ≤ 0x39 := by
  unfold digitValue? hexValue? at h
  split_ifs at h with h₁ h₂ h₃
  · simpa using h₁
  · simp [Option.filter] at h
  · simp [Option.filter] at h
  · cases h

/-- What is read as a number in base ten consists of digits. -/
theorem digits_of_ofDigits? {m : Nat} (h : ofDigits? 10 digits = some m) : IsDigits digits := by
  obtain ⟨hne, hvalues, -⟩ := ofDigits?_eq_some_iff.mp h
  exact ⟨hne, fun b hb => digit_of_digitValue? (hvalues b hb)⟩

theorem IsDigits.append (h : IsDigits digits) (h' : IsDigits rest) : IsDigits (digits ++ rest) := by
  refine ⟨by simp [h.1], fun b hb => ?_⟩
  rcases List.mem_append.mp hb with hb | hb
  · exact h.2 b hb
  · exact h'.2 b hb

theorem isDigit_of_mem (h : IsDigits digits) (hb : b ∈ digits) : isDigit b = true := by
  have hdigit := h.2 b hb
  simp [isDigit, hdigit]

/-! ## Integers -/

/-- A digit that is no zero, or a zero with nothing that would make it a radix literal. -/
theorem isRadix_whole (h : IsWhole whole) (hrest : ∀ b ∈ rest.head?, b = 0x2E ∨ b = 0x65 ∨ b = 0x45) :
    isRadix (whole ++ rest) = false := by
  obtain ⟨⟨hne, -⟩, hzero⟩ := h
  cases whole with
  | nil => exact absurd rfl hne
  | cons b bs =>
      by_cases hb : b = 0x30
      · have hwhole := hzero (congrArg some hb)
        rw [hwhole]
        cases rest with
        | nil => rfl
        | cons second more =>
            rcases hrest second rfl with rfl | rfl | rfl <;> rfl
      · unfold isRadix
        split
        · rename_i heq
          exact absurd (List.cons.inj heq).1 hb
        · rfl

theorem isRadix_minus (bytes : List UInt8) : isRadix (0x2D :: bytes) = false := by
  cases bytes <;> rfl

theorem decimalInteger?_of_ne (hb : b ≠ 0x2D) (bytes : List UInt8) :
    decimalInteger? (b :: bytes) = (ofDigits? 10 (b :: bytes)).map Int.ofNat := by
  unfold decimalInteger?
  split
  · rename_i heq
    cases heq
    exact absurd rfl hb
  · rfl

theorem ne_minus_of_digit (hb : 0x30 ≤ b) : b ≠ 0x2D := by
  rintro rfl
  exact absurd hb (by decide)

theorem decimalInteger?_whole (h : IsWhole whole) :
    decimalInteger? whole = some (ofDigits whole : Int) := by
  have hdigits := ofDigits?_digits h.1
  obtain ⟨⟨hne, hbytes⟩, -⟩ := h
  cases whole with
  | nil => exact absurd rfl hne
  | cons b bs =>
      have hb := hbytes b (List.mem_cons_self ..)
      rw [decimalInteger?_of_ne (ne_minus_of_digit hb.1), hdigits]
      rfl

theorem decimalInteger?_integer (h : IsInteger text n) : decimalInteger? text = some n := by
  cases h with
  | unsigned h => exact decimalInteger?_whole h
  | negative h =>
      rw [decimalInteger?, ofDigits?_digits h.1]
      rfl

theorem fitsSigned_iff : fitsSigned 64 n = true ↔ IsInt64 n := by
  have h : twoPow (64 - 1) = 9223372036854775808 := by decide
  unfold fitsSigned IsInt64
  rw [h, Bool.and_eq_true, decide_eq_true_eq, decide_eq_true_eq]
  constructor <;> intro h <;> constructor <;> have := h.1 <;> have := h.2 <;> omega

/-! ## Numbers -/

/-- What may follow the digits before the point. -/
theorem head?_fraction {fraction exponent : List UInt8} (hfraction : IsFraction fraction)
    (hexponent : IsExponent exponent) :
    ∀ b ∈ (fraction ++ exponent).head?, b = 0x2E ∨ b = 0x65 ∨ b = 0x45 := by
  intro b hb
  cases hfraction with
  | point h =>
      cases hb
      exact .inl rfl
  | none =>
      cases hexponent with
      | none => cases hb
      | power hmark hsign h =>
          cases hb
          exact .inr hmark

theorem isRadix_number (h : IsNumber text) : isRadix text = false := by
  obtain ⟨hminus, hwhole, hfraction, hexponent⟩ := h
  rcases hminus with rfl | rfl
  · rw [List.nil_append]
    exact isRadix_whole hwhole (head?_fraction hfraction hexponent)
  · exact isRadix_minus _

theorem not_digits_of_mem (hb : b ∈ digits) (hmark : b = 0x2E ∨ b = 0x65 ∨ b = 0x45) :
    ¬ IsDigits digits := by
  intro h
  have hle := (h.2 b hb).1
  have hle' := (h.2 b hb).2
  rcases hmark with rfl | rfl | rfl
  · exact absurd hle (by decide)
  · exact absurd hle' (by decide)
  · exact absurd hle' (by decide)

/-- Digits with nothing but a fraction and an exponent behind them are all of it. -/
theorem whole_of_digits {fraction exponent : List UInt8} (hfraction : IsFraction fraction)
    (hexponent : IsExponent exponent) (h : IsDigits (whole ++ (fraction ++ exponent))) :
    fraction ++ exponent = [] := by
  have hhead := head?_fraction hfraction hexponent
  cases hrest : fraction ++ exponent with
  | nil => rfl
  | cons b more =>
      rw [hrest] at hhead h
      exact absurd h (not_digits_of_mem (by simp) (hhead b rfl))

/-- A number that can be read as an integer is one. -/
theorem integer_of_decimalInteger? (h : IsNumber text) (hn : decimalInteger? text = some n) :
    IsInteger text n := by
  obtain ⟨hminus, hwhole, hfraction, hexponent⟩ := h
  rename_i whole fraction exponent
  rcases hminus with rfl | rfl
  · rw [List.nil_append] at hn ⊢
    have hdigits : IsDigits (whole ++ (fraction ++ exponent)) := by
      obtain ⟨⟨hne, hbytes⟩, -⟩ := hwhole
      cases whole with
      | nil => exact absurd rfl hne
      | cons b bs =>
          have hb := hbytes b (List.mem_cons_self ..)
          rw [List.cons_append, decimalInteger?_of_ne (ne_minus_of_digit hb.1)] at hn
          obtain ⟨m, hm, -⟩ := Option.map_eq_some_iff.mp hn
          exact digits_of_ofDigits? hm
    rw [whole_of_digits hfraction hexponent hdigits, List.append_nil] at hn ⊢
    rw [decimalInteger?_whole hwhole] at hn
    cases hn
    exact .unsigned hwhole
  · rw [List.singleton_append] at hn ⊢
    have hdigits : IsDigits (whole ++ (fraction ++ exponent)) := by
      cases hm : ofDigits? 10 (whole ++ (fraction ++ exponent)) with
      | none => simp [decimalInteger?, hm] at hn
      | some m => exact digits_of_ofDigits? hm
    rw [whole_of_digits hfraction hexponent hdigits, List.append_nil] at hn ⊢
    rw [decimalInteger?_integer (.negative hwhole)] at hn
    cases hn
    exact .negative hwhole

theorem IsInteger.isNumber (h : IsInteger text n) : IsNumber text := by
  cases h with
  | unsigned h => simpa using IsNumber.mk (.inl rfl) h .none .none
  | negative h => simpa using IsNumber.mk (.inr rfl) h .none .none

/-! ## Numbers of double precision -/

theorem takeWhile_digits (h : IsDigits digits) (hrest : ∀ b ∈ rest.head?, isDigit b = false) :
    (digits ++ rest).takeWhile isDigit = digits ∧ (digits ++ rest).dropWhile isDigit = rest := by
  rw [List.takeWhile_append_of_pos fun b hb => isDigit_of_mem h hb,
    List.dropWhile_append_of_pos fun b hb => isDigit_of_mem h hb]
  cases rest with
  | nil => simp
  | cons b more =>
      have hb := hrest b rfl
      simp [hb]

theorem splitSign_digits (h : IsDigits digits) (rest : List UInt8) :
    Numeral.splitSign (digits ++ rest) = (false, digits ++ rest) := by
  obtain ⟨hne, hbytes⟩ := h
  cases digits with
  | nil => exact absurd rfl hne
  | cons b bs =>
      have hb := (hbytes b (List.mem_cons_self ..)).1
      unfold Numeral.splitSign
      split
      · rename_i heq
        rw [(List.cons.inj heq).1] at hb
        exact absurd hb (by decide)
      · rename_i heq
        rw [(List.cons.inj heq).1] at hb
        exact absurd hb (by decide)
      · rfl

theorem exponent?_isSome {exponent : List UInt8} (h : IsExponent exponent) :
    (Numeral.exponent? exponent).isSome = true := by
  cases h with
  | none => rfl
  | power hmark hsign h =>
      rename_i mark sign digits
      have hall : digits.all isDigit = true := List.all_eq_true.mpr fun b hb => isDigit_of_mem h hb
      have hempty : digits.isEmpty = false := by simpa using h.1
      have hsplit : (Numeral.splitSign (sign ++ digits)).2 = digits := by
        rcases hsign with rfl | rfl | rfl
        · simpa using congrArg Prod.snd (splitSign_digits h [])
        · rfl
        · rfl
      have hmark' : (mark == 0x65 || mark == 0x45) = true := by simpa using hmark
      simp [Numeral.exponent?, hsplit, hall, hempty, hmark']

theorem splitDigits_number {fraction exponent : List UInt8} (hwhole : IsDigits whole)
    (hfraction : IsFraction fraction) (hexponent : IsExponent exponent) :
    (Numeral.splitDigits (whole ++ (fraction ++ exponent))).1 = whole ∧
      (Numeral.splitDigits (whole ++ (fraction ++ exponent))).2.2 = exponent := by
  have hmark : ∀ b ∈ exponent.head?, isDigit b = false ∧ b ≠ 0x2E := by
    cases hexponent with
    | none => nofun
    | power hmark hsign h =>
        rintro b ⟨⟩
        rcases hmark with rfl | rfl <;> decide
  cases hfraction with
  | none =>
      obtain ⟨htake, hdrop⟩ := takeWhile_digits hwhole fun b hb => (hmark b hb).1
      rw [List.nil_append]
      unfold Numeral.splitDigits
      rw [htake, hdrop]
      split
      · rename_i rest
        exact absurd rfl (hmark 0x2E rfl).2
      · exact ⟨rfl, rfl⟩
  | point h =>
      rename_i digits
      have hpoint : ∀ b ∈ (0x2E :: (digits ++ exponent)).head?, isDigit b = false := by
        rintro b ⟨⟩
        rfl
      obtain ⟨htake, hdrop⟩ := takeWhile_digits hwhole hpoint
      obtain ⟨htake', hdrop'⟩ := takeWhile_digits h fun b hb => (hmark b hb).1
      rw [List.cons_append]
      unfold Numeral.splitDigits
      rw [htake, hdrop]
      exact ⟨rfl, hdrop'⟩

/-- Every number has a number of double precision that it denotes. -/
theorem exists_double (h : IsNumber text) : ∃ x, Double.ofBytes? text = some x := by
  obtain ⟨hminus, hwhole, hfraction, hexponent⟩ := h
  rename_i minus whole fraction exponent
  have hsplit : (Numeral.splitSign (minus ++ (whole ++ (fraction ++ exponent)))).2 =
      whole ++ (fraction ++ exponent) := by
    rcases hminus with rfl | rfl
    · rw [List.nil_append, splitSign_digits hwhole.1]
    · rfl
  obtain ⟨hdigits, hrest⟩ := splitDigits_number hwhole.1 hfraction hexponent
  have hempty : whole.isEmpty = false := by simpa using hwhole.1.1
  obtain ⟨e, he⟩ := Option.isSome_iff_exists.mp (exponent?_isSome hexponent)
  simp [Double.ofBytes?, Numeral.ofBytes?, hsplit, hdigits, hrest, hempty, he]

/-! ## Conversion -/

variable {settings : Settings}

theorem convert_integer (h : IsInteger text n) (hn : IsInt64 n) :
    Lexeme.convert settings .plain text = .ok (some (.integer n)) := by
  have hplain : Lexeme.plain settings text = .ok (.integer n) := by
    simp [Lexeme.plain, isRadix_number h.isNumber, decimalInteger?_integer h,
      fitsSigned_iff.mpr hn]
  unfold Lexeme.convert
  rw [hplain]
  rfl

theorem convert_real {x : Double} (h : IsReal text x) (hfloats : settings.floats = .double)
    (hbig : settings.bigIntegers = false) :
    Lexeme.convert settings .plain text = .ok (some (.float x)) := by
  have hfloat : Lexeme.float settings text = .ok (.float x) := by
    simp [Lexeme.float, hfloats, h.denotes]
  have hplain : Lexeme.plain settings text = .ok (.float x) := by
    unfold Lexeme.plain
    rw [if_neg (by rw [isRadix_number h.number]; exact Bool.false_ne_true)]
    cases hn : decimalInteger? text with
    | none => exact hfloat
    | some n =>
        have hother := h.other n (integer_of_decimalInteger? h.number hn)
        dsimp only
        rw [if_neg (fun hfits => hother (fitsSigned_iff.mp hfits)), hbig]
        exact hfloat
  unfold Lexeme.convert
  rw [hplain]
  rfl

/-- Every number is a document. -/
theorem IsNumber.spells (h : IsNumber text) : ∃ doc, Spells (.value doc) text := by
  by_cases hinteger : ∃ n, IsInteger text n ∧ IsInt64 n
  · obtain ⟨n, hn, hfits⟩ := hinteger
    exact ⟨.integer n, .integer hn hfits⟩
  · obtain ⟨x, hx⟩ := exists_double h
    exact ⟨.real x, .real ⟨h, fun n hn hfits => hinteger ⟨n, hn, hfits⟩, hx⟩⟩

/-! ## Bytes -/

theorem isByte_digit (hb : 0x30 ≤ b ∧ b ≤ 0x39) : Lexeme.isByte b = true := by
  simp [Lexeme.isByte, isDigit, hb]

theorem isByte_digits (h : IsDigits digits) : ∀ b ∈ digits, Lexeme.isByte b = true :=
  fun b hb => isByte_digit (h.2 b hb)

theorem isByte_number (h : IsNumber text) : ∀ b ∈ text, Lexeme.isByte b = true := by
  obtain ⟨hminus, hwhole, hfraction, hexponent⟩ := h
  intro b hb
  simp only [List.mem_append] at hb
  rcases hb with hb | hb | hb | hb
  · rcases hminus with rfl | rfl
    · cases hb
    · rw [List.mem_singleton.mp hb]
      decide
  · exact isByte_digits hwhole.1 b hb
  · cases hfraction with
    | none => cases hb
    | point h =>
        rcases List.mem_cons.mp hb with rfl | hb
        · decide
        · exact isByte_digits h b hb
  · cases hexponent with
    | none => cases hb
    | power hmark hsign h =>
        simp only [List.mem_cons, List.mem_append] at hb
        rcases hb with rfl | hb | hb
        · rcases hmark with rfl | rfl <;> decide
        · rcases hsign with rfl | rfl | rfl
          · cases hb
          · rw [List.mem_singleton.mp hb]
            decide
          · rw [List.mem_singleton.mp hb]
            decide
        · exact isByte_digits h b hb

/-- A number begins with a digit, or with a minus sign and a digit. -/
theorem begin_number (h : IsNumber text) :
    ∃ b more, (0x30 ≤ b ∧ b ≤ 0x39) ∧ (text = b :: more ∨ text = 0x2D :: b :: more) := by
  obtain ⟨hminus, ⟨⟨hne, hdigits⟩, -⟩, hfraction, hexponent⟩ := h
  rename_i whole fraction exponent
  cases whole with
  | nil => exact absurd rfl hne
  | cons b more =>
      refine ⟨b, more ++ (fraction ++ exponent), hdigits b (List.mem_cons_self ..), ?_⟩
      rcases hminus with rfl | rfl
      · exact .inl rfl
      · exact .inr rfl

end JsonPull.Json
