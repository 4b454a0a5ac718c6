import JsonPull.Proofs.Text.Runs
import JsonPull.Text.Blank

/-! # Margins of a text

The blanks of ASCII can be trimmed from the bytes of a text or from its characters, whether or not
what stands between them is well formed. -/

namespace JsonPull.Text

variable {bytes tail : List UInt8} {lead b : UInt8} {c : Char}

/-- A character that is trimmed from the ends of a comment. -/
def isMargin (c : Char) : Bool :=
  c ∈ [' ', '\t', '\n', '\x0c', '\r']

theorem isMargin_iff (c : Char) : isMargin c = true ↔
    c.toNat = 0x20 ∨ c.toNat = 0x09 ∨ c.toNat = 0x0A ∨ c.toNat = 0x0C ∨ c.toNat = 0x0D := by
  simp [isMargin, ← Char.toNat_inj]

theorem isMarginByte_iff (b : UInt8) : isMarginByte b = true ↔
    b.toNat = 0x20 ∨ b.toNat = 0x09 ∨ b.toNat = 0x0A ∨ b.toNat = 0x0C ∨ b.toNat = 0x0D := by
  simp [isMarginByte, ← UInt8.toNat_inj, or_assoc]

theorem isMargin_ascii (hb : b < 0x80) : isMargin (Char.ofNat b.toNat) = isMarginByte b := by
  rw [Bool.eq_iff_iff, isMargin_iff, isMarginByte_iff, toNat_ofByte hb]

theorem ascii_of_isMarginByte (h : isMarginByte b = true) : b < 0x80 := by
  rw [isMarginByte_iff] at h
  have hlt : b.toNat < 0x80 := by omega
  exact UInt8.lt_iff_toNat_lt.mpr hlt

/-- A character of ASCII is decoded from its byte alone. -/
theorem ascii_of_decoded (h : ((decodeSequence? (lead :: tail)).getD replacement).toNat < 0x80) :
    lead < 0x80 ∧ tail = [] := by
  cases hdecode : decodeSequence? (lead :: tail) with
  | none =>
      rw [hdecode] at h
      exact absurd h (by decide)
  | some c =>
      rw [hdecode, Option.getD_some] at h
      have htail : tail = [] := by
        by_contra htail
        exact absurd (beyond_of_decodeSequence? hdecode htail).1 (Nat.not_le.mpr h)
      subst htail
      refine ⟨?_, rfl⟩
      by_contra hlead
      rw [decodeSequence?, if_neg hlead] at hdecode
      cases hdecode

/-- Bytes begin with a margin exactly if their characters do. -/
theorem isMargin_head (lead : UInt8) (bytes : List UInt8) :
    ∃ c more, decodeLossy (lead :: bytes) = c :: more ∧ isMargin c = isMarginByte lead := by
  by_cases hlead : lead < 0x80
  · exact ⟨_, _, decodeLossy_cons_ascii hlead bytes, isMargin_ascii hlead⟩
  · refine ⟨_, _, rfl, ?_⟩
    rw [Bool.eq_false_iff.mpr (mt ascii_of_isMarginByte hlead), Bool.eq_false_iff, ne_eq,
      isMargin_iff]
    intro hmargin
    have hascii : ((decodeSequence? (lead :: bytes.take (continuationCount lead bytes))).getD
        replacement).toNat < 0x80 := by omega
    exact hlead (ascii_of_decoded hascii).1

theorem decodeLossy_dropWhile (bytes : List UInt8) :
    decodeLossy (bytes.dropWhile isMarginByte) = (decodeLossy bytes).dropWhile isMargin := by
  induction bytes with
  | nil => rfl
  | cons b bytes ih =>
      by_cases hb : isMarginByte b = true
      · have hascii := ascii_of_isMarginByte hb
        rw [List.dropWhile_cons_of_pos hb, ih, decodeLossy_cons_ascii hascii,
          List.dropWhile_cons_of_pos ((isMargin_ascii hascii).trans hb)]
      · obtain ⟨c, more, hdecoded, hc⟩ := isMargin_head b bytes
        rw [List.dropWhile_cons_of_neg hb, hdecoded, List.dropWhile_cons_of_neg (hc ▸ hb)]

/-- The last character of ASCII is the last byte. -/
theorem ascii_of_last {n : Nat} (hn : n ≤ bytes.length)
    (h : c ∈ (decodeLossyFrom n bytes).getLast?) (hc : c.toNat < 0x80) :
    ∃ b ∈ bytes.getLast?, b < 0x80 ∧ c = Char.ofNat b.toNat := by
  induction bytes generalizing n with
  | nil =>
      rw [decodeLossyFrom_nil] at h
      cases h
  | cons lead bytes ih =>
      have hbehind : ∀ {b : UInt8}, b ∈ bytes.getLast? → b ∈ (lead :: bytes).getLast? := by
        intro b hb
        rw [List.getLast?_cons, Option.mem_def.mp hb]
        rfl
      cases n with
      | zero =>
          have hle : continuationCount lead bytes ≤ bytes.length := continuationCount_le lead
          simp only [decodeLossyFrom] at h
          cases hrest : decodeLossyFrom (continuationCount lead bytes) bytes with
          | nil =>
              rw [hrest] at h
              obtain rfl := Option.some.inj h
              obtain ⟨hlead, htake⟩ := ascii_of_decoded hc
              -- Nothing is left behind the last character, and it took no byte but its own.
              have hbytes : bytes = [] := by
                by_contra hne
                obtain ⟨b, more, rfl⟩ := List.exists_cons_of_ne_nil hne
                have hcount : continuationCount lead (b :: more) = 0 := by
                  by_contra hpos
                  obtain ⟨k, hk⟩ := Nat.exists_eq_succ_of_ne_zero hpos
                  rw [hk] at htake
                  cases htake
                rw [hcount] at hrest
                cases hrest
              subst hbytes
              refine ⟨lead, rfl, hlead, ?_⟩
              simp [decodeSequence?, hlead]
          | cons c' more =>
              obtain ⟨b, hb, hascii⟩ := ih hle (by simpa [hrest] using h)
              exact ⟨b, hbehind hb, hascii⟩
      | succ n =>
          obtain ⟨b, hb, hascii⟩ := ih (Nat.le_of_succ_le_succ hn) h
          exact ⟨b, hbehind hb, hascii⟩

theorem decodeLossy_snoc (bytes : List UInt8) (hb : b < 0x80) :
    decodeLossy (bytes ++ [b]) = decodeLossy bytes ++ [Char.ofNat b.toNat] := by
  have hapart : StandsApart [b] := by
    rintro _ ⟨⟩
    rw [Bool.eq_false_iff, ne_eq, isContinuation_iff]
    have hlt : b.toNat < 0x80 := UInt8.lt_iff_toNat_lt.mp hb
    omega
  rw [decodeLossy_append hapart, decodeLossy_cons_ascii hb, decodeLossy_nil]

theorem decodeLossy_dropWhile_reverse (bytes : List UInt8) :
    decodeLossy ((bytes.reverse.dropWhile isMarginByte).reverse) =
      ((decodeLossy bytes).reverse.dropWhile isMargin).reverse := by
  induction bytes using List.reverseRecOn with
  | nil => rfl
  | append_singleton bytes b ih =>
      rw [List.reverse_append, List.reverse_singleton, List.singleton_append]
      by_cases hb : isMarginByte b = true
      · have hascii := ascii_of_isMarginByte hb
        rw [List.dropWhile_cons_of_pos hb, ih, decodeLossy_snoc bytes hascii, List.reverse_append,
          List.reverse_singleton, List.singleton_append,
          List.dropWhile_cons_of_pos ((isMargin_ascii hascii).trans hb)]
      · rw [List.dropWhile_cons_of_neg hb, List.reverse_cons, List.reverse_reverse]
        cases hchars : (decodeLossy (bytes ++ [b])).reverse with
        | nil => rw [List.dropWhile_nil, ← hchars, List.reverse_reverse]
        | cons c more =>
            have hlast : c ∈ (decodeLossy (bytes ++ [b])).getLast? := by
              rw [List.getLast?_eq_head?_reverse, hchars]
              rfl
            have hc : ¬isMargin c = true := by
              intro hmargin
              have hascii : c.toNat < 0x80 := by
                rw [isMargin_iff] at hmargin
                omega
              obtain ⟨b', hb', hlt, rfl⟩ := ascii_of_last (Nat.zero_le _) hlast hascii
              obtain rfl : b = b' := by simpa using hb'
              exact hb ((isMargin_ascii hlt).symm.trans hmargin)
            rw [List.dropWhile_cons_of_neg hc, ← hchars, List.reverse_reverse]

/-- It does not matter whether a text is trimmed before or after it is decoded. -/
theorem decodeLossy_trimBoth (bytes : List UInt8) :
    decodeLossy (trimBoth isMarginByte bytes) = trimBoth isMargin (decodeLossy bytes) := by
  unfold trimBoth
  rw [decodeLossy_dropWhile_reverse, decodeLossy_dropWhile]

end JsonPull.Text
