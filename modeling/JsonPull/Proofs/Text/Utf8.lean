import Mathlib
import JsonPull.Text.Utf8

/-! # Decoding what was encoded

The bytes of a character are one well-formed sequence, and there are no others: no overlong form, no
surrogate and nothing above U+10FFFF. A forgiving decoder finds the characters of a text again. -/

namespace JsonPull.Text

theorem toNat_ofNat {n : Nat} (h : n < 256) : (UInt8.ofNat n).toNat = n := by
  rw [UInt8.toNat_ofNat']
  exact Nat.mod_eq_of_lt h

theorem ofNat_eq {n : Nat} {b : UInt8} (h : n = b.toNat) : UInt8.ofNat n = b := by
  rw [h, UInt8.ofNat_toNat]

/-! ## Classes of bytes -/

theorem sequenceLength_eq (lead : UInt8) : sequenceLength lead =
    if 0xC2 ≤ lead.toNat ∧ lead.toNat ≤ 0xDF then 2
    else if 0xE0 ≤ lead.toNat ∧ lead.toNat ≤ 0xEF then 3
    else if 0xF0 ≤ lead.toNat ∧ lead.toNat ≤ 0xF4 then 4
    else 1 := by
  simp [sequenceLength, UInt8.le_iff_toNat_le]

theorem isContinuation_iff (b : UInt8) :
    isContinuation b = true ↔ 0x80 ≤ b.toNat ∧ b.toNat ≤ 0xBF := by
  simp [isContinuation, UInt8.le_iff_toNat_le]

theorem isSecond_iff (lead second : UInt8) : isSecond lead second = true ↔
    (0x80 ≤ second.toNat ∧ second.toNat ≤ 0xBF) ∧
      (lead.toNat = 0xE0 → 0xA0 ≤ second.toNat) ∧ (lead.toNat = 0xED → second.toNat ≤ 0x9F) ∧
      (lead.toNat = 0xF0 → 0x90 ≤ second.toNat) ∧ (lead.toNat = 0xF4 → second.toNat ≤ 0x8F) := by
  have heq : ∀ n : UInt8, lead = n ↔ lead.toNat = n.toNat := fun n => UInt8.toNat_inj.symm
  simp only [isSecond, Bool.and_eq_true, isContinuation_iff, beq_iff_eq, heq]
  refine and_congr_right fun _ => ?_
  by_cases h₀ : lead.toNat = (0xE0 : UInt8).toNat
  · simp_all [UInt8.le_iff_toNat_le]
  by_cases h₁ : lead.toNat = (0xED : UInt8).toNat
  · simp_all [UInt8.le_iff_toNat_le]
  by_cases h₂ : lead.toNat = (0xF0 : UInt8).toNat
  · simp_all [UInt8.le_iff_toNat_le]
  by_cases h₃ : lead.toNat = (0xF4 : UInt8).toNat
  · simp_all [UInt8.le_iff_toNat_le]
  · simp_all

/-! ## Single characters -/

/-- The bytes of a character, by the size of its number. -/
theorem encode_eq (c : Char) : encode c =
    if c.toNat ≤ 0x7F then [UInt8.ofNat c.toNat]
    else if c.toNat ≤ 0x7FF then
      [UInt8.ofNat (c.toNat / 64 % 0x20 + 0xC0), UInt8.ofNat (c.toNat % 0x40 + 0x80)]
    else if c.toNat ≤ 0xFFFF then
      [UInt8.ofNat (c.toNat / 4096 % 0x10 + 0xE0), UInt8.ofNat (c.toNat / 64 % 0x40 + 0x80),
        UInt8.ofNat (c.toNat % 0x40 + 0x80)]
    else
      [UInt8.ofNat (c.toNat / 262144 % 0x8 + 0xF0), UInt8.ofNat (c.toNat / 4096 % 0x40 + 0x80),
        UInt8.ofNat (c.toNat / 64 % 0x40 + 0x80), UInt8.ofNat (c.toNat % 0x40 + 0x80)] := rfl

theorem encode_ascii {c : Char} (h : c.toNat ≤ 0x7F) : encode c = [UInt8.ofNat c.toNat] := by
  rw [encode_eq, if_pos h]

theorem toNat_ofNat_valid {v : Nat} (h : v < 0xD800 ∨ 0xDFFF < v ∧ v < 0x110000) :
    (Char.ofNat v).toNat = v := by
  have hv : v.isValidChar := h
  rw [Char.toNat_ofNat, if_pos hv]

theorem toNat_ofByte {b : UInt8} (h : b < 0x80) : (Char.ofNat b.toNat).toNat = b.toNat := by
  have hlt : b.toNat < 0x80 := UInt8.lt_iff_toNat_lt.mp h
  exact toNat_ofNat_valid (.inl (by omega))

/-- A byte of ASCII is the character of its number. -/
theorem encode_ofByte {b : UInt8} (h : b < 0x80) : encode (Char.ofNat b.toNat) = [b] := by
  have hlt : b.toNat < 0x80 := UInt8.lt_iff_toNat_lt.mp h
  rw [encode_ascii (by rw [toNat_ofByte h]; omega), toNat_ofByte h, UInt8.ofNat_toNat]

/-- All bytes of a character beyond ASCII are beyond ASCII. -/
theorem le_toNat_of_mem_encode {c : Char} (h : 0x7F < c.toNat) {b : UInt8} (hb : b ∈ encode c) :
    0x80 ≤ b.toNat := by
  have hvalid : c.toNat < 0xD800 ∨ 0xDFFF < c.toNat ∧ c.toNat < 0x110000 := c.valid
  rw [encode_eq, if_neg (by omega)] at hb
  generalize c.toNat = v at h hvalid hb
  have hbyte : ∀ n, n < 0x80 → 0x80 ≤ (UInt8.ofNat (n + 0x80)).toNat := fun n hn => by
    rw [toNat_ofNat (by omega)]
    exact Nat.le_add_left _ _
  split at hb
  · simp only [List.mem_cons, List.not_mem_nil, or_false] at hb
    rcases hb with rfl | rfl
    · exact hbyte (v / 64 % 0x20 + 0x40) (by omega)
    · exact hbyte (v % 0x40) (by omega)
  split at hb
  · simp only [List.mem_cons, List.not_mem_nil, or_false] at hb
    rcases hb with rfl | rfl | rfl
    · exact hbyte (v / 4096 % 0x10 + 0x60) (by omega)
    · exact hbyte (v / 64 % 0x40) (by omega)
    · exact hbyte (v % 0x40) (by omega)
  · simp only [List.mem_cons, List.not_mem_nil, or_false] at hb
    rcases hb with rfl | rfl | rfl | rfl
    · exact hbyte (v / 262144 % 0x8 + 0x70) (by omega)
    · exact hbyte (v / 4096 % 0x40) (by omega)
    · exact hbyte (v / 64 % 0x40) (by omega)
    · exact hbyte (v % 0x40) (by omega)

/-- The bytes of a character are its sequence. -/
theorem decodeSequence?_encode (c : Char) : decodeSequence? (encode c) = some c := by
  have hvalid : c.toNat < 0xD800 ∨ 0xDFFF < c.toNat ∧ c.toNat < 0x110000 := c.valid
  have hc : Char.ofNat c.toNat = c := Char.ofNat_toNat c
  rw [encode_eq]
  generalize c.toNat = v at hvalid hc ⊢
  have hnext : ∀ n, (UInt8.ofNat (n % 0x40 + 0x80)).toNat = n % 0x40 + 0x80 := fun n =>
    toNat_ofNat (by omega)
  by_cases h₁ : v ≤ 0x7F
  · have ha : (UInt8.ofNat v).toNat = v := toNat_ofNat (by omega)
    rw [if_pos h₁]
    generalize UInt8.ofNat v = a at ha ⊢
    have hlt : a < 0x80 := UInt8.lt_iff_toNat_lt.mpr (ha.trans_lt (Nat.lt_succ_of_le h₁))
    simp only [decodeSequence?, hlt, ha, hc, if_true]
  rw [if_neg h₁]
  by_cases h₂ : v ≤ 0x7FF
  · have ha : (UInt8.ofNat (v / 64 % 0x20 + 0xC0)).toNat = v / 64 % 0x20 + 0xC0 :=
      toNat_ofNat (by omega)
    have hb := hnext v
    rw [if_pos h₂]
    generalize UInt8.ofNat (v / 64 % 0x20 + 0xC0) = a at ha ⊢
    generalize UInt8.ofNat (v % 0x40 + 0x80) = b at hb ⊢
    have hseq : sequenceLength a = 2 ∧ isSecond a b = true := by
      rw [sequenceLength_eq, isSecond_iff, ha, hb]
      split_ifs <;> omega
    have hbits : pushBits (a.toNat - 0xC0) b = v := by
      unfold pushBits
      omega
    simp only [decodeSequence?, hseq, hbits, hc, and_self, if_true]
  rw [if_neg h₂]
  by_cases h₃ : v ≤ 0xFFFF
  · have ha : (UInt8.ofNat (v / 4096 % 0x10 + 0xE0)).toNat = v / 4096 % 0x10 + 0xE0 :=
      toNat_ofNat (by omega)
    have hb := hnext (v / 64)
    have hd := hnext v
    rw [if_pos h₃]
    generalize UInt8.ofNat (v / 4096 % 0x10 + 0xE0) = a at ha ⊢
    generalize UInt8.ofNat (v / 64 % 0x40 + 0x80) = b at hb ⊢
    generalize UInt8.ofNat (v % 0x40 + 0x80) = d at hd ⊢
    have hseq : sequenceLength a = 3 ∧ isSecond a b = true ∧ isContinuation d = true := by
      rw [sequenceLength_eq, isSecond_iff, isContinuation_iff, ha, hb, hd]
      split_ifs <;> omega
    have hbits : pushBits (pushBits (a.toNat - 0xE0) b) d = v := by
      unfold pushBits
      omega
    simp only [decodeSequence?, hseq, hbits, hc, and_self, if_true]
  · have ha : (UInt8.ofNat (v / 262144 % 0x8 + 0xF0)).toNat = v / 262144 % 0x8 + 0xF0 :=
      toNat_ofNat (by omega)
    have hb := hnext (v / 4096)
    have hd := hnext (v / 64)
    have he := hnext v
    rw [if_neg h₃]
    generalize UInt8.ofNat (v / 262144 % 0x8 + 0xF0) = a at ha ⊢
    generalize UInt8.ofNat (v / 4096 % 0x40 + 0x80) = b at hb ⊢
    generalize UInt8.ofNat (v / 64 % 0x40 + 0x80) = d at hd ⊢
    generalize UInt8.ofNat (v % 0x40 + 0x80) = e at he ⊢
    have hseq : sequenceLength a = 4 ∧ isSecond a b = true ∧ isContinuation d = true ∧
        isContinuation e = true := by
      rw [sequenceLength_eq, isSecond_iff, isContinuation_iff, isContinuation_iff, ha, hb, hd, he]
      split_ifs <;> omega
    have hbits : pushBits (pushBits (pushBits (a.toNat - 0xF0) b) d) e = v := by
      unfold pushBits
      omega
    simp only [decodeSequence?, hseq, hbits, hc, and_self, if_true]

/-- Only the bytes of a character are its sequence. -/
theorem eq_encode_of_decodeSequence? {bytes : List UInt8} {c : Char}
    (h : decodeSequence? bytes = some c) : bytes = encode c := by
  match bytes with
  | [] => cases h
  | [a] =>
      simp only [decodeSequence?] at h
      split at h
      · rename_i hascii
        rw [← Option.some.inj h, encode_ofByte hascii]
      · cases h
  | [a, b] =>
      simp only [decodeSequence?] at h
      split at h
      · rename_i hseq
        rw [sequenceLength_eq, isSecond_iff] at hseq
        obtain ⟨hlead, hb, -⟩ := hseq
        have hbounds : 0xC2 ≤ a.toNat ∧ a.toNat ≤ 0xDF := by
          split_ifs at hlead <;> omega
        have hv : pushBits (a.toNat - 0xC0) b = (a.toNat - 0xC0) * 64 + (b.toNat - 0x80) := rfl
        have hnat := toNat_ofNat_valid (v := pushBits (a.toNat - 0xC0) b) (by omega)
        rw [← Option.some.inj h, encode_eq, hnat, hv, if_neg (by omega), if_pos (by omega),
          ofNat_eq (b := a) (by omega), ofNat_eq (b := b) (by omega)]
      · cases h
  | [a, b, d] =>
      simp only [decodeSequence?] at h
      split at h
      · rename_i hseq
        rw [sequenceLength_eq, isSecond_iff, isContinuation_iff] at hseq
        obtain ⟨hlead, ⟨hb, hlow, hhigh, -⟩, hd⟩ := hseq
        have hbounds : 0xE0 ≤ a.toNat ∧ a.toNat ≤ 0xEF := by
          split_ifs at hlead <;> omega
        have hv : pushBits (pushBits (a.toNat - 0xE0) b) d =
            ((a.toNat - 0xE0) * 64 + (b.toNat - 0x80)) * 64 + (d.toNat - 0x80) := rfl
        have hnat := toNat_ofNat_valid (v := pushBits (pushBits (a.toNat - 0xE0) b) d) (by omega)
        rw [← Option.some.inj h, encode_eq, hnat, hv, if_neg (by omega), if_neg (by omega),
          if_pos (by omega), ofNat_eq (b := a) (by omega), ofNat_eq (b := b) (by omega),
          ofNat_eq (b := d) (by omega)]
      · cases h
  | [a, b, d, e] =>
      simp only [decodeSequence?] at h
      split at h
      · rename_i hseq
        rw [sequenceLength_eq, isSecond_iff, isContinuation_iff, isContinuation_iff] at hseq
        obtain ⟨hlead, ⟨hb, -, -, hlow, hhigh⟩, hd, he⟩ := hseq
        have hbounds : 0xF0 ≤ a.toNat ∧ a.toNat ≤ 0xF4 := by
          split_ifs at hlead <;> omega
        have hv : pushBits (pushBits (pushBits (a.toNat - 0xF0) b) d) e =
            (((a.toNat - 0xF0) * 64 + (b.toNat - 0x80)) * 64 + (d.toNat - 0x80)) * 64 +
              (e.toNat - 0x80) := rfl
        have hnat := toNat_ofNat_valid
          (v := pushBits (pushBits (pushBits (a.toNat - 0xF0) b) d) e) (by omega)
        rw [← Option.some.inj h, encode_eq, hnat, hv, if_neg (by omega), if_neg (by omega),
          if_neg (by omega), ofNat_eq (b := a) (by omega), ofNat_eq (b := b) (by omega),
          ofNat_eq (b := d) (by omega), ofNat_eq (b := e) (by omega)]
      · cases h
  | _ :: _ :: _ :: _ :: _ :: _ => cases h

/-- A character of several bytes is beyond ASCII, and so are all of its bytes. -/
theorem beyond_of_decodeSequence? {lead : UInt8} {tail : List UInt8} {c : Char}
    (h : decodeSequence? (lead :: tail) = some c) (htail : tail ≠ []) :
    0x80 ≤ c.toNat ∧ ∀ b ∈ lead :: tail, 0x80 ≤ b.toNat := by
  have hencode := eq_encode_of_decodeSequence? h
  have hbeyond : 0x7F < c.toNat := by
    by_contra hascii
    rw [encode_ascii (Nat.not_lt.mp hascii)] at hencode
    exact htail (List.cons.inj hencode).2
  rw [hencode]
  exact ⟨hbeyond, fun b hb => le_toNat_of_mem_encode hbeyond hb⟩

/-! ## Texts -/

/-- The first byte of a well-formed sequence announces how long it is. -/
theorem sequenceLength_of_decodeSequence? {lead : UInt8} {tail : List UInt8} {c : Char}
    (h : decodeSequence? (lead :: tail) = some c) : sequenceLength lead = tail.length + 1 := by
  match tail with
  | [] =>
      have hlt : lead.toNat < 0x80 := by
        by_contra hge
        have hlt : ¬ lead < 0x80 := fun hlt => hge (UInt8.lt_iff_toNat_lt.mp hlt)
        simp [decodeSequence?, hlt] at h
      rw [sequenceLength_eq]
      split_ifs <;> first | rfl | omega
  | [b] =>
      by_cases hseq : sequenceLength lead = 2 ∧ isSecond lead b = true
      · exact hseq.1
      · simp [decodeSequence?, hseq] at h
  | [b, d] =>
      by_cases hseq : sequenceLength lead = 3 ∧ isSecond lead b = true ∧ isContinuation d = true
      · exact hseq.1
      · simp [decodeSequence?, hseq] at h
  | [b, d, e] =>
      by_cases hseq : sequenceLength lead = 4 ∧ isSecond lead b = true ∧ isContinuation d = true ∧
          isContinuation e = true
      · exact hseq.1
      · simp [decodeSequence?, hseq] at h
  | _ :: _ :: _ :: _ :: _ => cases h

/-- All bytes of a well-formed sequence belong to its first one, whatever follows. -/
theorem continuationCount_of_decodeSequence? {lead : UInt8} {tail : List UInt8} {c : Char}
    (h : decodeSequence? (lead :: tail) = some c) (rest : List UInt8) :
    continuationCount lead (tail ++ rest) = tail.length := by
  match tail with
  | [] =>
      have hlead : sequenceLength lead = 1 := sequenceLength_of_decodeSequence? h
      cases rest <;> simp [continuationCount, hlead]
  | [b] =>
      by_cases hseq : sequenceLength lead = 2 ∧ isSecond lead b = true
      · simp [continuationCount, hseq]
      · simp [decodeSequence?, hseq] at h
  | [b, d] =>
      by_cases hseq : sequenceLength lead = 3 ∧ isSecond lead b = true ∧ isContinuation d = true
      · simp [continuationCount, hseq]
      · simp [decodeSequence?, hseq] at h
  | [b, d, e] =>
      by_cases hseq : sequenceLength lead = 4 ∧ isSecond lead b = true ∧ isContinuation d = true ∧
          isContinuation e = true
      · simp [continuationCount, hseq]
      · simp [decodeSequence?, hseq] at h
  | _ :: _ :: _ :: _ :: _ => cases h

theorem decodeLossyFrom_append (skipped rest : List UInt8) :
    decodeLossyFrom skipped.length (skipped ++ rest) = decodeLossy rest := by
  induction skipped with
  | nil => rfl
  | cons b skipped ih => exact ih

theorem decodeLossy_sequence {bytes : List UInt8} {c : Char} (h : decodeSequence? bytes = some c)
    (rest : List UInt8) : decodeLossy (bytes ++ rest) = c :: decodeLossy rest := by
  cases bytes with
  | nil => cases h
  | cons lead tail =>
      have hcount := continuationCount_of_decodeSequence? h rest
      rw [List.cons_append, decodeLossy, decodeLossyFrom, hcount, decodeLossyFrom_append,
        List.take_left, h]
      rfl

theorem decodeLossy_encode (chars : List Char) : decodeLossy (chars.flatMap encode) = chars := by
  induction chars with
  | nil => rfl
  | cons c chars ih =>
      rw [List.flatMap_cons, decodeLossy_sequence (decodeSequence?_encode c), ih]

/-- A text is found again in its bytes. -/
theorem ofBytes_toBytes (text : String) : ofBytes (toBytes text) = text := by
  unfold ofBytes toBytes
  rw [decodeLossy_encode, String.ofList_toList]

end JsonPull.Text
