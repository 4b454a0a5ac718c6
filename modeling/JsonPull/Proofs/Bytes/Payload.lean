import JsonPull.Bytes.Payload
import JsonPull.Proofs.Bytes.Base64
import JsonPull.Proofs.Resume.Scalar

/-! # Texts that write bytes

A text writes bytes as their Base64, with blanks anywhere, or as a GUID. Base64 has no hyphen, so
that no text is both. -/

namespace JsonPull

open JsonPull.Json

variable {text bytes digits : List UInt8} {chars : List Char} {b : UInt8} {c : Char}

/-- A byte of ASCII that stands for itself in quotes. -/
def IsPlain (b : UInt8) : Prop := b < 0x80 ∧ b ≠ 0x22 ∧ b ≠ 0x5C

instance (b : UInt8) : Decidable (IsPlain b) := inferInstanceAs (Decidable (_ ∧ _ ∧ _))

/-! ## Base64 with blanks -/

/-- The characters of these bytes, with blanks between them. -/
inductive Spaced : List UInt8 → List Char → Prop where
  | nil : Spaced [] []
  | byte {b : UInt8} {c : Char} {bytes : List UInt8} {chars : List Char}
      (hc : Text.encode c = [b]) (h : Spaced bytes chars) : Spaced (b :: bytes) (c :: chars)
  | blank {c : Char} {bytes : List UInt8} {chars : List Char} (hblank : Text.isBlank c = true)
      (h : Spaced bytes chars) : Spaced bytes (c :: chars)

/-- Bytes of ASCII are the characters of their numbers. -/
theorem spaced_ascii (h : ∀ b ∈ bytes, b < 0x80) :
    Spaced bytes (bytes.map fun b => Char.ofNat b.toNat) := by
  induction bytes with
  | nil => exact .nil
  | cons b bytes ih =>
      exact .byte (Text.encode_ofByte (h b (by simp))) (ih fun b' hb' => h b' (by simp [hb']))

theorem Text.mem_encode_blank (hblank : Text.isBlank c = true) (hb : b ∈ Text.encode c) :
    Text.isBlankByte b = true ∨ 0x80 ≤ b := by
  rcases Text.encode_blank hblank with ⟨b', hencode, -, hbyte⟩ | ⟨lead, tail, hencode, hlead⟩
  · rw [hencode, List.mem_singleton] at hb
    subst hb
    exact .inl hbyte
  · by_cases hascii : c.toNat ≤ 0x7F
    · rw [Text.encode_ascii hascii] at hencode hb
      rw [List.mem_singleton] at hb
      rw [hb, (List.cons.inj hencode).1]
      exact .inr hlead
    · exact .inr (UInt8.le_iff_toNat_le.mpr (Text.le_toNat_of_mem_encode (by omega) hb))

/-- Without the blanks, the bytes are left. -/
theorem Spaced.filter (h : Spaced bytes chars)
    (hsolid : ∀ b ∈ bytes, b < 0x80 ∧ Text.isBlankByte b = false) :
    (chars.filter (!Text.isBlank ·)).flatMap Text.encode = bytes := by
  induction h with
  | nil => rfl
  | @byte b c bytes chars hc h ih =>
      obtain ⟨hascii, hbyte⟩ := hsolid b (by simp)
      have hblank : Text.isBlank c = false := by
        by_contra hblank
        have hmem : b ∈ Text.encode c := by simp [hc]
        rcases Text.mem_encode_blank (by simpa using hblank) hmem with hb | hb
        · rw [hbyte] at hb
          cases hb
        · exact absurd hascii (UInt8.not_lt.mpr hb)
      rw [List.filter_cons_of_pos (by simp [hblank]), List.flatMap_cons, hc,
        ih fun b' hb' => hsolid b' (by simp [hb'])]
      rfl
  | blank hblank h ih =>
      rw [List.filter_cons_of_neg (by simp [hblank])]
      exact ih hsolid

theorem Spaced.mem (h : Spaced bytes chars) (hb : b ∈ chars.flatMap Text.encode) :
    b ∈ bytes ∨ Text.isBlankByte b = true ∨ 0x80 ≤ b := by
  induction h with
  | nil => cases hb
  | @byte b' c bytes chars hc h ih =>
      rw [List.flatMap_cons, hc] at hb
      rcases List.mem_append.mp hb with hb | hb
      · exact .inl (List.mem_cons.mpr (.inl (List.mem_singleton.mp hb)))
      · exact (ih hb).imp_left (List.mem_cons_of_mem b')
  | blank hblank h ih =>
      rw [List.flatMap_cons] at hb
      rcases List.mem_append.mp hb with hb | hb
      · exact .inr (Text.mem_encode_blank hblank hb)
      · exact ih hb

theorem Base64.byte_spec : ∀ b ∈ pad :: alphabet,
    IsPlain b ∧ Text.isBlankByte b = false ∧ b ≠ Guid.hyphen := by
  decide +kernel

/-! ## GUIDs -/

namespace Guid

/-- Bytes in pairs of hexadecimal digits of either case. -/
inductive HexPairs : List UInt8 → List UInt8 → Prop where
  | nil : HexPairs [] []
  | pair {high low b : UInt8} {h l : Nat} {digits bytes : List UInt8} (hhigh : IsHex high h)
      (hlow : IsHex low l) (hb : b.toNat = 16 * h + l) (hrest : HexPairs digits bytes) :
      HexPairs (high :: low :: digits) (b :: bytes)

/-- So many bytes in pairs of hexadecimal digits. -/
structure IsGroup (count : Nat) (digits bytes : List UInt8) : Prop where
  pairs : HexPairs digits bytes
  length_eq : bytes.length = count

/-- The texts of a GUID, of 8, 4, 4, 4 and 12 digits. The bytes of the first three groups are in
reverse order. -/
inductive IsText : List UInt8 → List UInt8 → Prop where
  | mk {a b c d e first second third fourth fifth : List UInt8} (ha : IsGroup 4 a first)
      (hb : IsGroup 2 b second) (hc : IsGroup 2 c third) (hd : IsGroup 2 d fourth)
      (he : IsGroup 6 e fifth) :
      IsText (a ++ hyphen :: (b ++ hyphen :: (c ++ hyphen :: (d ++ hyphen :: e))))
        (first.reverse ++ second.reverse ++ third.reverse ++ fourth ++ fifth)

/-! ### Every byte has digits -/

theorem exists_isHex {n : Nat} (h : n < 16) : ∃ b, IsHex b n := by
  by_cases hdigit : n ≤ 9
  · exact ⟨UInt8.ofNat (0x30 + n), .inl ⟨hdigit, Text.toNat_ofNat (by omega)⟩⟩
  · have hletter : 10 ≤ n ∧ n ≤ 15 := by omega
    exact ⟨UInt8.ofNat (0x61 + (n - 10)),
      .inr (.inl ⟨hletter.1, hletter.2, Text.toNat_ofNat (by omega)⟩)⟩

theorem exists_hexPairs (bytes : List UInt8) : ∃ digits, HexPairs digits bytes := by
  induction bytes with
  | nil => exact ⟨[], .nil⟩
  | cons b bytes ih =>
      have hlt := b.toNat_lt
      obtain ⟨high, hhigh⟩ := exists_isHex (show b.toNat / 16 < 16 by omega)
      obtain ⟨low, hlow⟩ := exists_isHex (show b.toNat % 16 < 16 by omega)
      obtain ⟨digits, hdigits⟩ := ih
      exact ⟨_, .pair hhigh hlow (by omega) hdigits⟩

theorem exists_isGroup {count : Nat} (h : bytes.length = count) :
    ∃ digits, IsGroup count digits bytes := by
  obtain ⟨digits, hdigits⟩ := exists_hexPairs bytes
  exact ⟨digits, hdigits, h⟩

/-- Any sixteen bytes have a GUID. -/
theorem exists_isText (h : bytes.length = 16) : ∃ text, IsText text bytes := by
  obtain ⟨a, ha⟩ := exists_isGroup (show (bytes.take 4).reverse.length = 4 by simp [h])
  obtain ⟨b, hb⟩ := exists_isGroup (show ((bytes.drop 4).take 2).reverse.length = 2 by simp [h])
  obtain ⟨c, hc⟩ := exists_isGroup (show ((bytes.drop 6).take 2).reverse.length = 2 by simp [h])
  obtain ⟨d, hd⟩ := exists_isGroup (show ((bytes.drop 8).take 2).length = 2 by simp [h])
  obtain ⟨e, he⟩ := exists_isGroup (show (bytes.drop 10).length = 6 by simp [h])
  have htext := IsText.mk ha hb hc hd he
  rw [List.reverse_reverse, List.reverse_reverse, List.reverse_reverse, ← List.take_add,
    ← List.take_add, ← List.take_add, List.take_append_drop] at htext
  exact ⟨_, htext⟩

theorem isPlain_hex {n : Nat} (h : IsHex b n) : IsPlain b := by
  have hnat : b.toNat < 0x80 ∧ b.toNat ≠ 0x22 ∧ b.toNat ≠ 0x5C := by
    unfold IsHex at h
    omega
  refine ⟨UInt8.lt_iff_toNat_lt.mpr hnat.1, ?_, ?_⟩
  · rintro rfl
    exact hnat.2.1 rfl
  · rintro rfl
    exact hnat.2.2 rfl

theorem HexPairs.isPlain (h : HexPairs digits bytes) : ∀ b ∈ digits, IsPlain b := by
  induction h with
  | nil => simp
  | pair hhigh hlow hb hrest ih =>
      simp only [List.mem_cons, forall_eq_or_imp]
      exact ⟨isPlain_hex hhigh, isPlain_hex hlow, ih⟩

theorem IsText.isPlain (h : IsText text bytes) : ∀ b ∈ text, IsPlain b := by
  have hhyphen : IsPlain hyphen := by decide
  cases h with
  | mk ha hb hc hd he =>
      simp only [List.forall_mem_append, List.mem_cons, forall_eq_or_imp]
      exact ⟨ha.pairs.isPlain, hhyphen, hb.pairs.isPlain, hhyphen, hc.pairs.isPlain, hhyphen,
        hd.pairs.isPlain, hhyphen, he.pairs.isPlain⟩

theorem hexBytes?_pairs (h : HexPairs digits bytes) : hexBytes? digits = some bytes := by
  induction h with
  | nil => rfl
  | @pair high low b h l digits bytes hhigh hlow hb hrest ih =>
      have hbyte : UInt8.ofNat (16 * h + l) = b := Text.ofNat_eq hb.symm
      unfold hexBytes?
      rw [hexValue?_hex hhigh, hexValue?_hex hlow, ih]
      exact congrArg (fun b => some (b :: bytes)) hbyte

theorem HexPairs.length (h : HexPairs digits bytes) : digits.length = 2 * bytes.length := by
  induction h with
  | nil => rfl
  | pair hhigh hlow hb hrest ih =>
      rw [List.length_cons, List.length_cons, List.length_cons, ih]
      omega

theorem IsGroup.length {count : Nat} (h : IsGroup count digits bytes) :
    digits.length = 2 * count := by
  rw [h.pairs.length, h.length_eq]

/-- The bytes of a group that stands in a text, and what follows it. -/
theorem hexBytes?_group {count first last : Nat} {group behind : List UInt8}
    (hgroup : IsGroup count group bytes) (hlast : first + 2 * count = last)
    (h : Ahead text first (group ++ behind)) :
    hexBytes? ((text.take last).drop first) = some bytes ∧ Ahead text last behind := by
  have hlength : last - first = group.length := by
    rw [hgroup.length]
    omega
  constructor
  · rw [List.drop_take, hlength, h.slice]
    exact hexBytes?_pairs hgroup.pairs
  · have hskip := h.skip
    rwa [hgroup.length, hlast] at hskip

/-- A GUID is read as the bytes that its groups write. -/
theorem ofBytes?_text (h : IsText text bytes) : ofBytes? text = some bytes := by
  cases h with
  | @mk a b c d e first second third fourth fifth ha hb hc hd he =>
      generalize htext : a ++ hyphen :: (b ++ hyphen :: (c ++ hyphen :: (d ++ hyphen :: e))) = text
      have hlength : text.length = 36 := by
        simp [← htext, ha.length, hb.length, hc.length, hd.length, he.length]
      have h₀ : Ahead text 0 _ := htext.symm
      obtain ⟨hfirst, h₈⟩ := hexBytes?_group ha rfl h₀
      have h₉ : Ahead text 9 _ := h₈.tail
      obtain ⟨hsecond, h₁₃⟩ := hexBytes?_group hb rfl h₉
      have h₁₄ : Ahead text 14 _ := h₁₃.tail
      obtain ⟨hthird, h₁₈⟩ := hexBytes?_group hc rfl h₁₄
      have h₁₉ : Ahead text 19 _ := h₁₈.tail
      obtain ⟨hfourth, h₂₃⟩ := hexBytes?_group hd rfl h₁₉
      have h₂₄ : Ahead text 24 (e ++ []) := by
        rw [List.append_nil]
        exact h₂₃.tail
      obtain ⟨hfifth, -⟩ := hexBytes?_group he rfl h₂₄
      have hmarks : text.length = 36 ∧ ∀ place ∈ [8, 13, 18, 23], text[place]? = some hyphen := by
        refine ⟨hlength, ?_⟩
        intro place hplace
        simp only [List.mem_cons, List.not_mem_nil, or_false] at hplace
        rcases hplace with rfl | rfl | rfl | rfl
        · exact h₈.head?
        · exact h₁₃.head?
        · exact h₁₈.head?
        · exact h₂₃.head?
      unfold ofBytes?
      dsimp only
      rw [if_pos hmarks, hfirst, hsecond, hthird, hfourth, hfifth]
      rfl

theorem hyphen_mem (h : ofBytes? text = some bytes) : hyphen ∈ text := by
  unfold ofBytes? at h
  dsimp only at h
  split at h
  · rename_i hmarks
    exact List.mem_of_getElem? (hmarks.2 8 (by simp))
  · cases h

end Guid

namespace Payload

/-- The Base64 of bytes writes them, wherever blanks stand in it. -/
theorem ofText_base64 {text : String} (h : Spaced (Base64.encode bytes) text.toList) :
    ofText text = .ok bytes := by
  have hguid : Guid.ofBytes? (Text.toBytes text) = none := by
    rw [Option.eq_none_iff_forall_ne_some]
    intro found hfound
    rcases h.mem (Guid.hyphen_mem hfound) with hmem | hblank | hbeyond
    · exact (Base64.byte_spec _ (Base64.mem_encode bytes _ hmem)).2.2 rfl
    · cases hblank
    · exact absurd hbeyond (by decide)
  have hfilter := h.filter fun b hb =>
    ⟨(Base64.byte_spec b (Base64.mem_encode bytes b hb)).1.1,
      (Base64.byte_spec b (Base64.mem_encode bytes b hb)).2.1⟩
  unfold ofText
  rw [hguid]
  dsimp only
  rw [hfilter, Base64.decode_encode]

theorem ofText_guid {text : String} (h : Guid.IsText (Text.toBytes text) bytes) :
    ofText text = .ok bytes := by
  unfold ofText
  rw [Guid.ofBytes?_text h]

end Payload

end JsonPull
