import JsonPull.Bytes.Base64
import JsonPull.Proofs.Text.Utf8

/-! # The Base64 of bytes

Three bytes are written as four symbols. Behind them, one or two bytes are written as two or three
symbols, with padding. Decoding gives the bytes back. -/

namespace JsonPull.Base64

variable {group symbols quad : List Nat} {bytes last : List UInt8} {v offset : Nat} {b : UInt8}

/-- The symbols in the order of their values. -/
def alphabet : List UInt8 :=
  Text.toBytes "ABCDEFGHIJKLMNOPQRSTUVWXYZabcdefghijklmnopqrstuvwxyz0123456789+/"

/-- The symbol of six bits. -/
def symbol (v : Nat) : UInt8 := alphabet[v]?.getD pad

/-- The bits of one to three bytes, six by six. The last bits are filled up with zeros. -/
def sextets : List UInt8 → List Nat
  | [a] => [a.toNat / 4, a.toNat % 4 * 16]
  | [a, b] => [a.toNat / 4, a.toNat % 4 * 16 + b.toNat / 16, b.toNat % 16 * 4]
  | [a, b, c] =>
    [a.toNat / 4, a.toNat % 4 * 16 + b.toNat / 16, b.toNat % 16 * 4 + c.toNat / 64, c.toNat % 64]
  | _ => []

/-- The four symbols of one to three bytes, with padding in the place of those that are missing. -/
def encodeGroup (group : List UInt8) : List UInt8 :=
  (sextets group).map symbol ++ List.replicate (3 - group.length) pad

/-- The Base64 of bytes. -/
def encode : List UInt8 → List UInt8
  | a :: b :: c :: rest => encodeGroup [a, b, c] ++ encode rest
  | [] => []
  | last => encodeGroup last

/-- What four symbols write. -/
inductive IsGroup : List UInt8 → Prop where
  | one (a : UInt8) : IsGroup [a]
  | two (a b : UInt8) : IsGroup [a, b]
  | three (a b c : UInt8) : IsGroup [a, b, c]

/-! ## Symbols -/

theorem symbol_spec : ∀ v < 64, value? (symbol v) = some v ∧ symbol v ≠ pad := by
  decide +kernel

theorem values_symbols (hlt : ∀ v ∈ symbols, v < 64) :
    values offset (symbols.map symbol) = .ok symbols := by
  induction symbols generalizing offset with
  | nil => rfl
  | cons v symbols ih =>
      obtain ⟨hvalue, -⟩ := symbol_spec v (hlt v (by simp))
      have hrest : values (offset + 1) (symbols.map symbol) = .ok symbols :=
        ih fun v' hv' => hlt v' (by simp [hv'])
      simp only [List.map_cons, values, hvalue, hrest]
      rfl

theorem lastValues_padding (count : Nat) {index : Nat} (hindex : 2 ≤ index)
    (firstPad : Option Nat) :
    lastValues offset index firstPad (List.replicate count pad) = .ok [] := by
  induction count generalizing index firstPad with
  | zero => rfl
  | succ count ih =>
      rw [List.replicate_succ]
      unfold lastValues
      rw [if_pos (beq_self_eq_true pad), if_neg (by omega)]
      exact ih (by omega) _

theorem lastValues_symbols (hlt : ∀ v ∈ symbols, v < 64) (count : Nat) {index : Nat}
    (hindex : 2 ≤ index + symbols.length) :
    lastValues offset index none (symbols.map symbol ++ List.replicate count pad) =
      .ok symbols := by
  induction symbols generalizing index with
  | nil => exact lastValues_padding count (by simpa using hindex) none
  | cons v symbols ih =>
      obtain ⟨hvalue, hpad⟩ := symbol_spec v (hlt v (by simp))
      have hnext : 2 ≤ index + 1 + symbols.length := by
        simp only [List.length_cons] at hindex
        omega
      have hrest := ih (fun v' hv' => hlt v' (by simp [hv'])) hnext
      rw [List.map_cons, List.cons_append]
      unfold lastValues
      rw [if_neg (by simpa using hpad), hvalue]
      dsimp only
      rw [hrest]
      rfl

/-! ## Groups -/

theorem sextets_lt (group : List UInt8) : ∀ v ∈ sextets group, v < 64 := by
  intro v hv
  unfold sextets at hv
  split at hv
  · rename_i a
    have ha := a.toNat_lt
    simp at hv
    omega
  · rename_i a b
    have ha := a.toNat_lt
    have hb := b.toNat_lt
    simp at hv
    omega
  · rename_i a b c
    have ha := a.toNat_lt
    have hb := b.toNat_lt
    have hc := c.toNat_lt
    simp at hv
    omega
  · simp at hv

theorem groupBytes_sextets (h : IsGroup bytes) : groupBytes (sextets bytes) = bytes := by
  cases h with
  | one a =>
      simp only [sextets, groupBytes]
      rw [Text.ofNat_eq (b := a) (by omega)]
  | two a b =>
      have hb := b.toNat_lt
      simp only [sextets, groupBytes]
      rw [Text.ofNat_eq (b := a) (by omega), Text.ofNat_eq (b := b) (by omega)]
  | three a b c =>
      have hb := b.toNat_lt
      have hc := c.toNat_lt
      simp only [sextets, groupBytes]
      rw [Text.ofNat_eq (b := a) (by omega), Text.ofNat_eq (b := b) (by omega), Text.ofNat_eq (b := c) (by omega)]

theorem leftover_sextets (h : IsGroup bytes) : leftover (sextets bytes) = 0 := by
  cases h <;> simp [sextets, leftover]

theorem length_encodeGroup (h : IsGroup bytes) : (encodeGroup bytes).length = 4 := by
  cases h <;> rfl

theorem decodeLast_encodeGroup (h : IsGroup bytes) :
    decodeLast offset (encodeGroup bytes) = .ok bytes := by
  have htwo : 2 ≤ (sextets bytes).length := by
    cases h <;> simp [sextets]
  have hvalues : lastValues offset 0 none (encodeGroup bytes) = .ok (sextets bytes) :=
    lastValues_symbols (sextets_lt bytes) _ (by omega)
  unfold decodeLast
  rw [hvalues]
  dsimp only
  rw [if_neg (by omega), if_neg (by simp [length_encodeGroup h]),
    if_neg (by simp [leftover_sextets h]), groupBytes_sextets h]

/-! ## Bytes -/

theorem symbol_mem (v : Nat) : symbol v ∈ pad :: alphabet := by
  unfold symbol
  cases h : alphabet[v]? with
  | none => exact List.mem_cons_self
  | some b => exact List.mem_cons_of_mem _ (List.mem_of_getElem? h)

theorem mem_encodeGroup (group : List UInt8) : ∀ b ∈ encodeGroup group, b ∈ pad :: alphabet := by
  intro b hb
  rcases List.mem_append.mp hb with hb | hb
  · obtain ⟨v, -, rfl⟩ := List.mem_map.mp hb
    exact symbol_mem v
  · rw [List.eq_of_mem_replicate hb]
    exact List.mem_cons_self

/-- Base64 consists of symbols and padding. -/
theorem mem_encode (bytes : List UInt8) : ∀ b ∈ encode bytes, b ∈ pad :: alphabet := by
  fun_induction encode bytes with
  | case1 a b c rest ih =>
      intro b' hb'
      exact (List.mem_append.mp hb').elim (mem_encodeGroup _ b') (ih b')
  | case2 => simp
  | case3 last => exact mem_encodeGroup last

/-- The symbols of all groups but the last are full. -/
theorem encode_split (hne : bytes ≠ []) : ∃ symbols last, IsGroup last ∧
    (∀ v ∈ symbols, v < 64) ∧ symbols.length % 4 = 0 ∧ groupsBytes symbols ++ last = bytes ∧
    encode bytes = symbols.map symbol ++ encodeGroup last := by
  fun_induction encode bytes with
  | case1 a b c rest ih =>
      by_cases hrest : rest = []
      · subst hrest
        exact ⟨[], [a, b, c], .three a b c, by simp, rfl, rfl, by simp [encode]⟩
      · obtain ⟨symbols, last, hlast, hlt, hlength, hbytes, hencode⟩ := ih hrest
        have hgroup : groupBytes (sextets [a, b, c]) = [a, b, c] :=
          groupBytes_sextets (.three a b c)
        refine ⟨sextets [a, b, c] ++ symbols, last, hlast, ?_, ?_, ?_, ?_⟩
        · intro v hv
          exact (List.mem_append.mp hv).elim (sextets_lt _ v) (hlt v)
        · rw [List.length_append]
          change (4 + symbols.length) % 4 = 0
          omega
        · change groupBytes (sextets [a, b, c]) ++ groupsBytes symbols ++ last = _
          rw [hgroup, List.append_assoc, hbytes]
          rfl
        · rw [hencode, List.map_append, List.append_assoc]
          rfl
  | case2 => exact absurd rfl hne
  | case3 last hthree hnil =>
      have hlast : IsGroup last := by
        rcases last with _ | ⟨a, _ | ⟨b, _ | ⟨c, rest⟩⟩⟩
        · exact absurd rfl hnil
        · exact .one a
        · exact .two a b
        · exact absurd rfl (hthree a b c rest)
      exact ⟨[], last, hlast, by simp, rfl, rfl, rfl⟩

/-- Decoding gives the bytes back. -/
theorem decode_encode (bytes : List UInt8) : decode (encode bytes) = .ok bytes := by
  by_cases hne : bytes = []
  · subst hne
    rfl
  · obtain ⟨symbols, last, hlast, hlt, hlength, hbytes, hencode⟩ := encode_split hne
    have hlast4 := length_encodeGroup hlast
    have htext : (encode bytes).length = symbols.length + 4 := by
      rw [hencode, List.length_append, List.length_map, hlast4]
    have hstray : strayByte? (encode bytes) = none := by
      unfold strayByte?
      rw [if_neg (by omega)]
    have hempty : (encode bytes).isEmpty = false := by
      rw [List.isEmpty_eq_false_iff, ← List.length_pos_iff]
      omega
    have hoffset : ((encode bytes).length - 1) / 4 * 4 = (symbols.map symbol).length := by
      rw [htext, List.length_map]
      omega
    unfold decode
    rw [hstray, hempty, if_neg Bool.false_ne_true, hoffset, hencode]
    dsimp only
    rw [List.take_left, List.drop_left, values_symbols hlt, decodeLast_encodeGroup hlast]
    exact congrArg Except.ok hbytes

end JsonPull.Base64
