import JsonPull.Proofs.Reading.Step
import JsonPull.Proofs.Reading.Success
import JsonPull.Proofs.Text.Utf8

/-! # Blanks

A blank is a character of ASCII or one beyond, and is consumed as a whole. Blanks change nothing but
the count of lines. -/

namespace JsonPull

variable {settings : Settings} {stream bytes space rest : List UInt8} {s : State} {pos : Nat}
  {b : UInt8} {c : Char}

namespace Json

/-- What begins with none of the bytes that are skipped as blanks. -/
def IsSolid (bytes : List UInt8) : Prop :=
  ∀ b ∈ bytes.head?, b < 0x80 ∧ Text.isBlankByte b = false

theorem isSolid_nil : IsSolid [] := by
  rintro b ⟨⟩

theorem isSolid_cons (h : b < 0x80 ∧ Text.isBlankByte b = false) (bytes : List UInt8) :
    IsSolid (b :: bytes) := by
  rintro b ⟨⟩
  exact h

end Json

/-- Blank characters. -/
inductive IsSpace : List UInt8 → Prop where
  | nil : IsSpace []
  | blank {c : Char} {space : List UInt8} (hblank : Text.isBlank c = true) (h : IsSpace space) :
      IsSpace (Text.encode c ++ space)

theorem IsSpace.append {space' : List UInt8} (h : IsSpace space) (h' : IsSpace space') :
    IsSpace (space ++ space') := by
  induction h with
  | nil => exact h'
  | blank hblank h ih =>
      rw [List.append_assoc]
      exact .blank hblank ih

theorem Text.isBlankByte_iff (b : UInt8) :
    Text.isBlankByte b = true ↔ b.toNat = 0x20 ∨ 0x09 ≤ b.toNat ∧ b.toNat ≤ 0x0D := by
  simp only [Text.isBlankByte, Bool.or_eq_true, Bool.and_eq_true, decide_eq_true_eq, beq_iff_eq,
    UInt8.le_iff_toNat_le, ← UInt8.toNat_inj, UInt8.reduceToNat]

theorem Text.isBlank_ofByte (hascii : b < 0x80) :
    Text.isBlank (Char.ofNat b.toNat) = Text.isBlankByte b := by
  have hlt : b.toNat < 0x80 := UInt8.lt_iff_toNat_lt.mp hascii
  have htoNat := Text.toNat_ofByte hascii
  rw [Bool.eq_iff_iff, Text.isBlankByte_iff, Text.isBlank, Text.inRanges_ascii _ (by omega)]
  simp [← Char.toNat_inj, htoNat]

theorem Text.encode_eq_cons (c : Char) : ∃ b tail, Text.encode c = b :: tail :=
  List.exists_cons_of_ne_nil String.utf8EncodeChar_ne_nil

/-- A character is a byte of ASCII, or begins with a byte beyond. -/
theorem Text.encode_cases (c : Char) :
    (∃ b, Text.encode c = [b] ∧ b < 0x80 ∧ Text.isBlankByte b = Text.isBlank c) ∨
      ∃ lead tail, Text.encode c = lead :: tail ∧ 0x80 ≤ lead := by
  by_cases hascii : c.toNat ≤ 0x7F
  · have hnat : (UInt8.ofNat c.toNat).toNat = c.toNat := Text.toNat_ofNat (by omega)
    refine .inl ⟨_, Text.encode_ascii hascii, ?_, ?_⟩
    · rw [UInt8.lt_iff_toNat_lt, hnat]
      exact Nat.lt_succ_of_le hascii
    · rw [Bool.eq_iff_iff, Text.isBlankByte_iff, hnat]
      simp [Text.isBlank, Text.inRanges_ascii _ (Nat.lt_succ_of_le hascii), ← Char.toNat_inj]
  · obtain ⟨lead, tail, hencode⟩ := Text.encode_eq_cons c
    have hmem : lead ∈ Text.encode c := by simp [hencode]
    have hle := Text.le_toNat_of_mem_encode (Nat.lt_of_not_le hascii) hmem
    exact .inr ⟨lead, tail, hencode, UInt8.le_iff_toNat_le.mpr hle⟩

/-- A blank is a byte of ASCII, or begins with a byte beyond. -/
theorem Text.encode_blank (h : Text.isBlank c = true) :
    (∃ b, Text.encode c = [b] ∧ b < 0x80 ∧ Text.isBlankByte b = true) ∨
      ∃ lead tail, Text.encode c = lead :: tail ∧ 0x80 ≤ lead := by
  rw [← h]
  exact Text.encode_cases c

/-- A blank that begins with a byte of ASCII is that byte. -/
theorem Text.encode_blank_ascii {bytes : List UInt8} (hblank : Text.isBlank c = true)
    (hencode : Text.encode c = b :: bytes) (hb : b < 0x80) : bytes = [] := by
  rcases Text.encode_blank hblank with ⟨b', hb', -, -⟩ | ⟨lead, tail, hb', hlead⟩
  · exact (List.cons.inj (hencode.symm.trans hb')).2
  · rw [(List.cons.inj (hencode.symm.trans hb')).1] at hb
    exact absurd hb (UInt8.not_lt.mpr hlead)

/-- What begins with no blank: the end, or a character that is none. -/
inductive Inked : List UInt8 → Prop where
  | nil : Inked []
  | char {c : Char} (hblank : Text.isBlank c = false) (rest : List UInt8) :
      Inked (Text.encode c ++ rest)

theorem Json.IsSolid.inked (h : Json.IsSolid rest) : Inked rest := by
  cases rest with
  | nil => exact .nil
  | cons b rest =>
      obtain ⟨hascii, hblank⟩ := h b rfl
      rw [← Text.isBlank_ofByte hascii] at hblank
      have hinked := Inked.char hblank rest
      rwa [Text.encode_ofByte hascii] at hinked

/-- A line feed before what is no blank is one of the blanks. -/
theorem IsSpace.feed {more : List UInt8} (h : IsSpace space) (hrest : Inked rest)
    (hmore : space ++ rest = 0x0A :: more) :
    ∃ space', IsSpace space' ∧ space'.length < space.length ∧ more = space' ++ rest := by
  cases h with
  | nil =>
      rw [List.nil_append] at hmore
      cases hrest with
      | nil => cases hmore
      | @char c hblank rest =>
          rcases Text.encode_cases c with ⟨b, hencode, -, hbyte⟩ | ⟨lead, tail, hencode, hle⟩
          · rw [hencode] at hmore
            obtain rfl : b = 0x0A := List.head_eq_of_cons_eq hmore
            rw [hblank] at hbyte
            cases hbyte
          · rw [hencode] at hmore
            obtain rfl : lead = 0x0A := List.head_eq_of_cons_eq hmore
            exact absurd hle (by decide)
  | @blank c space hblank h =>
      obtain ⟨b, tail, hencode⟩ := Text.encode_eq_cons c
      rw [hencode] at hmore ⊢
      obtain ⟨rfl, hrest⟩ := List.cons.inj hmore
      obtain rfl := Text.encode_blank_ascii hblank hencode (by decide)
      exact ⟨space, h, Nat.lt_succ_self _, hrest.symm⟩

namespace Reading

open JsonPull.Json

theorem succeeds_bytes? (h : Ahead stream pos (bytes ++ rest)) {count : Nat}
    (hlength : bytes.length = count + 1) {retain : Retain}
    {post : Option (List UInt8) → State → Nat → Prop} :
    (bytes? 0 count retain).Succeeds settings stream s pos post ↔ post (some bytes) s pos := by
  have hlast : stream[pos + (0 + count)]? = bytes[count]? := by
    rw [h.getElem?, Nat.zero_add, List.getElem?_append_left (by omega)]
  have htake : (stream.drop (pos + 0)).take bytes.length = bytes := h.slice
  unfold bytes?
  rw [succeeds_bind, succeeds_byte?, hlast, List.getElem?_eq_getElem (by omega)]
  dsimp only
  rw [succeeds_bind, succeeds_cursor, succeeds_bind, succeeds_bytesOf, succeeds_pure]
  dsimp only
  rw [Nat.add_sub_cancel_left, ← hlength, htake]

theorem succeeds_blankLength? (hb : b < 0x80) (h : Ahead stream pos (b :: rest)) {retain : Retain}
    {post : Option Nat → State → Nat → Prop} :
    (blankLength? retain).Succeeds settings stream s pos post ↔
      post (if Text.isBlankByte b then some 1 else none) s pos := by
  unfold blankLength?
  rw [succeeds_bind, succeeds_byte?, h.head?]
  dsimp only [List.head?_cons]
  rw [if_pos hb]
  exact succeeds_pure _

theorem same_lines (s : State) (lines : Lines) : s.Same { s with lines } :=
  ⟨rfl, rfl, rfl, rfl⟩

theorem succeeds_takeReturn (h : Ahead stream pos (0x0D :: rest)) {retain : Retain}
    {post : Bool → State → Nat → Prop}
    (hpaired : ∀ more s', rest = 0x0A :: more → s.Same s' → post true s' (pos + 2))
    (hsingle : ∀ s', rest.head? ≠ some 0x0A → s.Same s' → post false s' (pos + 1)) :
    (takeReturn retain).Succeeds settings stream s pos post := by
  have hnext : stream[pos + 1]? = rest.head? := h.tail.head?
  by_cases hfeed : rest.head? = some 0x0A
  · obtain ⟨more, hmore⟩ := List.head?_eq_some_iff.mp hfeed
    rw [succeeds_takeReturn_paired (hnext.trans hfeed)]
    exact hpaired more _ hmore (same_lines s _)
  · rw [succeeds_takeReturn_lone (hnext ▸ hfeed)]
    exact hsingle _ hfeed (same_lines s _)

theorem succeeds_charAt?_encode (h : Ahead stream pos (Text.encode c ++ rest)) {retain : Retain}
    {post : Option (Char × Nat) → State → Nat → Prop} :
    (charAt? 0 retain).Succeeds settings stream s pos post ↔
      post (some (c, (Text.encode c).length)) s pos := by
  have hdecode := Text.decodeSequence?_encode c
  cases hencode : Text.encode c with
  | nil => exact absurd hencode String.utf8EncodeChar_ne_nil
  | cons lead tail =>
      rw [hencode] at h hdecode
      have hlength := Text.sequenceLength_of_decodeSequence? hdecode
      unfold charAt?
      rw [succeeds_bind, succeeds_byte?, h.head?]
      dsimp only [List.cons_append, List.head?_cons]
      split
      · rename_i hascii
        cases tail with
        | nil =>
            simp only [Text.decodeSequence?, hascii, if_true, Option.some.injEq] at hdecode
            rw [succeeds_pure, hdecode]
            rfl
        | cons b tail =>
            have hsingle : Text.decodeSequence? [lead] = some (Char.ofNat lead.toNat) := by
              simp [Text.decodeSequence?, hascii]
            have hone := Text.sequenceLength_of_decodeSequence? hsingle
            simp only [hone, List.length_cons, List.length_nil] at hlength
            omega
      · rename_i hbeyond
        split
        · rename_i hone
          cases tail with
          | nil => simp [Text.decodeSequence?, hbeyond] at hdecode
          | cons b tail =>
              simp only [hone, List.length_cons] at hlength
              omega
        · rw [succeeds_bind, succeeds_bytes? h (by rw [hlength]; simp)]
          dsimp only
          rw [hdecode]
          dsimp only
          rw [succeeds_pure, hlength]
          rfl

theorem succeeds_blankLength?_encode (h : Ahead stream pos (Text.encode c ++ rest)) {retain : Retain}
    {post : Option Nat → State → Nat → Prop} :
    (blankLength? retain).Succeeds settings stream s pos post ↔
      post (if Text.isBlank c then some (Text.encode c).length else none) s pos := by
  rcases Text.encode_cases c with ⟨b, hb, hascii, hbyte⟩ | ⟨lead, tail, hb, hle⟩
  · rw [hb] at h ⊢
    rw [succeeds_blankLength? hascii h, hbyte]
    rfl
  · have hhead : stream[pos + 0]? = some lead := by rw [h.head?, hb]; rfl
    unfold blankLength?
    rw [succeeds_bind, succeeds_byte?, hhead]
    dsimp only
    rw [if_neg (UInt8.not_lt.mpr hle), succeeds_bind, succeeds_charAt?_encode h]
    exact succeeds_pure _

theorem succeeds_blankLength?_blank (hblank : Text.isBlank c = true)
    (h : Ahead stream pos (Text.encode c ++ rest)) {retain : Retain} :
    (blankLength? retain).Succeeds settings stream s pos
      fun r s' pos' => r = some (Text.encode c).length ∧ s' = s ∧ pos' = pos := by
  rw [succeeds_blankLength?_encode h, hblank]
  exact ⟨rfl, rfl, rfl⟩

theorem succeeds_skipBlanks_return (h : Ahead stream pos (0x0D :: rest))
    {post : Option UInt8 → State → Nat → Prop}
    (hpaired : ∀ more s', rest = 0x0A :: more → s.Same s' →
      skipBlanks.Succeeds settings stream s' (pos + 2) post)
    (hsingle : ∀ s', s.Same s' → skipBlanks.Succeeds settings stream s' (pos + 1) post) :
    skipBlanks.Succeeds settings stream s pos post := by
  apply succeeds_repeating
  rw [succeeds_bind, succeeds_byte?, h.head?]
  change (takeReturn .unread >>= fun _ => pure (Turn.again ())).Succeeds _ _ _ _ _
  rw [succeeds_bind]
  refine succeeds_takeReturn h ?_ ?_
  · intro more s' hmore hs
    exact (succeeds_pure _).mpr ⟨Nat.lt_add_of_pos_right Nat.two_pos, h.lt, hpaired more s' hmore hs⟩
  · intro s' hfeed hs
    exact (succeeds_pure _).mpr ⟨Nat.lt_succ_self pos, h.lt, hsingle s' hs⟩

/-- A blank that is no carriage return is skipped as a whole. -/
theorem succeeds_skipBlanks_blank (hblank : Text.isBlank c = true)
    (h : Ahead stream pos (Text.encode c ++ rest)) (hreturn : (Text.encode c).head? ≠ some 0x0D)
    {post : Option UInt8 → State → Nat → Prop}
    (hnext : ∀ s', s.Same s' →
      skipBlanks.Succeeds settings stream s' (pos + (Text.encode c).length) post) :
    skipBlanks.Succeeds settings stream s pos post := by
  obtain ⟨b, tail, hencode⟩ := Text.encode_eq_cons c
  have hlt : pos < pos + (Text.encode c).length := by
    rw [hencode, List.length_cons]
    omega
  have hstream : pos < stream.length := by
    rw [hencode, List.cons_append] at h
    exact h.lt
  apply succeeds_repeating
  rw [succeeds_bind, succeeds_byte?, h.head?, hencode, List.cons_append, List.head?_cons]
  split
  · rename_i heq
    cases heq
  · rename_i heq
    cases heq
    rw [hencode] at hreturn
    exact absurd rfl hreturn
  · rename_i heq
    cases heq
    obtain rfl := Text.encode_blank_ascii hblank hencode (by decide)
    rw [succeeds_bind, succeeds_takeFeed, succeeds_pure]
    refine ⟨Nat.lt_succ_self pos, hstream, ?_⟩
    rw [hencode] at hnext
    exact hnext _ (same_lines s _)
  · rw [succeeds_bind]
    refine (succeeds_blankLength?_blank hblank h).mono ?_
    rintro _ _ _ ⟨rfl, rfl, rfl⟩
    dsimp only
    rw [succeeds_bind, succeeds_advance, succeeds_pure]
    exact ⟨hlt, hstream, hnext _ (.refl _)⟩

/-- Blanks end where no blank follows. -/
theorem succeeds_skipBlanks_inked (hrest : Inked rest) (h : Ahead stream pos rest)
    {post : Option UInt8 → State → Nat → Prop} (hpost : post rest.head? s pos) :
    skipBlanks.Succeeds settings stream s pos post := by
  apply succeeds_repeating
  rw [succeeds_bind, succeeds_byte?, h.head?]
  cases hrest with
  | nil => exact (succeeds_pure _).mpr hpost
  | @char c hblank rest =>
      -- Return and feed are blanks, so the byte is looked at as the first one of the character.
      have hnot : ∀ b, Text.isBlankByte b = true → b < 0x80 →
          (Text.encode c ++ rest).head? ≠ some b := by
        intro b hb hascii hhead
        rcases Text.encode_cases c with ⟨b', hencode, -, hbyte⟩ | ⟨lead, tail, hencode, hle⟩
        · rw [hencode] at hhead
          obtain rfl := Option.some.inj hhead
          rw [hbyte, hblank] at hb
          cases hb
        · rw [hencode] at hhead
          obtain rfl := Option.some.inj hhead
          exact absurd hascii (UInt8.not_lt.mpr hle)
      split
      · rename_i heq
        rw [heq] at hpost
        exact (succeeds_pure _).mpr hpost
      · rename_i heq
        exact absurd heq (hnot _ rfl (by decide))
      · rename_i heq
        exact absurd heq (hnot _ rfl (by decide))
      · rename_i b _ _ heq
        rw [succeeds_bind, succeeds_blankLength?_encode h, hblank]
        rw [heq] at hpost
        exact (succeeds_pure _).mpr hpost

/-- Blanks are skipped up to what begins with none, and what follows them is seen. -/
theorem succeeds_skipBlanks_until (hspace : IsSpace space) (hrest : Inked rest)
    (h : Ahead stream pos (space ++ rest)) {post : Option UInt8 → State → Nat → Prop}
    (hpost : ∀ s' pos', s.Same s' → Ahead stream pos' rest → post rest.head? s' pos') :
    skipBlanks.Succeeds settings stream s pos post := by
  -- A return and a line feed are skipped together, so the induction is on the length.
  induction hn : space.length using Nat.strong_induction_on generalizing space s pos with
  | h n ih =>
      subst hn
      cases hspace with
      | nil => exact succeeds_skipBlanks_inked hrest h (hpost s pos (.refl s) h)
      | @blank c space hblank hspace =>
          have hshorter : space.length < (Text.encode c ++ space).length := by
            have hencode : 0 < (Text.encode c).length :=
              List.length_pos_iff.mpr String.utf8EncodeChar_ne_nil
            rw [List.length_append]
            omega
          rw [List.append_assoc] at h
          by_cases hreturn : (Text.encode c).head? = some 0x0D
          · obtain ⟨tail, hencode⟩ := List.head?_eq_some_iff.mp hreturn
            obtain rfl := Text.encode_blank_ascii hblank hencode (by decide)
            rw [hencode, List.singleton_append] at h
            refine succeeds_skipBlanks_return h (fun more s' hmore hs => ?_) fun s' hs => ?_
            · obtain ⟨space', hspace', hless, hbehind⟩ := hspace.feed hrest hmore
              rw [hmore, hbehind] at h
              exact ih space'.length (hless.trans hshorter) hspace' h.tail.tail
                (fun s'' pos'' hs' => hpost s'' pos'' (hs.trans hs')) rfl
            · exact ih space.length hshorter hspace h.tail
                (fun s'' pos'' hs' => hpost s'' pos'' (hs.trans hs')) rfl
          · refine succeeds_skipBlanks_blank hblank h hreturn fun s' hs => ?_
            exact ih space.length hshorter hspace h.skip
              (fun s'' pos'' hs' => hpost s'' pos'' (hs.trans hs')) rfl

theorem succeeds_skipBlanks_space (hspace : IsSpace space) (hrest : IsSolid rest)
    (h : Ahead stream pos (space ++ rest)) {post : Option UInt8 → State → Nat → Prop}
    (hpost : ∀ s' pos', s.Same s' → Ahead stream pos' rest → post rest.head? s' pos') :
    skipBlanks.Succeeds settings stream s pos post :=
  succeeds_skipBlanks_until hspace hrest.inked h hpost

end Reading

end JsonPull
