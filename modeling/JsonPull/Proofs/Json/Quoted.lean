import JsonPull.Proofs.Json.Derivation
import JsonPull.Proofs.Reading.Blank
import JsonPull.Reader.Quoted

/-! # Strings of JSON

A string is read as the characters that its body writes. A body without escapes stays in place, and
its bytes are those of the characters. -/

namespace JsonPull

variable {settings : Settings} {stream rest bytes digits : List UInt8} {s : State} {pos n : Nat}

/-! ## Escapes -/

namespace Json

theorem hexValue?_hex {b : UInt8} (h : IsHex b n) : Number.hexValue? b = some n := by
  have hle : ∀ m : UInt8, m ≤ b ↔ m.toNat ≤ b.toNat := fun m => UInt8.le_iff_toNat_le
  have hge : ∀ m : UInt8, b ≤ m ↔ b.toNat ≤ m.toNat := fun m => UInt8.le_iff_toNat_le
  unfold Number.hexValue?
  simp only [hle, hge, Bool.and_eq_true, decide_eq_true_eq, UInt8.reduceToNat]
  rcases h with ⟨hn, hb⟩ | ⟨hn, hn', hb⟩ | ⟨hn, hn', hb⟩
  · rw [if_pos (by omega), hb]
    congr 1
    omega
  · rw [if_neg (by omega), if_pos (by omega), hb]
    congr 1
    omega
  · rw [if_neg (by omega), if_neg (by omega), if_pos (by omega), hb]
    congr 1
    omega

theorem IsHex.lt {b : UInt8} (h : IsHex b n) : n < 16 := by
  rcases h with h | h | h <;> omega

theorem unit?_unit (h : IsUnit digits n) : Text.unit? digits = some n := by
  cases h with
  | mk h₃ h₂ h₁ h₀ =>
      rename_i b₃ b₂ b₁ b₀ n₃ n₂ n₁ n₀
      have hvalue : ∀ {b : UInt8} {n : Nat}, IsHex b n → Number.digitValue? 16 b = some n := by
        intro b n h
        simp [Number.digitValue?, hexValue?_hex h, h.lt]
      have hdigits : Number.ofDigits? 16 [b₃, b₂, b₁, b₀] =
          some (0x1000 * n₃ + 0x100 * n₂ + 0x10 * n₁ + n₀) := by
        refine Number.ofDigits?_eq_some_iff.mpr ⟨by simp, ?_, ?_⟩
        · simp [hvalue h₃, hvalue h₂, hvalue h₁, hvalue h₀]
        · simp only [List.filterMap_cons, List.filterMap_nil, hvalue h₃, hvalue h₂, hvalue h₁,
            hvalue h₀, Number.foldDigits, List.foldl_cons, List.foldl_nil]
          omega
      exact hdigits

theorem IsUnit.length (h : IsUnit digits n) : digits.length = 4 := by
  cases h
  rfl

/-- What comes behind a Unicode escape. -/
theorem IsUnit.skip (hunit : IsUnit digits n)
    (h : Ahead stream pos (0x5C :: 0x75 :: (digits ++ rest))) : Ahead stream (pos + 6) rest := by
  have hskip := h.tail.tail.skip
  rwa [hunit.length] at hskip

theorem simpleEscape?_of_mem {b : UInt8} {c : Char} (h : (b, c) ∈ escapes) :
    b < 0x80 ∧ Text.simpleEscape? (Char.ofNat b.toNat) = some c := by
  simp only [escapes, List.mem_cons, List.not_mem_nil, or_false, Prod.mk.injEq] at h
  rcases h with ⟨rfl, rfl⟩ | ⟨rfl, rfl⟩ | ⟨rfl, rfl⟩ | ⟨rfl, rfl⟩ | ⟨rfl, rfl⟩ | ⟨rfl, rfl⟩ |
    ⟨rfl, rfl⟩ | ⟨rfl, rfl⟩ <;> decide

theorem ofUnit_toNat (c : Char) : Text.ofUnit c.toNat = c ∧ Text.isHighSurrogate c.toNat = false := by
  have hvalid : c.toNat < 0xD800 ∨ 0xDFFF < c.toNat ∧ c.toNat < 0x110000 := c.valid
  have hhigh : Text.isHighSurrogate c.toNat = false := by
    simp only [Text.isHighSurrogate, Bool.and_eq_false_iff, decide_eq_false_iff_not]
    omega
  have hlow : Text.isLowSurrogate c.toNat = false := by
    simp only [Text.isLowSurrogate, Bool.and_eq_false_iff, decide_eq_false_iff_not]
    omega
  refine ⟨?_, hhigh⟩
  simp [Text.ofUnit, hhigh, hlow, Char.ofNat_toNat]

/-- A byte that stands for itself in a string between double quotes. -/
def IsPlain (b : UInt8) : Prop :=
  b ≠ 0x5C ∧ b ≠ 0x0D ∧ b ≠ 0x0A ∧ b ≠ 0x22

theorem isPlain_of_mem_encode {c : Char} (hcontrol : 0x20 ≤ c.toNat) (hquote : c ≠ '"')
    (hbackslash : c ≠ '\\') {b : UInt8} (hb : b ∈ Text.encode c) : IsPlain b := by
  by_cases hascii : c.toNat ≤ 0x7F
  · rw [Text.encode_ascii hascii, List.mem_singleton] at hb
    have hnat : b.toNat = c.toNat := by rw [hb, Text.toNat_ofNat (by omega)]
    have hne : ∀ d : Char, c ≠ d → b.toNat ≠ d.toNat := fun d hd h =>
      hd (Char.toNat_inj.mp (hnat.symm.trans h))
    refine ⟨?_, ?_, ?_, ?_⟩ <;> rintro rfl
    · exact hne _ hbackslash rfl
    · exact absurd (hnat ▸ hcontrol) (by decide)
    · exact absurd (hnat ▸ hcontrol) (by decide)
    · exact hne _ hquote rfl
  · have hle := Text.le_toNat_of_mem_encode (by omega) hb
    refine ⟨?_, ?_, ?_, ?_⟩ <;> rintro rfl <;> exact absurd hle (by decide)

/-- What the bytes of a body write, behind a high surrogate that waits for its other half or behind
none. Half a surrogate pair stands for U+FFFD. -/
inductive Decodes : Option Nat → List UInt8 → List Char → Prop where
  | nil : Decodes none [] []
  | raw {c : Char} {bytes : List UInt8} {chars : List Char} (hcontrol : 0x20 ≤ c.toNat)
      (hquote : c ≠ '"') (hbackslash : c ≠ '\\') (h : Decodes none bytes chars) :
      Decodes none (String.utf8EncodeChar c ++ bytes) (c :: chars)
  | letter {b : UInt8} {c : Char} {bytes : List UInt8} {chars : List Char}
      (hletter : (b, c) ∈ escapes) (h : Decodes none bytes chars) :
      Decodes none (0x5C :: b :: bytes) (c :: chars)
  | unit {n : Nat} {digits bytes : List UInt8} {chars : List Char} (hunit : IsUnit digits n)
      (hhigh : Text.isHighSurrogate n = false) (h : Decodes none bytes chars) :
      Decodes none (0x5C :: 0x75 :: (digits ++ bytes)) (Text.ofUnit n :: chars)
  | high {n : Nat} {digits bytes : List UInt8} {chars : List Char} (hunit : IsUnit digits n)
      (hhigh : Text.isHighSurrogate n = true) (h : Decodes (some n) bytes chars) :
      Decodes none (0x5C :: 0x75 :: (digits ++ bytes)) chars
  | pair {high n : Nat} {digits bytes : List UInt8} {chars : List Char} (hunit : IsUnit digits n)
      (hlow : Text.isLowSurrogate n = true) (h : Decodes none bytes chars) :
      Decodes (some high) (0x5C :: 0x75 :: (digits ++ bytes)) (Text.ofPair high n :: chars)
  | again {high n : Nat} {digits bytes : List UInt8} {chars : List Char} (hunit : IsUnit digits n)
      (hhigh : Text.isHighSurrogate n = true) (h : Decodes (some n) bytes chars) :
      Decodes (some high) (0x5C :: 0x75 :: (digits ++ bytes)) (Text.replacement :: chars)
  | single {high n : Nat} {digits bytes : List UInt8} {chars : List Char} (hunit : IsUnit digits n)
      (hhigh : Text.isHighSurrogate n = false) (hlow : Text.isLowSurrogate n = false)
      (h : Decodes none bytes chars) :
      Decodes (some high) (0x5C :: 0x75 :: (digits ++ bytes))
        (Text.replacement :: Text.ofUnit n :: chars)
  | alone {high : Nat} {bytes : List UInt8} {chars : List Char}
      (hnext : ∀ more, bytes ≠ 0x5C :: 0x75 :: more) (h : Decodes none bytes chars) :
      Decodes (some high) bytes (Text.replacement :: chars)

/-- The texts of strings, each with the string that it denotes. -/
inductive Quotes : List UInt8 → String → Prop where
  | mk {body : List UInt8} {chars : List Char} (h : Decodes none body chars) :
      Quotes (0x22 :: (body ++ [0x22])) (String.ofList chars)

theorem isLowSurrogate_of_high (h : Text.isHighSurrogate n = true) :
    Text.isLowSurrogate n = false := by
  simp only [Text.isHighSurrogate, Bool.and_eq_true, decide_eq_true_eq] at h
  simp only [Text.isLowSurrogate, Bool.and_eq_false_iff, decide_eq_false_iff_not]
  omega

theorem IsBody.decodes {chars : List Char} (h : IsBody bytes chars) : Decodes none bytes chars := by
  induction h with
  | nil => exact .nil
  | raw hcontrol hquote hbackslash h ih => exact .raw hcontrol hquote hbackslash ih
  | letter hletter h ih => exact .letter hletter ih
  | @unit c digits bytes chars hunit h ih =>
      obtain ⟨hc, hhigh⟩ := ofUnit_toNat c
      have hdecodes := Decodes.unit hunit hhigh ih
      rwa [hc] at hdecodes
  | @pair c high low digits digits' bytes chars hhigh hlow hpair hunit hunit' h ih =>
      have hhigh' : Text.isHighSurrogate high = true := by simp [Text.isHighSurrogate, hhigh]
      have hlow' : Text.isLowSurrogate low = true := by simp [Text.isLowSurrogate, hlow]
      have hc : Text.ofPair high low = c := by rw [Text.ofPair, ← hpair, Char.ofNat_toNat]
      rw [← hc]
      exact .high hunit hhigh' (.pair hunit' hlow' ih)

theorem IsString.quotes {text : List UInt8} {string : String} (h : IsString text string) :
    Quotes text string := by
  cases h with
  | mk h => exact .mk h.decodes

/-- What begins with no Unicode escape leaves a high surrogate alone. -/
theorem Decodes.pending {chars : List Char} (hnext : ∀ more, bytes ≠ 0x5C :: 0x75 :: more)
    (h : Decodes none bytes chars) (waiting : Option Nat) :
    ∃ chars, Decodes waiting bytes chars := by
  cases waiting with
  | none => exact ⟨chars, h⟩
  | some high => exact ⟨_, .alone hnext h⟩

/-- Every body writes something. -/
theorem IsBodyText.decodes (h : IsBodyText bytes) (waiting : Option Nat) :
    ∃ chars, Decodes waiting bytes chars := by
  induction h generalizing waiting with
  | nil => exact Decodes.nil.pending (fun _ => (List.cons_ne_nil _ _).symm) waiting
  | @raw c bytes hcontrol hquote hbackslash h ih =>
      obtain ⟨chars, hchars⟩ := ih none
      refine (Decodes.raw hcontrol hquote hbackslash hchars).pending (fun more heq => ?_) waiting
      have hplain := fun b => isPlain_of_mem_encode hcontrol hquote hbackslash (b := b)
      change Text.encode c ++ bytes = 0x5C :: 0x75 :: more at heq
      cases hencode : Text.encode c with
      | nil => exact absurd hencode String.utf8EncodeChar_ne_nil
      | cons b encoded =>
          rw [hencode] at hplain heq
          exact (hplain b List.mem_cons_self).1 (List.cons.inj heq).1
  | @letter b c bytes hletter h ih =>
      obtain ⟨chars, hchars⟩ := ih none
      refine (Decodes.letter hletter hchars).pending (fun more heq => ?_) waiting
      obtain ⟨-, hb⟩ := simpleEscape?_of_mem hletter
      cases heq
      cases hb
  | @unit digits bytes n hunit h ih =>
      obtain ⟨chars, hchars⟩ := ih none
      obtain ⟨chars', hchars'⟩ := ih (some n)
      cases hhigh : Text.isHighSurrogate n with
      | true =>
          cases waiting with
          | none => exact ⟨_, .high hunit hhigh hchars'⟩
          | some high => exact ⟨_, .again hunit hhigh hchars'⟩
      | false =>
          cases waiting with
          | none => exact ⟨_, .unit hunit hhigh hchars⟩
          | some high =>
              cases hlow : Text.isLowSurrogate n with
              | true => exact ⟨_, .pair hunit hlow hchars⟩
              | false => exact ⟨_, .single hunit hhigh hlow hchars⟩

theorem IsStringText.quotes {text : List UInt8} (h : IsStringText text) :
    ∃ string, Quotes text string := by
  cases h with
  | mk h =>
      obtain ⟨chars, hchars⟩ := h.decodes none
      exact ⟨_, .mk hchars⟩

end Json

namespace Reading

open JsonPull.Json

theorem succeeds_escapeUnit (hunit : IsUnit digits n) (h : Ahead stream pos (digits ++ rest))
    {post : Nat → State → Nat → Prop} :
    escapeUnit.Succeeds settings stream s pos post ↔ post n s (pos + 4) := by
  unfold escapeUnit
  rw [succeeds_bind, succeeds_bytes? h hunit.length]
  dsimp only
  rw [unit?_unit hunit]
  dsimp only
  rw [succeeds_bind, succeeds_advance, succeeds_pure]

theorem succeeds_charAt? {b : UInt8} (hb : b < 0x80) (h : Ahead stream pos (b :: rest))
    {retain : Retain} {post : Option (Char × Nat) → State → Nat → Prop} :
    (charAt? 0 retain).Succeeds settings stream s pos post ↔
      post (some (Char.ofNat b.toNat, 1)) s pos := by
  unfold charAt?
  rw [succeeds_bind, succeeds_byte?, h.head?]
  dsimp only [List.head?_cons]
  rw [if_pos hb]
  exact succeeds_pure _

variable {c : Char}

theorem succeeds_escape_simple {quote b : UInt8} (hb : b < 0x80)
    (hc : Text.simpleEscape? (Char.ofNat b.toNat) = some c)
    (h : Ahead stream pos (0x5C :: b :: rest)) {post : List Char → State → Nat → Prop} :
    (escapeLetter quote >>= escape).Succeeds settings stream s pos post ↔ post [c] s (pos + 2) := by
  have hu : ¬ (Char.ofNat b.toNat == 'u') = true := by
    intro hu
    rw [eq_of_beq hu] at hc
    cases hc
  unfold escapeLetter escape
  rw [succeeds_bind, succeeds_bind, succeeds_advance, succeeds_bind, succeeds_charAt? hb h.tail]
  dsimp only
  rw [succeeds_pure, succeeds_bind, succeeds_advance, if_neg hu, hc]
  exact succeeds_pure _

theorem succeeds_escape_letter {quote b : UInt8} (hletter : (b, c) ∈ escapes)
    (h : Ahead stream pos (0x5C :: b :: rest)) {post : List Char → State → Nat → Prop} :
    (escapeLetter quote >>= escape).Succeeds settings stream s pos post ↔ post [c] s (pos + 2) :=
  succeeds_escape_simple (simpleEscape?_of_mem hletter).1 (simpleEscape?_of_mem hletter).2 h

/-- Behind the letter of a Unicode escape. -/
theorem succeeds_escape_unicode {quote : UInt8} (h : Ahead stream pos (0x5C :: 0x75 :: rest))
    {post : List Char → State → Nat → Prop} :
    (escapeLetter quote >>= escape).Succeeds settings stream s pos post ↔
      unicodeEscape.Succeeds settings stream s (pos + 2) post := by
  unfold escapeLetter escape
  rw [succeeds_bind, succeeds_bind, succeeds_advance, succeeds_bind,
    succeeds_charAt? (by decide) h.tail]
  dsimp only
  rw [succeeds_pure, succeeds_bind, succeeds_advance]
  rfl

/-- What comes of an escape behind a high surrogate. -/
theorem succeeds_surrogateTurn (hunit : IsUnit digits n) (chars : List Char) (high : Nat)
    (h : Ahead stream pos (0x5C :: 0x75 :: (digits ++ rest)))
    {post : Turn (List Char × Nat) (List Char) → State → Nat → Prop} :
    (surrogateTurn (chars, high)).Succeeds settings stream s pos post ↔
      post (if Text.isLowSurrogate n then .stop (Text.ofPair high n :: chars).reverse
        else if Text.isHighSurrogate n then .again (Text.replacement :: chars, n)
        else .stop (Text.ofUnit n :: Text.replacement :: chars).reverse) s (pos + 6) := by
  have hfirst : stream[pos + 0]? = some 0x5C := h.getElem? 0
  have hsecond : stream[pos + 1]? = some 0x75 := h.getElem? 1
  unfold surrogateTurn
  rw [succeeds_bind, succeeds_byte?, succeeds_bind, succeeds_byte?, hfirst, hsecond]
  simp only [beq_self_eq_true, Bool.and_self, if_true]
  rw [succeeds_bind, succeeds_advance, succeeds_bind, succeeds_escapeUnit hunit h.tail.tail]
  split
  · exact succeeds_pure _
  · split <;> exact succeeds_pure _

/-- Where no escape follows, a high surrogate has no other half. -/
theorem succeeds_surrogateTurn_alone (hnext : ∀ more, rest ≠ 0x5C :: 0x75 :: more)
    (chars : List Char) (high : Nat) (h : Ahead stream pos rest)
    {post : Turn (List Char × Nat) (List Char) → State → Nat → Prop} :
    (surrogateTurn (chars, high)).Succeeds settings stream s pos post ↔
      post (.stop (Text.replacement :: chars).reverse) s pos := by
  have hescape : ¬ (stream[pos + 0]? == some 0x5C && stream[pos + 1]? == some 0x75) = true := by
    rw [h.getElem?, h.getElem?, Bool.and_eq_true, beq_iff_eq, beq_iff_eq]
    rintro ⟨hfirst, hsecond⟩
    obtain ⟨b, b', more, rfl⟩ : ∃ b b' more, rest = b :: b' :: more := by
      rcases rest with _ | ⟨b, _ | ⟨b', more⟩⟩
      · cases hfirst
      · cases hsecond
      · exact ⟨b, b', more, rfl⟩
    cases hfirst
    cases hsecond
    exact hnext more rfl
  unfold surrogateTurn
  rw [succeeds_bind, succeeds_byte?, succeeds_bind, succeeds_byte?, if_neg hescape]
  exact succeeds_pure _

/-! ## Bodies -/

/-- The text of a body on a tape. -/
def Body.text (stream : List UInt8) : Body → String
  | .held span => Text.ofBytes ((stream.drop span.first).take (span.last - span.first))
  | .decoded text => text

variable {first : Nat} {p : Partial} {post : Body → State → Nat → Prop}

theorem succeeds_bodyTurn_plain {quote b : UInt8}
    (hb : b ≠ 0x5C ∧ b ≠ 0x0D ∧ b ≠ 0x0A ∧ b ≠ quote) (h : Ahead stream pos (b :: rest))
    {post : Turn Partial Body → State → Nat → Prop} :
    (bodyTurn quote first p).Succeeds settings stream s pos post ↔ post (.again p) s (pos + 1) := by
  obtain ⟨hbackslash, hreturn, hfeed, hquote⟩ := hb
  unfold bodyTurn
  rw [succeeds_bind, succeeds_byte?, h.head?, List.head?_cons]
  split
  · rename_i heq
    cases heq
  · rename_i heq
    exact absurd (Option.some.inj heq) hbackslash
  · rename_i heq
    exact absurd (Option.some.inj heq) hreturn
  · rename_i heq
    exact absurd (Option.some.inj heq) hfeed
  · rename_i heq
    cases heq
    rw [if_neg (by simpa using hquote), succeeds_bind, succeeds_advance, succeeds_pure]

/-- Bytes that stand for themselves are passed one by one. -/
theorem succeeds_plain (hplain : ∀ b ∈ bytes, IsPlain b) (h : Ahead stream pos (bytes ++ rest))
    (hrest : (repeating (bodyTurn 0x22 first) p).Succeeds settings stream s (pos + bytes.length)
      post) :
    (repeating (bodyTurn 0x22 first) p).Succeeds settings stream s pos post := by
  induction bytes generalizing pos with
  | nil => exact hrest
  | cons b bytes ih =>
      apply succeeds_repeating
      rw [succeeds_bodyTurn_plain (hplain b (List.mem_cons_self ..)) h]
      refine ⟨Nat.lt_succ_self pos, h.lt, ?_⟩
      apply ih (fun b' hb' => hplain b' (List.mem_cons_of_mem _ hb')) h.tail
      rw [Nat.add_assoc, Nat.add_comm 1]
      exact hrest

/-- The bytes of a body that are not yet decoded. -/
def Partial.raw (stream : List UInt8) (pos : Nat) (p : Partial) : List UInt8 :=
  (stream.drop p.start).take (pos - p.start)

/-- A string is read to its end behind an escape that began at `start`. -/
def Rejoins (settings : Settings) (stream : List UInt8) (first start : Nat) (p : Partial)
    (post : Body → State → Nat → Prop) (chars : List Char) (s : State) (pos : Nat) : Prop :=
  start < pos ∧ (repeating (bodyTurn 0x22 first)
    (p.pushEscape (p.raw stream start) chars pos)).Succeeds settings stream s pos post

/-- An escape is taken over with its characters. -/
theorem succeeds_bodyTurn_escape {quote : UInt8} (h : Ahead stream pos (0x5C :: rest))
    {post : Turn Partial Body → State → Nat → Prop}
    (hescape : (escapeLetter quote >>= escape).Succeeds settings stream s pos fun chars s' pos' =>
      post (.again (p.pushEscape (p.raw stream pos) chars pos')) s' pos') :
    (bodyTurn quote first p).Succeeds settings stream s pos post := by
  unfold bodyTurn
  rw [succeeds_bind, succeeds_byte?, h.head?]
  change (cursor >>= fun last => escapeLetter quote >>= fun letter => _).Succeeds _ _ _ _ _
  rw [succeeds_bind, succeeds_cursor, succeeds_bind]
  rw [succeeds_bind] at hescape
  refine hescape.mono fun letter s' pos' hletter => ?_
  rw [succeeds_bind, succeeds_bytesOf, succeeds_bind]
  refine hletter.mono fun chars s'' pos'' hpost => ?_
  rw [succeeds_bind, succeeds_cursor, succeeds_pure]
  exact hpost

theorem succeeds_escaped (h : Ahead stream pos (0x5C :: rest))
    (hescape : (escapeLetter 0x22 >>= escape).Succeeds settings stream s pos
      (Rejoins settings stream first pos p post)) :
    (repeating (bodyTurn 0x22 first) p).Succeeds settings stream s pos post := by
  refine succeeds_repeating (succeeds_bodyTurn_escape h (hescape.mono fun chars s' pos' hrejoins => ?_))
  exact ⟨hrejoins.1, h.lt, hrejoins.2⟩

theorem succeeds_bodyTurn_quote {quote : UInt8}
    (hquote : quote ≠ 0x5C ∧ quote ≠ 0x0D ∧ quote ≠ 0x0A) (h : Ahead stream pos (quote :: rest))
    {post : Turn Partial Body → State → Nat → Prop} :
    (bodyTurn quote first p).Succeeds settings stream s pos post ↔
      post (.stop (if p.escaped then .decoded (Text.ofBytes (p.bytes.reverse ++ p.raw stream pos))
        else .held { first, last := pos })) s (pos + 1) := by
  obtain ⟨hbackslash, hreturn, hfeed⟩ := hquote
  unfold bodyTurn
  rw [succeeds_bind, succeeds_byte?, h.head?, List.head?_cons]
  split
  · rename_i heq
    cases heq
  · rename_i heq
    exact absurd (Option.some.inj heq) hbackslash
  · rename_i heq
    exact absurd (Option.some.inj heq) hreturn
  · rename_i heq
    exact absurd (Option.some.inj heq) hfeed
  · rename_i heq
    cases heq
    rw [if_pos (beq_self_eq_true _), succeeds_bind, succeeds_cursor, succeeds_bind,
      succeeds_advance]
    split
    · rw [succeeds_bind, succeeds_bytesOf]
      exact succeeds_pure _
    · rw [succeeds_bind, succeeds_hold]
      exact succeeds_pure _

/-- What was read of a body before `pos`: `text`, which lies there as a whole unless it had
escapes. -/
structure Kept (stream : List UInt8) (first pos : Nat) (p : Partial) (text : List UInt8) : Prop where
  start_le : p.start ≤ pos
  text_eq : text = p.bytes.reverse ++ p.raw stream pos
  whole : p.escaped = false → p.bytes = [] ∧ p.start = first

theorem Kept.plain {text : List UInt8} (h : Kept stream first pos p text)
    (hahead : Ahead stream pos (bytes ++ rest)) :
    Kept stream first (pos + bytes.length) p (text ++ bytes) := by
  have hle := h.start_le
  have hdrop : (stream.drop p.start).drop (pos - p.start) = bytes ++ rest := by
    rw [List.drop_drop, Nat.add_sub_cancel' hle]
    exact hahead
  have hraw : p.raw stream (pos + bytes.length) = p.raw stream pos ++ bytes := by
    unfold Partial.raw
    rw [Nat.sub_add_comm hle, List.take_add, hdrop, List.take_left]
  refine ⟨hle.trans (Nat.le_add_right _ _), ?_, h.whole⟩
  rw [h.text_eq, hraw, List.append_assoc]

theorem Kept.escape {text : List UInt8} (h : Kept stream first pos p text) (chars : List Char)
    (next : Nat) :
    Kept stream first next (p.pushEscape (p.raw stream pos) chars next)
      (text ++ chars.flatMap Text.encode) := by
  refine ⟨le_rfl, ?_, nofun⟩
  simp [Partial.pushEscape, Partial.raw, h.text_eq]

/-- Where a body is decoded to these characters, its string is read behind `text`. Behind a high
surrogate, the escape began at `start` and has written some characters, the latest first. -/
def Resumes (settings : Settings) (stream rest bytes : List UInt8) (chars : List Char) (first : Nat)
    (s : State) (post : Body → State → Nat → Prop) : Option Nat → Prop
  | none => ∀ ⦃p pos text⦄, Kept stream first pos p text →
      Ahead stream pos (bytes ++ 0x22 :: rest) →
      (∀ b pos', b.text stream = Text.ofBytes (text ++ chars.flatMap Text.encode) →
        Ahead stream pos' rest → post b s pos') →
      (repeating (bodyTurn 0x22 first) p).Succeeds settings stream s pos post
  | some high => ∀ ⦃p start pos text written⦄, Kept stream first start p text → start < pos →
      Ahead stream pos (bytes ++ 0x22 :: rest) →
      (∀ b pos', b.text stream =
          Text.ofBytes (text ++ (written.reverse ++ chars).flatMap Text.encode) →
        Ahead stream pos' rest → post b s pos') →
      (repeating surrogateTurn (written, high)).Succeeds settings stream s pos
        (Rejoins settings stream first start p post)

/-- Behind an escape, a body is read on as one. -/
theorem Resumes.rejoins {chars decoded : List Char} {text : List UInt8} {start : Nat}
    (h : Resumes settings stream rest bytes chars first s post none)
    (hkept : Kept stream first start p text) (hlt : start < pos)
    (hahead : Ahead stream pos (bytes ++ 0x22 :: rest))
    (hpost : ∀ b pos', b.text stream =
        Text.ofBytes (text ++ (decoded ++ chars).flatMap Text.encode) →
      Ahead stream pos' rest → post b s pos') :
    Rejoins settings stream first start p post decoded s pos := by
  refine ⟨hlt, h (hkept.escape decoded pos) hahead fun b pos' hb => hpost b pos' (hb.trans ?_)⟩
  simp

/-- A body is read as its characters, behind those that were read before. -/
theorem succeeds_turns {waiting : Option Nat} {chars : List Char}
    (hbody : Decodes waiting bytes chars) :
    Resumes settings stream rest bytes chars first s post waiting := by
  induction hbody with
  | nil =>
      intro p pos text hkept h hpost
      refine succeeds_repeating ((succeeds_bodyTurn_quote (by decide) h).mpr (hpost _ _ ?_ h.tail))
      rw [List.flatMap_nil, List.append_nil, hkept.text_eq]
      cases hescaped : p.escaped with
      | true => rfl
      | false =>
          obtain ⟨hbytes, hstart⟩ := hkept.whole hescaped
          rw [if_neg Bool.false_ne_true, Body.text, Partial.raw, hbytes, hstart]
          rfl
  | raw hcontrol hquote hbackslash hbody ih =>
      intro p pos text hkept h hpost
      rw [List.append_assoc] at h
      apply succeeds_plain (fun b => isPlain_of_mem_encode hcontrol hquote hbackslash) h
      refine ih (hkept.plain h) h.skip fun b pos' hb => hpost b pos' (hb.trans ?_)
      simp [Text.encode]
  | letter hletter hbody ih =>
      intro p pos text hkept h hpost
      apply succeeds_escaped h
      rw [succeeds_escape_letter hletter h]
      exact ih.rejoins hkept (by omega) h.tail.tail hpost
  | unit hunit hhigh hbody ih =>
      intro p pos text hkept h hpost
      rw [List.cons_append, List.cons_append, List.append_assoc] at h
      have hnext := hunit.skip h
      apply succeeds_escaped h
      rw [succeeds_escape_unicode h, unicodeEscape, succeeds_bind,
        succeeds_escapeUnit hunit h.tail.tail, hhigh, if_neg Bool.false_ne_true, succeeds_pure]
      exact ih.rejoins hkept (by omega) hnext hpost
  | high hunit hhigh hbody ih =>
      intro p pos text hkept h hpost
      rw [List.cons_append, List.cons_append, List.append_assoc] at h
      have hnext := hunit.skip h
      apply succeeds_escaped h
      rw [succeeds_escape_unicode h, unicodeEscape, succeeds_bind,
        succeeds_escapeUnit hunit h.tail.tail, hhigh, if_pos rfl, surrogates]
      exact ih hkept (by omega) hnext hpost
  | pair hunit hlow hbody ih =>
      intro p start pos text written hkept hlt h hpost
      rw [List.cons_append, List.cons_append, List.append_assoc] at h
      have hnext := hunit.skip h
      apply succeeds_repeating
      rw [succeeds_surrogateTurn hunit _ _ h, hlow, if_pos rfl]
      refine ih.rejoins hkept (by omega) hnext fun b pos' hb => hpost b pos' ?_
      simpa using hb
  | again hunit hhigh hbody ih =>
      intro p start pos text written hkept hlt h hpost
      rw [List.cons_append, List.cons_append, List.append_assoc] at h
      have hnext := hunit.skip h
      apply succeeds_repeating
      rw [succeeds_surrogateTurn hunit _ _ h, isLowSurrogate_of_high hhigh,
        if_neg Bool.false_ne_true, hhigh, if_pos rfl]
      refine ⟨by omega, h.lt, ih hkept (by omega) hnext fun b pos' hb => hpost b pos' ?_⟩
      simpa using hb
  | single hunit hhigh hlow hbody ih =>
      intro p start pos text written hkept hlt h hpost
      rw [List.cons_append, List.cons_append, List.append_assoc] at h
      have hnext := hunit.skip h
      apply succeeds_repeating
      rw [succeeds_surrogateTurn hunit _ _ h, hlow, if_neg Bool.false_ne_true, hhigh,
        if_neg Bool.false_ne_true]
      refine ih.rejoins hkept (by omega) hnext fun b pos' hb => hpost b pos' ?_
      simpa using hb
  | @alone high bytes chars hnext hbody ih =>
      intro p start pos text written hkept hlt h hpost
      apply succeeds_repeating
      rw [succeeds_surrogateTurn_alone ?_ _ _ h]
      · refine ih.rejoins hkept hlt h fun b pos' hb => hpost b pos' ?_
        simpa using hb
      · rcases bytes with _ | ⟨b, _ | ⟨b', bytes⟩⟩
        · nofun
        · nofun
        · rintro more ⟨⟩
          exact hnext _ rfl

theorem succeeds_quoted {body : List UInt8} {chars : List Char} (hbody : Decodes none body chars)
    (h : Ahead stream pos (0x22 :: (body ++ 0x22 :: rest)))
    (hpost : ∀ b pos', b.text stream = String.ofList chars → Ahead stream pos' rest →
      post b s pos') :
    (quoted 0x22).Succeeds settings stream s pos post := by
  have htext : Text.ofBytes (chars.flatMap Text.encode) = String.ofList chars := by
    rw [Text.ofBytes, Text.decodeLossy_encode]
  have hkept : Kept stream (pos + 1) (pos + 1) { start := pos + 1 } [] :=
    ⟨le_rfl, by simp [Partial.raw], fun _ => ⟨rfl, rfl⟩⟩
  unfold quoted
  rw [succeeds_bind, succeeds_advance, succeeds_bind, succeeds_settle, Reading.body, succeeds_bind,
    succeeds_cursor]
  exact succeeds_turns hbody hkept h.tail fun b pos' hb => hpost b pos' (hb.trans htext)

theorem succeeds_bodyText (b : Body) {post : String → State → Nat → Prop} :
    (bodyText b).Succeeds settings stream s pos post ↔ post (b.text stream) s pos := by
  cases b with
  | held span => exact succeeds_textOf span
  | decoded text => exact succeeds_pure text

end Reading

end JsonPull
