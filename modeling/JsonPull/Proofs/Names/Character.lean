import JsonPull.Proofs.Reading.Blank
import JsonPull.Reader.Structure

/-! # Characters of names

A name without quotes consists of letters and digits of any script, of underscores and of dollar signs.
It ends at a blank or at a colon, and none of its bytes means anything within quotes. The name of a
constructor has no underscores and no dollar signs. -/

namespace JsonPull

variable {b : UInt8} {c : Char}

/-- No letter or digit is a blank. -/
theorem blankRanges_disjoint : ∀ r ∈ Text.blankRanges, ∀ r' ∈ Text.alphanumericRanges,
    r.2 < r'.1 ∨ r'.2 < r.1 := by
  decide +kernel

theorem isAlphanum_beyond (hbeyond : 0x80 ≤ c.toNat) : c.isAlphanum = false := by
  have hval : c.toNat = c.val.toNat := rfl
  have hupper : 'Z'.val.toNat = 0x5A := rfl
  have hlower : 'z'.val.toNat = 0x7A := rfl
  have hdigit : '9'.val.toNat = 0x39 := rfl
  simp only [Char.isAlphanum, Char.isAlpha, Char.isUpper, Char.isLower, Char.isDigit,
    Bool.or_eq_false_iff, Bool.and_eq_false_iff, decide_eq_false_iff_not, ge_iff_le,
    UInt32.le_iff_toNat_le]
  omega

/-- A blank ends a name. -/
theorem isNameChar_of_isBlank (hblank : Text.isBlank c = true) : Reading.isNameChar c = false := by
  have hchar := c.ofNat_toNat
  rw [Text.isBlank, Bool.or_eq_true, Bool.or_eq_true] at hblank
  rcases hblank with (hspace | hcontrol) | hranges
  · obtain rfl : c = ' ' := by simpa using hspace
    decide
  · simp only [Bool.and_eq_true, decide_eq_true_eq] at hcontrol
    obtain ⟨hfirst, hlast⟩ := hcontrol
    rw [← hchar]
    generalize c.toNat = n at hfirst hlast
    interval_cases n <;> decide
  · obtain ⟨hbeyond, r, hr, hfirst, hlast⟩ := (Text.inRanges_eq_true_iff _ _).mp hranges
    have hscript : Text.inRanges Text.alphanumericRanges c = false := by
      by_contra hletter
      rw [Bool.not_eq_false] at hletter
      obtain ⟨-, r', hr', hfirst', hlast'⟩ := (Text.inRanges_eq_true_iff _ _).mp hletter
      have hdisjoint := blankRanges_disjoint r hr r' hr'
      omega
    have hne : c ≠ '_' ∧ c ≠ '$' := by
      constructor <;> rintro rfl <;> exact absurd hbeyond (by decide)
    simp [Reading.isNameChar, Text.isAlphanumeric, hscript, isAlphanum_beyond hbeyond, hne]

/-- A character of a name is no blank. -/
theorem inked_nameChar (h : Reading.isNameChar c = true) (rest : List UInt8) :
    Inked (Text.encode c ++ rest) := by
  refine .char ?_ rest
  by_contra hblank
  rw [isNameChar_of_isBlank (by simpa using hblank)] at h
  cases h

theorem isNameChar_of_isAlphanumeric (h : Text.isAlphanumeric c = true) :
    Reading.isNameChar c = true := by
  rw [Reading.isNameChar, h, Bool.true_or, Bool.true_or]

theorem isAlphanumeric_of_isBlank (hblank : Text.isBlank c = true) :
    Text.isAlphanumeric c = false := by
  by_contra hletter
  have hname := isNameChar_of_isAlphanumeric (by simpa using hletter)
  rw [isNameChar_of_isBlank hblank] at hname
  cases hname

/-- A byte that ends no string, no object and no line, and begins neither an escape nor a comment. -/
def isPlain (b : UInt8) : Bool :=
  !([0x22, 0x27, 0x5C, 0x7D, 0x2F, 0x0D, 0x0A] : List UInt8).contains b

/-- The bytes of a name are plain. -/
theorem isPlain_of_mem_encode (h : Reading.isNameChar c = true) (hb : b ∈ Text.encode c) :
    isPlain b = true := by
  have hascii : ∀ n < 0x80, Reading.isNameChar (Char.ofNat n) = true →
      isPlain (UInt8.ofNat n) = true := by
    decide +kernel
  have hbeyond : ∀ n < 0x100, 0x80 ≤ n → isPlain (UInt8.ofNat n) = true := by
    decide +kernel
  by_cases hc : c.toNat < 0x80
  · rw [Text.encode_ascii (by omega), List.mem_singleton] at hb
    rw [hb]
    exact hascii _ hc (by rwa [Char.ofNat_toNat])
  · have hle := Text.le_toNat_of_mem_encode (by omega) hb
    rw [← UInt8.ofNat_toNat (x := b)]
    exact hbeyond _ b.toNat_lt hle

/-! ## Runs of characters -/

namespace Reading

variable {settings : Settings} {stream rest : List UInt8} {s : State} {pos : Nat} {α : Type}

/-- A repetition that consumes characters of one kind comes to the first one of another. -/
theorem succeeds_chars {accepts : Char → Bool} {unended : ErrorKind}
    {behind : Char → Nat → Reading (Turn Unit α)} {chars : List Char}
    (hchars : ∀ c ∈ chars, accepts c = true) (hc : accepts c = false)
    (h : Ahead stream pos (chars.flatMap Text.encode ++ (Text.encode c ++ rest)))
    {post : α → State → Nat → Prop}
    (hend : Ahead stream (pos + (chars.flatMap Text.encode).length) (Text.encode c ++ rest) →
      (behind c (Text.encode c).length).Succeeds settings stream s
        (pos + (chars.flatMap Text.encode).length)
        fun turn s' pos' => ∃ a, turn = .stop a ∧ post a s' pos') :
    (repeating (fun _ : Unit => do
      match ← charAt? 0 .all with
      | none => fail unended
      | some (c, length) => do
        if accepts c then
          advance length
          return .again ()
        else behind c length) ()).Succeeds settings stream s pos post := by
  induction chars generalizing pos with
  | nil =>
      apply succeeds_repeating
      rw [succeeds_bind, succeeds_charAt?_encode h]
      dsimp only
      rw [hc, if_neg Bool.false_ne_true]
      refine (hend h).mono ?_
      rintro _ s' pos' ⟨a, rfl, hpost⟩
      exact hpost
  | cons c' chars ih =>
      obtain ⟨b, tail, hencode⟩ := Text.encode_eq_cons c'
      rw [List.flatMap_cons, List.append_assoc] at h
      rw [List.flatMap_cons, List.length_append, ← Nat.add_assoc] at hend
      have hlt : pos < stream.length := by
        rw [hencode] at h
        exact h.lt
      apply succeeds_repeating
      rw [succeeds_bind, succeeds_charAt?_encode h]
      dsimp only
      rw [hchars c' List.mem_cons_self, if_pos rfl, succeeds_bind, succeeds_advance, succeeds_pure]
      refine ⟨?_, hlt, ih (fun c hc => hchars c (List.mem_cons_of_mem _ hc)) h.skip hend⟩
      rw [hencode]
      exact Nat.lt_add_of_pos_right (Nat.succ_pos _)

end Reading

end JsonPull
