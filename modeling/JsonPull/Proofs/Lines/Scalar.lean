import JsonPull.Proofs.Lines.Scanning
import JsonPull.Proofs.Reading.Step

/-! # Line breaks in scalars

Words and numbers are written without line breaks. A string may contain them, but no escape does. -/

namespace JsonPull

variable {settings : Settings} {stream : List UInt8} {s : State} {pos : Nat}

theorem Clear.append {count count' : Nat} (h : Clear stream pos count)
    (h' : Clear stream (pos + count) count') : Clear stream pos (count + count') := by
  intro i hi
  by_cases hlt : i < count
  · exact h i hlt
  · obtain ⟨b, hb, hclear⟩ := h' (i - count) (by omega)
    rw [Nat.add_assoc, Nat.add_sub_cancel' (Nat.le_of_not_lt hlt)] at hb
    exact ⟨b, hb, hclear⟩

namespace State

variable {kind : Scalar} {slot : Slot} {counted : Bool}

theorem lines_countElement (s : State) : s.countElement.lines = s.lines := by
  unfold countElement
  split <;> rfl

theorem lines_publishScalar : (s.publishScalar settings kind slot counted).lines = s.lines := by
  cases counted
  · rfl
  · exact lines_countElement _

end State

namespace Reading

variable {α β : Type} {retain : Retain}

/-! ## Words -/

theorem isBreak_literal (literal : Literal) : ∀ b ∈ literal.bytes, isBreak b = false := by
  cases literal <;> decide +kernel

theorem counts_matchBytes {matched : Nat} {rest : List UInt8} (h : Counted stream s.lines pos)
    (hmatched : Clear stream pos matched) (hrest : ∀ b ∈ rest, isBreak b = false) :
    (matchBytes matched rest).Counts settings stream s pos := by
  unfold Counts
  induction rest generalizing matched with
  | nil => exact (counts_advance h hmatched).bind fun _ s' pos' h' => (gives_pure _).mpr h'
  | cons expected rest ih =>
      unfold matchBytes
      rw [gives_bind, gives_byte?]
      split
      · rename_i hbyte
        have hclear := clear_one (eq_of_beq hbyte) (hrest expected (List.mem_cons_self ..))
        exact ih (hmatched.append hclear) fun b hb => hrest b (List.mem_cons_of_mem _ hb)
      · exact (counts_advance h hmatched).bind fun _ s' pos' h' => (gives_pure _).mpr h'

theorem counts_matchWord (literal : Literal) (h : Counted stream s.lines pos) :
    (matchWord literal).Counts settings stream s pos := by
  unfold Counts matchWord
  dsimp only
  rw [gives_bind, gives_byte?]
  split
  · exact (gives_true _).bind fun _ _ _ _ => gives_fail _
  · exact counts_matchBytes h (fun i hi => absurd hi (Nat.not_lt_zero i)) (isBreak_literal literal)

theorem gives_atSeparator :
    atSeparator.Gives settings stream s pos fun _ s' pos' => s' = s ∧ pos' = pos := by
  unfold atSeparator
  rw [gives_bind, gives_byte?]
  split
  · exact (gives_pure _).mpr ⟨rfl, rfl⟩
  · exact (gives_pure _).mpr ⟨rfl, rfl⟩
  · exact (gives_pure _).mpr ⟨rfl, rfl⟩
  · exact (gives_pure _).mpr ⟨rfl, rfl⟩
  · rw [gives_bind, gives_byte?, gives_pure]
    exact ⟨rfl, rfl⟩
  · rw [gives_bind, gives_get, gives_pure]
    exact ⟨rfl, rfl⟩
  · exact gives_blankLength?.bind fun _ _ _ h => (gives_pure _).mpr ⟨h.1, h.2.1⟩

theorem counts_separateWord (literal : Literal) (h : Counted stream s.lines pos) :
    (separateWord literal).Counts settings stream s pos := by
  refine (counts_matchWord literal h).bind fun found s' pos' h' => ?_
  split
  · refine gives_atSeparator.mono ?_
    rintro _ _ _ ⟨rfl, rfl⟩
    exact h'
  · exact (gives_pure _).mpr h'

theorem counts_requireWord (literal : Literal) (h : Counted stream s.lines pos) :
    (requireWord literal).Counts settings stream s pos := by
  refine (counts_separateWord literal h).bind fun found s' pos' h' => ?_
  split
  · exact gives_fail _
  · exact (gives_pure _).mpr h'

theorem counts_publish (kind : Scalar) (slot : Slot) (counted : Bool)
    (h : Counted stream s.lines pos) :
    (update fun settings => State.publishScalar settings kind slot counted).Counts settings stream s
      pos := by
  refine (gives_update _).mpr ?_
  rw [State.lines_publishScalar]
  exact h

theorem counts_booleanValue (b : Bool) (h : Counted stream s.lines pos) :
    (booleanValue b).Counts settings stream s pos :=
  (counts_requireWord _ h).bind fun _ _ _ h' => counts_publish _ _ _ h'

theorem counts_nullValue (h : Counted stream s.lines pos) :
    nullValue.Counts settings stream s pos :=
  (counts_requireWord _ h).bind fun _ _ _ h' => counts_publish _ _ _ h'

theorem counts_undefinedValue (h : Counted stream s.lines pos) :
    undefinedValue.Counts settings stream s pos :=
  (counts_requireWord _ h).bind fun _ _ _ h' => counts_publish _ _ _ h'

/-! ## Numbers -/

theorem isBreak_of_isByte {b : UInt8} (h : Lexeme.isByte b = true) : isBreak b = false := by
  apply isBreak_of_ne
  · rintro rfl
    exact absurd h (by decide)
  · rintro rfl
    exact absurd h (by decide)

theorem counts_lexemeBytes (h : Counted stream s.lines pos) :
    lexemeBytes.Counts settings stream s pos := by
  refine gives_repeating (fun _ s' pos' => Counted stream s'.lines pos') ?_ h
  intro _ s pos h
  rw [gives_bind, gives_byte?]
  split
  · exact (gives_pure _).mpr h
  · rename_i b hget
    split
    · rename_i hbyte
      refine (counts_advance h (clear_one hget (isBreak_of_isByte hbyte))).bind ?_
      exact fun _ s' pos' h' => (gives_pure _).mpr h'
    · exact (gives_pure _).mpr h

theorem gives_failNumber (fault : NumberFault) {post : α → State → Nat → Prop} :
    (failNumber fault).Gives settings stream s pos post :=
  (gives_true _).bind fun _ _ _ _ => gives_fail _

theorem counts_lexeme (h : Counted stream s.lines pos) : lexeme.Counts settings stream s pos := by
  refine (counts_lexemeBytes h).bind fun b s' pos' h' => ?_
  split
  · exact (gives_pure _).mpr h'
  · split
    · exact (gives_pure _).mpr h'
    · refine gives_blankLength?.bind ?_
      rintro r _ _ ⟨rfl, rfl, -⟩
      split
      · exact (gives_pure _).mpr h'
      · exact (gives_true _).bind fun _ _ _ _ => gives_failNumber _

theorem counts_finishValue (h : Counted stream s.lines pos) :
    finishValue.Counts settings stream s pos := by
  refine (gives_update _).mpr ?_
  rw [State.lines_countElement]
  exact h

theorem counts_numberValue (request : Request) (h : Counted stream s.lines pos) :
    (numberValue request).Counts settings stream s pos := by
  unfold Counts numberValue
  rw [gives_bind, gives_settle, gives_bind, gives_cursor]
  refine (counts_lexeme h).bind fun _ s₁ pos₁ h₁ => ?_
  refine (counts_finishValue h₁).bind fun _ s₂ pos₂ h₂ => ?_
  rw [gives_bind, gives_cursor, gives_bind, gives_hold, gives_bind, gives_bytesOf, gives_bind,
    gives_read]
  split
  · exact counts_publish _ _ _ h₂
  · exact counts_publish _ _ _ h₂
  · exact gives_failNumber _

theorem counts_specialValue (literal : Literal) (request : Request)
    (h : Counted stream s.lines pos) :
    (specialValue literal request).Counts settings stream s pos := by
  refine (counts_requireWord literal h).bind fun _ s₁ pos₁ h₁ => ?_
  rw [gives_bind, gives_read]
  dsimp only
  split
  · exact counts_publish _ _ _ h₁
  · split
    · exact counts_publish _ _ _ h₁
    · exact gives_fail _

theorem counts_negativeValue (request : Request) {number : Reading Unit}
    (h : Counted stream s.lines pos) (hnumber : number.Counts settings stream s pos) :
    (negativeValue request number).Counts settings stream s pos := by
  unfold Counts negativeValue
  rw [gives_bind, gives_byte?]
  split
  · exact counts_specialValue _ _ h
  · exact hnumber

/-! ## Strings -/

theorem isBreak_of_unit? {digits : List UInt8} {unit : Nat} (h : Text.unit? digits = some unit) :
    digits.length = 4 ∧ ∀ b ∈ digits, isBreak b = false := by
  unfold Text.unit? at h
  split at h
  · rename_i hlength
    refine ⟨hlength, fun b hb => ?_⟩
    have hdigit := (Number.ofDigits?_eq_some_iff.mp h).2.1 b hb
    apply isBreak_of_ne
    · rintro rfl
      cases hdigit
    · rintro rfl
      cases hdigit
  · cases h

theorem counts_escapeUnit (h : Counted stream s.lines pos) :
    escapeUnit.Counts settings stream s pos := by
  refine (gives_bytes? 0 3).bind ?_
  rintro r _ _ ⟨rfl, rfl, hbytes⟩
  split
  · exact gives_fail _
  · rename_i digits
    obtain ⟨hlength, hbytes⟩ := hbytes digits rfl
    split
    · rename_i unit hunit
      have hbreak := (isBreak_of_unit? hunit).2
      refine (counts_advance h fun i hi => ?_).bind fun _ s' pos' h' => (gives_pure _).mpr h'
      have hlt : i < digits.length := hi.trans_eq hlength.symm
      exact ⟨_, (hbytes i hi).trans (List.getElem?_eq_getElem hlt), hbreak _ (List.getElem_mem hlt)⟩
    · exact gives_fail _

theorem counts_surrogates (high : Nat) (h : Counted stream s.lines pos) :
    (surrogates high).Counts settings stream s pos := by
  refine gives_repeating (fun _ s' pos' => Counted stream s'.lines pos') ?_ h
  rintro ⟨chars, high⟩ s pos h
  rw [surrogateTurn, gives_bind, gives_byte?, gives_bind, gives_byte?]
  split
  · rename_i hboth
    obtain ⟨hfirst, hsecond⟩ := Bool.and_eq_true_iff.mp hboth
    have hbackslash := clear_one (eq_of_beq hfirst) rfl
    have hletter := clear_one (eq_of_beq hsecond) rfl
    refine (counts_advance h (hbackslash.append hletter)).bind fun _ s₁ pos₁ h₁ => ?_
    refine (counts_escapeUnit h₁).bind fun unit s₂ pos₂ h₂ => ?_
    split
    · exact (gives_pure _).mpr h₂
    · split
      · exact (gives_pure _).mpr h₂
      · exact (gives_pure _).mpr h₂
  · exact (gives_pure _).mpr h

theorem counts_unicodeEscape (h : Counted stream s.lines pos) :
    unicodeEscape.Counts settings stream s pos := by
  refine (counts_escapeUnit h).bind fun unit s₁ pos₁ h₁ => ?_
  split
  · exact counts_surrogates _ h₁
  · exact (gives_pure _).mpr h₁

theorem gives_escapeLetter (quote : UInt8) (h : Counted stream s.lines pos)
    (hb : stream[pos]? = some 0x5C) :
    (escapeLetter quote).Gives settings stream s pos fun letter s' pos' =>
      Counted stream s'.lines pos' ∧ CharAt stream pos' letter.1 letter.2 := by
  unfold escapeLetter
  rw [gives_bind, gives_advance]
  have hnext := h.advance (clear_one hb rfl)
  refine (gives_charAt? 0).bind ?_
  rintro r _ _ ⟨rfl, rfl, hchar⟩
  split
  · exact gives_fail _
  · rename_i letter
    exact (gives_pure _).mpr ⟨hnext, hchar letter.1 letter.2 rfl⟩

theorem counts_escape {letter : Char × Nat} (h : Counted stream s.lines pos)
    (hchar : CharAt stream pos letter.1 letter.2) : (escape letter).Counts settings stream s pos := by
  unfold Counts escape
  rw [gives_bind, gives_advance]
  split
  · rename_i hu
    have hletter := eq_of_beq hu
    exact counts_unicodeEscape (h.advance (hchar.clear_of_ne (by simp [hletter]) (by simp [hletter])))
  · split
    · rename_i decoded hescape
      refine (gives_pure _).mpr (h.advance (hchar.clear_of_ne ?_ ?_))
      · intro hreturn
        rw [hreturn] at hescape
        cases hescape
      · intro hfeed
        rw [hfeed] at hescape
        cases hescape
    · exact gives_fail _

theorem counts_body (quote : UInt8) (h : Counted stream s.lines pos) :
    (body quote).Counts settings stream s pos := by
  unfold Counts body
  rw [gives_bind, gives_cursor]
  refine gives_repeating (fun _ s' pos' => Counted stream s'.lines pos') ?_ h
  intro p s pos h
  unfold bodyTurn
  rw [gives_bind, gives_byte?]
  split
  · exact gives_fail _
  · rename_i hget
    rw [gives_bind, gives_cursor]
    refine (gives_escapeLetter quote h hget).bind fun letter s₁ pos₁ h₁ => ?_
    rw [gives_bind, gives_bytesOf]
    refine (counts_escape h₁.1 h₁.2).bind fun _ s' pos' h' => ?_
    rw [gives_bind, gives_cursor]
    exact (gives_pure _).mpr h'
  · rename_i hget
    exact (counts_takeReturn h hget).bind fun _ s' pos' h' => (gives_pure _).mpr h'
  · rename_i hget
    exact (counts_takeFeed h hget).bind fun _ s' pos' h' => (gives_pure _).mpr h'
  · rename_i b hslash hreturn hfeed hget
    have hnext := h.advance (clear_one hget (isBreak_of_ne hreturn hfeed))
    split
    · rw [gives_bind, gives_cursor, gives_bind, gives_advance]
      split
      · rw [gives_bind, gives_bytesOf]
        exact (gives_pure _).mpr hnext
      · rw [gives_bind, gives_hold]
        exact (gives_pure _).mpr hnext
    · rw [gives_bind, gives_advance]
      exact (gives_pure _).mpr hnext

theorem gives_bodyText (b : Body) :
    (bodyText b).Gives settings stream s pos fun _ s' pos' => s' = s ∧ pos' = pos := by
  cases b with
  | held span => exact (gives_textOf span).mpr ⟨rfl, rfl⟩
  | decoded text => exact (gives_pure _).mpr ⟨rfl, rfl⟩

theorem counts_quoted {b : UInt8} (quote : UInt8) (h : Counted stream s.lines pos)
    (hget : stream[pos]? = some b) (hbreak : isBreak b = false) :
    (quoted quote).Counts settings stream s pos := by
  refine (counts_advance h (clear_one hget hbreak)).bind fun _ s' pos' h' => ?_
  rw [gives_bind, gives_settle]
  exact counts_body quote h'

theorem counts_publishBytes (b : Body) (h : Counted stream s.lines pos) :
    (publishBytes b).Counts settings stream s pos := by
  refine (gives_bodyText b).bind ?_
  rintro text _ _ ⟨rfl, rfl⟩
  split
  · exact counts_publish _ _ _ h
  · exact gives_fail _

theorem counts_publishText (dates : DateHandling) (b : Body) (h : Counted stream s.lines pos) :
    (publishText dates b).Counts settings stream s pos := by
  unfold Counts publishText
  dsimp only
  split
  · exact counts_publish _ _ _ h
  · rw [gives_bind, gives_map]
    refine (gives_bodyText b).mono ?_
    rintro text _ _ ⟨rfl, rfl⟩
    split
    · exact counts_publish _ _ _ h
    · exact counts_publish _ _ _ h

theorem counts_stringValue {b : UInt8} (quote : UInt8) (request : Request)
    (h : Counted stream s.lines pos) (hget : stream[pos]? = some b) (hbreak : isBreak b = false) :
    (stringValue quote request).Counts settings stream s pos := by
  refine (counts_quoted quote h hget hbreak).bind fun b s₁ pos₁ h₁ => ?_
  refine (counts_finishValue h₁).bind fun _ s₂ pos₂ h₂ => ?_
  rw [gives_bind, gives_modify]
  split
  · exact counts_publishBytes b h₂
  · rw [gives_bind, gives_read]
    exact counts_publishText _ b h₂

end Reading

end JsonPull
