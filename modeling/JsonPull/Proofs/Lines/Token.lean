import JsonPull.Proofs.Lines.Scalar
import JsonPull.Reader.Typed

/-! # Line breaks over whole reads

Every read counts the line breaks that it passes, whatever it looks for. -/

namespace JsonPull.Reading

variable {α : Type} {settings : Settings} {stream : List UInt8} {s : State} {pos : Nat}
  {b : UInt8}

/-! ## Containers and names -/

theorem counts_openContainer (container : Container) (slot : Slot)
    (h : Counted stream s.lines pos) :
    (openContainer container slot).Counts settings stream s pos := by
  unfold Counts openContainer
  rw [gives_bind, gives_modify, gives_bind, gives_read]
  split
  · rw [gives_bind, gives_get]
    split
    · exact gives_fail _
    · exact (gives_pure _).mpr h
  · exact (gives_pure _).mpr h

theorem counts_closeContainer (container : Container) (h : Counted stream s.lines pos)
    (hget : stream[pos]? = some b) (hbreak : isBreak b = false) :
    (closeContainer container).Counts settings stream s pos := by
  unfold Counts closeContainer
  rw [gives_bind, gives_advance, gives_bind, gives_get, gives_bind, gives_modify]
  split
  · exact (gives_update _).mpr (h.advance (clear_one hget hbreak))
  · exact gives_fail _

theorem counts_bareName (h : Counted stream s.lines pos) :
    bareName.Counts settings stream s pos := by
  unfold Counts bareName
  rw [gives_bind, gives_cursor]
  refine gives_repeating (fun _ s' pos' => Counted stream s'.lines pos') ?_ h
  intro _ s pos h
  refine (gives_charAt? 0).bind ?_
  rintro r _ _ ⟨rfl, rfl, hchar⟩
  split
  · exact gives_fail _
  · rename_i c length
    split
    · rename_i hname
      refine (counts_advance h ((hchar c length rfl).clear_of_ne ?_ ?_)).bind ?_
      · rintro rfl
        exact absurd hname (by decide)
      · rintro rfl
        exact absurd hname (by decide)
      · exact fun _ s' pos' h' => (gives_pure _).mpr h'
    · split
      · rw [gives_bind, gives_cursor, gives_bind, gives_hold]
        exact (gives_pure _).mpr h
      · exact gives_fail _

theorem counts_nameText (quote : Option UInt8) (h : Counted stream s.lines pos)
    (hget : ∀ mark, quote = some mark → stream[pos]? = some mark ∧ isBreak mark = false) :
    (nameText quote).Counts settings stream s pos := by
  cases quote with
  | some mark =>
      obtain ⟨hmark, hbreak⟩ := hget mark rfl
      refine (counts_quoted mark h hmark hbreak).bind fun b s' pos' h' => ?_
      refine (gives_bodyText b).mono ?_
      rintro _ _ _ ⟨rfl, rfl⟩
      exact h'
  | none =>
      refine (gives_charAt? 0).bind ?_
      rintro r _ _ ⟨rfl, rfl, -⟩
      split
      · split
        · rw [gives_bind, gives_settle]
          refine (counts_bareName h).bind fun span s' pos' h' => ?_
          exact (gives_textOf span).mpr h'
        · exact gives_unexpected _
      · exact gives_unexpected _

theorem counts_property (h : Counted stream s.lines pos) :
    property.Counts settings stream s pos := by
  unfold Counts property
  rw [gives_bind, gives_byte?, gives_bind, gives_read]
  refine (counts_nameText _ h fun mark hmark => ?_).bind fun name s₁ pos₁ h₁ => ?_
  · obtain ⟨hget, hquote⟩ := Option.filter_eq_some_iff.mp hmark
    refine ⟨hget, isBreak_of_ne ?_ ?_⟩
    · rintro rfl
      exact absurd hquote (by decide)
    · rintro rfl
      exact absurd hquote (by decide)
  refine (gives_skipBlanks h₁).bind ?_
  rintro colon s₂ pos₂ ⟨h₂, hcolon⟩
  split
  · rename_i hmark
    rw [eq_of_beq hmark] at hcolon
    rw [gives_bind, gives_advance, gives_modify]
    exact h₂.advance (clear_one hcolon rfl)
  · exact gives_unexpected _

theorem counts_constructorName (h : Counted stream s.lines pos) :
    constructorName.Counts settings stream s pos := by
  refine gives_repeating (fun _ s' pos' => Counted stream s'.lines pos') ?_ h
  intro _ s pos h
  refine (gives_charAt? 0).bind ?_
  rintro r _ _ ⟨rfl, rfl, hchar⟩
  split
  · exact gives_fail _
  · rename_i c length
    have hc := hchar c length rfl
    split
    · rename_i hname
      refine (counts_advance h (hc.clear_of_ne ?_ ?_)).bind fun _ s' pos' h' => (gives_pure _).mpr h'
      · rintro rfl
        exact absurd hname (by decide)
      · rintro rfl
        exact absurd hname (by decide)
    · rw [gives_bind, gives_cursor]
      split
      · exact (gives_pure _).mpr h
      split
      · rename_i hreturn
        obtain rfl := eq_of_beq hreturn
        refine (counts_takeReturn h (hc.byte_eq (by decide))).bind fun _ s' pos' h' => ?_
        exact (gives_pure _).mpr h'
      split
      · rename_i hfeed
        obtain rfl := eq_of_beq hfeed
        refine (counts_takeFeed h (hc.byte_eq (by decide))).bind fun _ s' pos' h' => ?_
        exact (gives_pure _).mpr h'
      split
      · rename_i hreturn hfeed _
        have hclear := hc.clear_of_ne (ne_of_beq_false (Bool.eq_false_iff.mpr hreturn))
          (ne_of_beq_false (Bool.eq_false_iff.mpr hfeed))
        exact (counts_advance h hclear).bind fun _ s' pos' h' => (gives_pure _).mpr h'
      · exact gives_fail _

theorem counts_constructorStart (h : Counted stream s.lines pos) :
    constructorStart.Counts settings stream s pos := by
  refine (counts_requireWord .new h).bind fun _ s₁ pos₁ h₁ => ?_
  refine (gives_skipBlanks h₁).bind fun _ s₂ pos₂ h₂ => ?_
  rw [gives_bind, gives_cursor]
  refine (counts_constructorName h₂.1).bind fun last s₃ pos₃ h₃ => ?_
  rw [gives_bind, gives_bytesOf]
  refine (gives_skipBlanks h₃).bind ?_
  rintro mark s₄ pos₄ ⟨h₄, hmark⟩
  split
  · rename_i hopen
    rw [eq_of_beq hopen] at hmark
    rw [gives_bind, gives_advance]
    exact counts_openContainer _ _ (h₄.advance (clear_one hmark rfl))
  · exact gives_unexpected _

theorem counts_nullOrConstructor (h : Counted stream s.lines pos) :
    nullOrConstructor.Counts settings stream s pos := by
  unfold Counts nullOrConstructor
  rw [gives_bind, gives_byte?]
  split
  · rw [gives_bind, gives_advance]
    exact gives_fail _
  · exact counts_nullValue h
  · exact counts_constructorStart h
  · exact gives_fail _

theorem counts_otherValue (h : Counted stream s.lines pos) :
    otherValue.Counts settings stream s pos := by
  refine (gives_charAt? 0).bind ?_
  rintro r _ _ ⟨rfl, rfl, -⟩
  split
  · split
    · exact counts_numberValue _ h
    · exact gives_unexpected _
  · exact gives_unexpected _

/-! ## Plain reads -/

/-- A repetition of which every turn counts, whether it is the last one or not. -/
theorem counts_repeating {turn : Unit → Reading (Turn Unit α)} (h : Counted stream s.lines pos)
    (hturn : ∀ s pos, Counted stream s.lines pos → (turn ()).Counts settings stream s pos) :
    (repeating turn ()).Counts settings stream s pos := by
  refine gives_repeating (fun _ s' pos' => Counted stream s'.lines pos') ?_ h
  intro _ s pos h
  refine (hturn s pos h).mono ?_
  rintro (_ | a) s' pos' h'
  · exact h'
  · exact h'

theorem counts_found {σ : Type} {token : Reading Unit} (h : token.Counts settings stream s pos) :
    (found token : Reading (Turn σ Bool)).Counts settings stream s pos :=
  h.bind fun _ _ _ h' => (gives_pure _).mpr h'

theorem counts_passComment (surface : Bool) (h : Counted stream s.lines pos)
    (hget : stream[pos]? = some 0x2F) :
    (passComment surface).Counts settings stream s pos :=
  (counts_comment surface h hget).bind fun _ _ _ h' => (gives_pure _).mpr h'

theorem counts_nothing (h : Counted stream s.lines pos) : nothing.Counts settings stream s pos :=
  (gives_modify _).mpr h

/-- No byte that announces anything ends a line. -/
theorem isBreak_of_lead (h : Lead.ofByte b ≠ .other) : isBreak b = false := by
  apply isBreak_of_ne
  · rintro rfl
    exact h rfl
  · rintro rfl
    exact h rfl

theorem counts_value (h : Counted stream s.lines pos) : value.Counts settings stream s pos := by
  refine counts_repeating h fun s pos h => ?_
  refine (gives_skipBlanks h).bind ?_
  rintro b s₁ pos₁ ⟨h₁, hget⟩
  cases b with
  | none => exact (counts_nothing h₁).bind fun _ _ _ h' => (gives_pure _).mpr h'
  | some b =>
      have hbreak : Lead.ofByte b ≠ .other → isBreak b = false := isBreak_of_lead
      have hslash := @slash_of_lead b
      dsimp only
      cases hlead : Lead.ofByte b with
      | quote mark =>
          exact counts_found (counts_stringValue _ _ h₁ hget (hbreak (by rw [hlead]; nofun)))
      | boolean truth => exact counts_found (counts_booleanValue _ h₁)
      | letterN => exact counts_found (counts_nullOrConstructor h₁)
      | undefined => exact counts_found (counts_undefinedValue h₁)
      | special literal => exact counts_found (counts_specialValue _ _ h₁)
      | minus => exact counts_found (counts_negativeValue _ h₁ (counts_numberValue _ h₁))
      | number => exact counts_found (counts_numberValue _ h₁)
      | slash =>
          rw [hslash hlead] at hget
          exact (gives_bind _ _).mpr (gives_read.mpr (counts_passComment _ h₁ hget))
      | opening container =>
          have hopen := h₁.advance (clear_one hget (hbreak (by rw [hlead]; nofun)))
          refine counts_found ((gives_bind _ _).mpr ((gives_advance 1).mpr ?_))
          exact counts_openContainer _ _ hopen
      | closing container =>
          have hclose := hbreak (by rw [hlead]; nofun)
          cases container with
          | object => exact counts_found (gives_unexpected _)
          | array => exact counts_found (counts_closeContainer _ h₁ hget hclose)
          | constructor => exact counts_found (counts_closeContainer _ h₁ hget hclose)
      | comma => exact counts_found (counts_publish _ _ _ h₁)
      | other => exact counts_found (counts_otherValue h₁)

theorem counts_member (h : Counted stream s.lines pos) : member.Counts settings stream s pos := by
  refine counts_repeating h fun s pos h => ?_
  refine (gives_skipBlanks h).bind ?_
  rintro b s₁ pos₁ ⟨h₁, hget⟩
  split
  · exact (counts_nothing h₁).bind fun _ _ _ h' => (gives_pure _).mpr h'
  · exact counts_found (counts_closeContainer _ h₁ hget rfl)
  · rw [gives_bind, gives_read]
    exact counts_passComment _ h₁ hget
  · exact counts_found (counts_property h₁)

theorem counts_separator (surface : Bool) (h : Counted stream s.lines pos) :
    (separator surface).Counts settings stream s pos := by
  refine counts_repeating h fun s pos h => ?_
  refine (gives_skipBlanks h).bind ?_
  rintro b s₁ pos₁ ⟨h₁, hget⟩
  split
  · rw [gives_bind, gives_modify]
    exact (gives_pure _).mpr h₁
  · rename_i b
    split
    · rename_i hlead
      exact counts_found (counts_closeContainer _ h₁ hget (isBreak_of_lead (by rw [hlead]; nofun)))
    · rename_i hlead
      rw [slash_of_lead hlead] at hget
      exact counts_passComment _ h₁ hget
    · rename_i hlead
      have hcomma := h₁.advance (clear_one hget (isBreak_of_lead (by rw [hlead]; nofun)))
      rw [gives_bind, gives_advance, gives_bind, gives_update]
      exact (gives_pure _).mpr hcomma
    · rw [gives_bind, gives_read, gives_bind, gives_get]
      split
      · rw [gives_bind, gives_update]
        exact (gives_pure _).mpr h₁
      · exact gives_unexpected _

theorem counts_epilogue (surface : Bool) (h : Counted stream s.lines pos) :
    (epilogue surface).Counts settings stream s pos := by
  refine counts_repeating h fun s pos h => ?_
  refine (gives_skipBlanks h).bind ?_
  rintro b s₁ pos₁ ⟨h₁, hget⟩
  split
  · exact (counts_nothing h₁).bind fun _ _ _ h' => (gives_pure _).mpr h'
  · exact counts_passComment _ h₁ hget
  · exact gives_unexpected _

theorem counts_part (h : Counted stream s.lines pos) : part.Counts settings stream s pos := by
  unfold Counts part
  rw [gives_bind, gives_get]
  split
  · exact counts_value h
  · exact counts_value h
  · exact counts_member h
  · exact counts_member h
  · exact counts_value h
  · exact counts_value h
  · rw [gives_bind, gives_read]
    exact counts_epilogue _ h
  · exact (gives_pure _).mpr h
  · exact gives_fail _

theorem counts_token (h : Counted stream s.lines pos) : token.Counts settings stream s pos := by
  unfold Counts token
  rw [gives_bind, gives_get]
  split
  · rw [gives_bind, gives_read]
    refine (counts_separator _ h).bind fun found s' pos' h' => ?_
    split
    · exact (gives_pure _).mpr h'
    · exact counts_part h'
  · exact counts_part h

/-! ## Reads on request -/

theorem counts_requireNull (h : Counted stream s.lines pos) :
    requireNull.Counts settings stream s pos := by
  unfold Counts requireNull
  rw [gives_bind, gives_byte?]
  split
  · rw [gives_bind, gives_advance]
    exact gives_fail _
  · exact counts_nullValue h
  · exact (gives_true _).bind fun _ _ _ _ => (gives_true _).bind fun _ _ _ _ => gives_fail _

theorem counts_requestedNumber (request : Request) (h : Counted stream s.lines pos) :
    (requestedNumber request).Counts settings stream s pos := by
  have hnumber : ∀ request, (numberValue request).Counts settings stream s pos :=
    fun request => counts_numberValue request h
  cases request with
  | bytes | dateTime | dateTimeOffset => exact gives_unexpectedConsumed _
  | boolean =>
      refine (hnumber .plain).bind fun _ s' pos' h' => ?_
      rw [gives_bind, gives_get]
      exact counts_publish _ _ _ h'
  | plain | int32 | decimal | double | string => exact hnumber _

theorem counts_requestedBoolean (truth : Bool) (request : Request)
    (h : Counted stream s.lines pos) :
    (requestedBoolean truth request).Counts settings stream s pos := by
  have hword : ∀ (literal : Literal) (kind : Scalar) (v : Value),
      (do
        if ← separateWord literal then
          update fun settings => State.publishScalar settings kind (.owned v) true
        else unexpected .value : Reading Unit).Counts settings stream s pos := by
    intro literal kind v
    refine (counts_separateWord literal h).bind fun found s' pos' h' => ?_
    split
    · exact counts_publish _ _ _ h'
    · exact gives_unexpected _
  cases request with
  | boolean => exact hword _ _ _
  | string => exact hword _ _ _
  | _ => exact gives_unexpectedConsumed _

theorem gives_currentText :
    currentText.Gives settings stream s pos fun _ s' pos' => s' = s ∧ pos' = pos := by
  unfold currentText
  rw [gives_bind, gives_get]
  split
  · exact (gives_textOf _).mpr ⟨rfl, rfl⟩
  · exact (gives_pure _).mpr ⟨rfl, rfl⟩
  · exact (gives_pure _).mpr ⟨rfl, rfl⟩

theorem counts_convertText (request : Request) (h : Counted stream s.lines pos) :
    (convertText request).Counts settings stream s pos := by
  unfold Counts convertText
  split
  · exact (gives_pure _).mpr h
  · refine gives_currentText.bind ?_
    rintro text _ _ ⟨rfl, rfl⟩
    split
    · exact counts_publish _ _ _ h
    · split
      · exact counts_publish _ _ _ h
      · exact gives_fail _

theorem counts_byteArray (h : Counted stream s.lines pos) :
    byteArray.Counts settings stream s pos := by
  refine gives_repeating (fun _ s' pos' => Counted stream s'.lines pos') ?_ h
  intro bytes s pos h
  rw [gives_bind, gives_modify]
  have hclear : Counted stream s.clearSlot.lines pos := h
  refine (counts_token hclear).bind fun more s₁ pos₁ h₁ => ?_
  cases more with
  | false =>
      simp only [Bool.not_false, if_true]
      rw [gives_bind, nothing, gives_modify, gives_bind, gives_get]
      exact gives_fail _
  | true =>
      simp only [Bool.not_true, Bool.false_eq_true, if_false]
      rw [gives_bind, gives_get]
      split
      · exact gives_fail _
      · split
        · split
          · exact (gives_pure _).mpr h₁
          · exact gives_fail _
        · exact gives_fail _
      · exact (counts_publish _ _ _ h₁).bind fun _ s' pos' h' => (gives_pure _).mpr h'
      · exact (gives_pure _).mpr h₁
      · exact gives_fail _

theorem gives_elidedValue {post : Unit → State → Nat → Prop} :
    elidedValue.Gives settings stream s pos post := by
  unfold elidedValue
  rw [gives_bind, gives_update, gives_bind, gives_get, gives_bind, past, gives_ask]
  exact gives_throw _

theorem counts_endOfArray (h : Counted stream s.lines pos) (hget : stream[pos]? = some b)
    (hbreak : isBreak b = false) : endOfArray.Counts settings stream s pos := by
  unfold Counts endOfArray
  rw [gives_bind, gives_get]
  split
  · exact counts_closeContainer _ h hget hbreak
  · rw [gives_bind, gives_advance]
    exact gives_fail _

theorem counts_requestedValue (request : Request) (h : Counted stream s.lines pos) :
    (requestedValue request).Counts settings stream s pos := by
  refine counts_repeating h fun s pos h => ?_
  dsimp only
  refine (gives_skipBlanks h).bind ?_
  rintro b s₁ pos₁ ⟨h₁, hget⟩
  have hstop : ∀ {reading : Reading Unit}, reading.Counts settings stream s₁ pos₁ →
      (Turn.stop <$> reading : Reading (Turn Unit Unit)).Counts settings stream s₁ pos₁ :=
    fun h => (gives_map _ _).mpr h
  have hother : (Turn.stop <$> unexpectedConsumed .value : Reading (Turn Unit Unit)).Counts settings
      stream s₁ pos₁ := hstop (gives_unexpectedConsumed _)
  cases b with
  | none => exact hstop (counts_nothing h₁)
  | some b =>
      have hbreak : Lead.ofByte b ≠ .other → isBreak b = false := isBreak_of_lead
      have hslash := @slash_of_lead b
      dsimp only
      cases hlead : Lead.ofByte b with
      | quote mark =>
          have hclear := hbreak (by rw [hlead]; nofun)
          refine hstop ((counts_stringValue _ _ h₁ hget hclear).bind ?_)
          exact fun _ _ _ h' => counts_convertText _ h'
      | letterN => exact hstop (counts_requireNull h₁)
      | special literal => exact hstop (counts_specialValue _ _ h₁)
      | minus => exact hstop (counts_negativeValue _ h₁ (counts_requestedNumber _ h₁))
      | number => exact hstop (counts_requestedNumber _ h₁)
      | boolean truth => exact hstop (counts_requestedBoolean _ _ h₁)
      | opening container =>
          have hopen := h₁.advance (clear_one hget (hbreak (by rw [hlead]; nofun)))
          cases container with
          | array =>
              dsimp only
              split
              · refine hstop ((gives_bind _ _).mpr ((gives_advance 1).mpr ?_))
                exact (counts_openContainer _ _ hopen).bind fun _ _ _ h' => counts_byteArray h'
              · exact hother
          | object => exact hother
          | constructor => exact hother
      | slash =>
          rw [hslash hlead] at hget
          exact (counts_comment false h₁ hget).bind fun _ _ _ h' => (gives_pure _).mpr h'
      | comma => exact hstop gives_elidedValue
      | closing container =>
          have hclose := hbreak (by rw [hlead]; nofun)
          cases container with
          | array => exact hstop (counts_endOfArray h₁ hget hclose)
          | object => exact hother
          | constructor => exact hother
      | undefined => exact hother
      | other => exact hother

theorem counts_requestedPart (request : Request) (h : Counted stream s.lines pos) :
    (requestedPart request).Counts settings stream s pos := by
  unfold Counts requestedPart
  rw [gives_bind, gives_get]
  dsimp only
  split
  · exact counts_requestedValue _ h
  · split
    · exact (counts_epilogue false h).bind fun _ _ _ h' => (gives_pure _).mpr h'
    · exact (gives_pure _).mpr h
    · exact gives_fail _

theorem counts_requested (request : Request) (h : Counted stream s.lines pos) :
    (requested request).Counts settings stream s pos := by
  unfold Counts requested
  rw [gives_bind, gives_get]
  split
  · refine (counts_separator false h).bind fun found s' pos' h' => ?_
    split
    · exact (gives_pure _).mpr h'
    · exact counts_requestedPart _ h'
  · exact counts_requestedPart _ h

end JsonPull.Reading
