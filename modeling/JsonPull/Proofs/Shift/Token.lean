import JsonPull.Proofs.Shift.Scanning

/-! # Tokens at shifted places

What is read at a place, as the next token or in the form that a call asks for, does not depend on what
stands before it in the stream. -/

namespace JsonPull.Reading

open State

variable {α : Type} {f : Fork} {settings : Settings} {slot slot' : Slot}

/-! ## Scalars -/

theorem parallel_publishScalar (kind : Scalar) (h : f.Slots slot slot') (counted : Bool) :
    (update fun settings => publishScalar settings kind slot counted).Parallel
      (update fun settings => publishScalar settings kind slot' counted) f settings Eq :=
  .update fun _ _ _ hs => hs.publishScalar kind h counted

theorem movable_publishEmpty (kind : Scalar) (counted : Bool) :
    (update fun settings => publishScalar settings kind .empty counted).Movable f settings :=
  parallel_publishScalar kind .empty counted

theorem movable_publishOwned (kind : Scalar) (value : Value) (counted : Bool) :
    (update fun settings => publishScalar settings kind (.owned value) counted).Movable f settings :=
  parallel_publishScalar kind (.owned value) counted

theorem movable_failNumber (fault : NumberFault) : (failNumber fault : Reading α).Movable f settings :=
  (movable_publishEmpty _ _).next fun _ => movable_fail _

theorem movable_lexeme : lexeme.Movable f settings := by
  refine movable_lexemeBytes.next fun b => ?_
  split
  · exact movable_pure _
  · split
    · exact movable_pure _
    · refine movable_blankLength?.next fun r => ?_
      split
      · exact movable_pure _
      · exact movable_foundAtCursor.next fun _ => movable_failNumber _

theorem movable_finishValue : finishValue.Movable f settings :=
  .update fun _ _ _ h => h.completeValue.countElement

theorem movable_numberValue (request : Request) : (numberValue request).Movable f settings := by
  refine movable_settle.next fun _ => parallel_cursor.bind fun first first' hfirst => ?_
  refine movable_lexeme.next fun _ => movable_finishValue.next fun _ => ?_
  refine parallel_cursor.bind fun last last' hlast => ?_
  refine (parallel_hold hfirst hlast.near).bind fun span span' hspan => ?_
  refine (parallel_bytesOf hspan).bind ?_
  rintro spelling _ rfl
  refine .read_bind ?_
  split
  · exact parallel_publishScalar _ (.held hspan) _
  · exact movable_publishOwned _ _ _
  · exact movable_failNumber _

theorem movable_specialValue (literal : Literal) (request : Request) :
    (specialValue literal request).Movable f settings := by
  refine (movable_requireWord literal).next fun _ => .read_bind ?_
  dsimp only
  split
  · exact movable_publishOwned _ _ _
  · split
    · exact movable_publishOwned _ _ _
    · exact movable_fail _

theorem movable_negativeValue (request : Request) {number : Reading Unit}
    (h : number.Movable f settings) : (negativeValue request number).Movable f settings := by
  refine (movable_byte? 1).next fun b => ?_
  split
  · exact movable_specialValue _ _
  · exact h

theorem movable_booleanValue (b : Bool) : (booleanValue b).Movable f settings :=
  (movable_requireWord _).next fun _ => movable_publishOwned _ _ _

theorem movable_nullValue : nullValue.Movable f settings :=
  (movable_requireWord _).next fun _ => movable_publishEmpty _ _

theorem movable_undefinedValue : undefinedValue.Movable f settings :=
  (movable_requireWord _).next fun _ => movable_publishEmpty _ _

theorem Body.Alike.slots {b b' : Body} (h : b.Alike f b') : f.Slots b.slot b'.slot := by
  cases h with
  | held h => exact .held h
  | decoded text => exact .owned _

theorem parallel_publishText (dates : DateHandling) {b b' : Body} (h : b.Alike f b') :
    (publishText dates b).Parallel (publishText dates b') f settings Eq := by
  unfold publishText
  dsimp only
  split
  · exact parallel_publishScalar _ h.slots _
  · refine ((parallel_bodyText h).map _).bind ?_
    rintro date? _ rfl
    split
    · exact movable_publishOwned _ _ _
    · exact parallel_publishScalar _ h.slots _

theorem parallel_publishBytes {b b' : Body} (h : b.Alike f b') :
    (publishBytes b).Parallel (publishBytes b') f settings Eq := by
  refine (parallel_bodyText h).bind ?_
  rintro text _ rfl
  split
  · exact movable_publishOwned _ _ _
  · exact movable_fail _

theorem movable_stringValue (quote : UInt8) (request : Request) :
    (stringValue quote request).Movable f settings := by
  refine (parallel_quoted quote).bind fun b b' hb => movable_finishValue.next fun _ => ?_
  have hquote : (modify fun s => { s with quote := some quote } : Reading Unit).Movable f settings :=
    .modify fun s s' h => { h with }
  refine hquote.next fun _ => ?_
  split
  · exact parallel_publishBytes hb
  · exact .read_bind (parallel_publishText _ hb)

/-! ## Containers and names -/

theorem movable_nothing : nothing.Movable f settings :=
  .modify fun _ _ h => h.publish _ .empty

theorem parallel_openContainer (container : Container) (h : f.Slots slot slot') :
    (openContainer container slot).Parallel (openContainer container slot') f settings Eq := by
  have hpublish : (modify (publishOpening container slot) : Reading Unit).Parallel
      (modify (publishOpening container slot')) f settings Eq :=
    .modify fun _ _ hs => hs.publishOpening container h
  refine hpublish.bind fun _ _ _ => .read_bind ?_
  split
  · refine movable_get_bind fun s s' hs => ?_
    rw [hs.frames_eq]
    refine ⟨rfl, ?_⟩
    split
    · exact movable_fail _
    · exact movable_pure _
  · exact movable_pure _

theorem movable_closeContainer (container : Container) :
    (closeContainer container).Movable f settings := by
  refine (movable_advance 1).next fun _ => movable_get_bind fun s s' hs => ?_
  have hpublish : (modify (publishClosing container) : Reading Unit).Movable f settings :=
    .modify fun _ _ h => h.publishClosing container
  rw [hs.innermost?_eq]
  refine ⟨rfl, hpublish.next fun _ => ?_⟩
  split
  · exact .update fun _ _ _ h => h.completeValue
  · exact movable_fail _

theorem movable_property : property.Movable f settings := by
  refine (movable_byte? 0).next fun b => .read_bind ?_
  refine (movable_nameText _).next fun name => movable_skipBlanks.next fun b => ?_
  split
  · exact (movable_advance 1).next fun _ => .modify fun _ _ h => h.publishName _ _ _
  · exact movable_unexpected _

theorem movable_constructorStart : constructorStart.Movable f settings := by
  refine (movable_requireWord .new).next fun _ => movable_skipBlanks.next fun _ => ?_
  refine parallel_cursor.bind fun first first' hfirst => ?_
  refine parallel_constructorName.bind fun last last' hlast => ?_
  refine (parallel_bytesOf ⟨hfirst, hlast⟩).bind ?_
  rintro name _ rfl
  refine movable_skipBlanks.next fun b => ?_
  split
  · exact (movable_advance 1).next fun _ => parallel_openContainer _ (.owned _)
  · exact movable_unexpected _

theorem movable_nullOrConstructor : nullOrConstructor.Movable f settings := by
  refine (movable_byte? 1).next fun b => ?_
  split
  · exact (movable_advance 1).next fun _ => movable_fail _
  · exact movable_nullValue
  · exact movable_constructorStart
  · exact movable_fail _

theorem movable_otherValue : otherValue.Movable f settings := by
  refine (movable_charAt? 0).next fun r => ?_
  split
  · split
    · exact movable_numberValue _
    · exact movable_unexpected _
  · exact movable_unexpected _

/-! ## Tokens -/

theorem movable_found {x : Reading Unit} (h : x.Movable f settings) :
    (found x : Reading (Turn Unit Bool)).Movable f settings :=
  h.next fun _ => movable_pure _

theorem movable_passComment (surface : Bool) : (passComment surface).Movable f settings :=
  (movable_comment surface).next fun _ => movable_pure _

theorem movable_value : value.Movable f settings := by
  refine .repeating (fun _ => movable_skipBlanks.next fun b => ?_) ()
  split
  · exact movable_nothing.next fun _ => movable_pure _
  · split
    · exact movable_found (movable_stringValue _ _)
    · exact movable_found (movable_booleanValue _)
    · exact movable_found movable_nullOrConstructor
    · exact movable_found movable_undefinedValue
    · exact movable_found (movable_specialValue _ _)
    · exact movable_found (movable_negativeValue _ (movable_numberValue _))
    · exact movable_found (movable_numberValue _)
    · exact .read_bind (movable_passComment _)
    · exact movable_found ((movable_advance 1).next fun _ => parallel_openContainer _ .empty)
    · exact movable_found (movable_unexpected _)
    · exact movable_found (movable_closeContainer _)
    · exact movable_found (movable_publishEmpty _ _)
    · exact movable_found movable_otherValue

theorem movable_member : member.Movable f settings := by
  refine .repeating (fun _ => movable_skipBlanks.next fun b => ?_) ()
  split
  · exact movable_nothing.next fun _ => movable_pure _
  · exact movable_found (movable_closeContainer _)
  · exact .read_bind (movable_passComment _)
  · exact movable_found movable_property

theorem movable_resume : (update resumeContainer).Movable f settings :=
  .update fun _ _ _ h => h.resumeContainer

theorem movable_separator (surface : Bool) : (separator surface).Movable f settings := by
  refine .repeating (fun _ => movable_skipBlanks.next fun b => ?_) ()
  split
  · have hfinish : (modify fun s => { s with phase := .finished } : Reading Unit).Movable f settings :=
      .modify fun _ _ h => { h with phase_eq := rfl }
    exact hfinish.next fun _ => movable_pure _
  · split
    · exact movable_found (movable_closeContainer _)
    · exact movable_passComment _
    · exact (movable_advance 1).next fun _ => movable_resume.next fun _ => movable_pure _
    · refine .read_bind (movable_get_bind fun s s' h => ?_)
      rw [h.frames_eq]
      refine ⟨rfl, ?_⟩
      split
      · exact movable_resume.next fun _ => movable_pure _
      · exact movable_unexpected _

theorem movable_epilogue (surface : Bool) : (epilogue surface).Movable f settings := by
  refine .repeating (fun _ => movable_skipBlanks.next fun b => ?_) ()
  split
  · exact movable_nothing.next fun _ => movable_pure _
  · exact movable_passComment _
  · exact movable_unexpected _

theorem movable_part : part.Movable f settings := by
  refine movable_get_bind fun s s' h => ?_
  rw [h.phase_eq]
  refine ⟨rfl, ?_⟩
  split
  · exact movable_value
  · exact movable_value
  · exact movable_member
  · exact movable_member
  · exact movable_value
  · exact movable_value
  · exact .read_bind (movable_epilogue _)
  · exact movable_pure _
  · exact movable_fail _

theorem movable_token : token.Movable f settings := by
  refine movable_get_bind fun s s' h => ?_
  rw [h.phase_eq]
  refine ⟨rfl, ?_⟩
  split
  · refine .read_bind ((movable_separator _).next fun found => ?_)
    split
    · exact movable_pure _
    · exact movable_part
  · exact movable_part

/-! ## Typed reads -/

theorem movable_requireNull : requireNull.Movable f settings := by
  refine (movable_byte? 1).next fun b => ?_
  split
  · exact (movable_advance 1).next fun _ => movable_fail _
  · exact movable_nullValue
  · exact (movable_charAt? 1).next fun r => (movable_advance _).next fun _ => movable_fail _

theorem movable_requestedNumber (request : Request) :
    (requestedNumber request).Movable f settings := by
  unfold requestedNumber
  split
  · exact movable_unexpectedConsumed _
  · exact movable_unexpectedConsumed _
  · exact movable_unexpectedConsumed _
  · refine (movable_numberValue _).next fun _ => movable_get_bind fun s s' h => ?_
    have hslots := h.slots
    refine ⟨?_, movable_publishOwned _ _ _⟩
    generalize s.slot = slot at hslots ⊢
    generalize s'.slot = slot' at hslots ⊢
    cases hslots <;> rfl
  · exact movable_numberValue _

theorem movable_requestedBoolean (truth : Bool) (request : Request) :
    (requestedBoolean truth request).Movable f settings := by
  have hword : ∀ (literal : Literal) (kind : Scalar) (v : Value), (do
      if ← separateWord literal then
        update fun settings => publishScalar settings kind (.owned v) true
      else unexpected .value : Reading Unit).Movable f settings := by
    intro literal kind v
    refine (movable_separateWord literal).next fun found => ?_
    split
    · exact movable_publishOwned _ _ _
    · exact movable_unexpected _
  unfold requestedBoolean
  dsimp only
  split
  · exact hword _ _ _
  · exact hword _ _ _
  · exact movable_unexpectedConsumed _

theorem movable_currentText : currentText.Movable f settings := by
  refine .get_bind fun s s' h => ?_
  have hslots := h.slots
  generalize s.slot = slot at hslots ⊢
  generalize s'.slot = slot' at hslots ⊢
  cases hslots with
  | empty => exact movable_pure _
  | held hspan => exact parallel_textOf hspan
  | owned v => cases v <;> exact movable_pure _

theorem movable_convertText (request : Request) : (convertText request).Movable f settings := by
  unfold convertText
  split
  · exact movable_pure _
  · refine movable_currentText.next fun text => ?_
    split
    · exact movable_publishEmpty _ _
    · split
      · exact movable_publishOwned _ _ _
      · exact movable_fail _

theorem movable_clearSlot : (modify clearSlot : Reading Unit).Movable f settings :=
  .modify fun _ _ h => h.clearSlot

theorem movable_byteArray : byteArray.Movable f settings := by
  refine .repeating (fun bytes => movable_clearSlot.next fun _ => movable_token.next fun found => ?_) []
  generalize hrest : (get >>= _ : Reading (Turn (List UInt8) Unit)) = rest
  have hread : rest.Movable f settings := by
    subst hrest
    refine movable_get_bind fun s s' h => ?_
    have hslots := h.slots
    rw [h.token_eq]
    generalize s.slot = slot at hslots ⊢
    generalize s'.slot = slot' at hslots ⊢
    refine ⟨by cases hslots <;> rfl, ?_⟩
    split
    · exact movable_fail _
    · split
      · split
        · exact movable_pure _
        · exact movable_fail _
      · exact movable_fail _
    · exact (movable_publishOwned _ _ _).next fun _ => movable_pure _
    · exact movable_pure _
    · exact movable_fail _
  dsimp only
  split
  · exact movable_nothing.next fun _ => hread
  · exact hread

theorem movable_elidedValue : elidedValue.Movable f settings := by
  refine (movable_publishEmpty _ _).next fun _ => .get_bind fun s s' h => ?_
  exact (parallel_past 1).bind fun _ _ _ => .throw ⟨rfl, h.path_eq, h.lines_eq⟩

theorem movable_endOfArray : endOfArray.Movable f settings := by
  refine movable_get_bind fun s s' h => ?_
  rw [h.phase_eq]
  refine ⟨rfl, ?_⟩
  split
  · exact movable_closeContainer _
  · exact (movable_advance 1).next fun _ => movable_fail _

theorem movable_requestedValue (request : Request) : (requestedValue request).Movable f settings := by
  refine .repeating (fun _ => ?_) ()
  dsimp only
  refine movable_skipBlanks.next fun b => ?_
  have hother : (Turn.stop <$> unexpectedConsumed .value : Reading (Turn Unit Unit)).Movable f
      settings := (movable_unexpectedConsumed _).map _
  cases b with
  | none => exact movable_nothing.map _
  | some b =>
      dsimp only
      cases Lead.ofByte b with
      | quote mark => exact ((movable_stringValue _ _).next fun _ => movable_convertText request).map _
      | letterN => exact movable_requireNull.map _
      | special literal => exact (movable_specialValue _ _).map _
      | minus => exact (movable_negativeValue _ (movable_requestedNumber _)).map _
      | number => exact (movable_requestedNumber _).map _
      | boolean truth => exact (movable_requestedBoolean _ _).map _
      | opening c =>
          cases c with
          | array =>
              dsimp only
              split
              · exact ((movable_advance 1).next fun _ => (parallel_openContainer .array .empty).next
                  fun _ => movable_byteArray).map _
              · exact hother
          | object | constructor => exact hother
      | slash => exact (movable_comment false).next fun _ => movable_pure _
      | comma => exact movable_elidedValue.map _
      | closing c =>
          cases c with
          | array => exact movable_endOfArray.map _
          | object | constructor => exact hother
      | undefined | other => exact hother

theorem movable_requestedPart (request : Request) : (requestedPart request).Movable f settings := by
  refine movable_get_bind fun s s' h => ?_
  rw [h.phase_eq]
  refine ⟨rfl, ?_⟩
  dsimp only
  split
  · exact movable_requestedValue _
  · split
    · exact (movable_epilogue _).next fun _ => movable_pure _
    · exact movable_pure _
    · exact movable_fail _

theorem movable_requested (request : Request) : (requested request).Movable f settings := by
  refine movable_get_bind fun s s' h => ?_
  rw [h.phase_eq]
  refine ⟨rfl, ?_⟩
  split
  · refine (movable_separator _).next fun found => ?_
    split
    · exact movable_pure _
    · exact movable_requestedPart _
  · exact movable_requestedPart _

end JsonPull.Reading
