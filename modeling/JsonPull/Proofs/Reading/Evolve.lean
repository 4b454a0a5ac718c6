import JsonPull.Proofs.Reading.Straight

/-! # Every call goes on by changes

The parts of the grammar and the typed reads go straight, and change the state by changes only,
whatever they end with. -/

namespace JsonPull.Reading

open State

variable {settings : Settings} {s s₁ : State}

/-! ## Values -/

/-- A scalar is published. -/
theorem straight_publish (kind : Scalar) (slot : Slot) (counted : Bool) :
    (Reading.update fun settings => publishScalar settings kind slot counted).Straight .evolving :=
  .update fun _ _ => .single (.scalar kind slot counted)

theorem straight_failNumber {α : Type} (fault : NumberFault) :
    (failNumber fault : Reading α).Straight .evolving :=
  (straight_publish _ _ _).bind fun _ => .fail rfl rfl

theorem straight_lexeme : lexeme.Straight .evolving := by
  refine straight_lexemeBytes.bind fun b => ?_
  split
  · exact .pure _
  · split
    · exact .pure _
    · refine straight_blankLength?.bind fun length => ?_
      split
      · exact .pure _
      · exact straight_foundAtCursor.bind fun _ => straight_failNumber _

theorem straight_finishValue : finishValue.Straight .evolving := .update fun _ _ => .single .counted

theorem straight_numberValue (request : Request) : (numberValue request).Straight .evolving := by
  refine (Straight.ask .settle rfl).bind fun _ => straight_cursor.bind fun first => ?_
  refine straight_lexeme.bind fun _ => straight_finishValue.bind fun _ => ?_
  refine straight_cursor.bind fun last => (straight_hold _ _).bind fun span => ?_
  refine (straight_bytesOf span).bind fun spelling => .read_bind fun settings => ?_
  split
  · exact straight_publish _ _ _
  · exact straight_publish _ _ _
  · exact straight_failNumber _

theorem straight_specialValue (literal : Literal) (request : Request) :
    (specialValue literal request).Straight .evolving := by
  refine (straight_requireWord literal).bind fun _ => .read_bind fun settings => ?_
  dsimp only
  split
  · exact straight_publish _ _ _
  · split
    · exact straight_publish _ _ _
    · exact .fail rfl rfl

theorem straight_negativeValue (request : Request) {number : Reading Unit}
    (h : number.Straight .evolving) :
    (negativeValue request number).Straight .evolving := by
  refine (Straight.byte? 1).bind fun b => ?_
  split
  · exact straight_specialValue _ _
  · exact h

/-- A word that is published. -/
theorem straight_word (literal : Literal) (kind : Scalar) (slot : Slot) :
    (do
      requireWord literal
      update fun settings => publishScalar settings kind slot true :
        Reading Unit).Straight .evolving :=
  (straight_requireWord literal).bind fun _ => straight_publish _ _ _

theorem straight_publishBytes (b : Body) : (publishBytes b).Straight .evolving := by
  refine (straight_bodyText b).bind fun text => ?_
  split
  · exact straight_publish _ _ _
  · exact .fail rfl rfl

theorem straight_publishText (dates : DateHandling) (b : Body) :
    (publishText dates b).Straight .evolving := by
  unfold publishText
  dsimp only
  split
  · exact straight_publish _ _ _
  · refine ((straight_bodyText b).map _).bind fun date? => ?_
    split
    · exact straight_publish _ _ _
    · exact straight_publish _ _ _

theorem straight_stringValue (quote : UInt8) (request : Request) :
    (stringValue quote request).Straight .evolving := by
  refine (straight_quoted quote).bind fun b => straight_finishValue.bind fun _ => ?_
  refine (Straight.change fun _ _ => .quote _).bind fun _ => ?_
  split
  · exact straight_publishBytes b
  · exact .read_bind fun settings => straight_publishText _ b

/-! ## Comments and containers -/

theorem straight_comment_false : (comment false).Straight manner := by
  refine (straight_advance 1).bind fun _ => (Straight.byte? 0).bind fun mark => ?_
  split
  · exact .fail rfl rfl
  · split
    · exact straight_unexpected _
    · refine (straight_advance 1).bind fun _ => straight_cursor.bind fun first => ?_
      dsimp only
      split
      · exact straight_lineCommentBody.bind fun _ => .pure _
      · exact straight_blockCommentBody.bind fun _ => .pure _

theorem straight_comment (surface : Bool) : (comment surface).Straight .evolving := by
  have hpublish : ∀ first last, (do
      let span : Span := { first, last }
      let trimmed := trimSpan span (← bytesOf span)
      modify (publishComment (.held (← hold trimmed.first trimmed.last))) :
        Reading Unit).Straight .evolving := by
    intro first last
    refine (straight_bytesOf _).bind fun bytes => (straight_hold _ _).bind fun span => ?_
    exact .change fun _ _ => .comment _
  cases surface with
  | false => exact straight_comment_false
  | true =>
      refine (straight_advance 1).bind fun _ => (Straight.byte? 0).bind fun mark => ?_
      split
      · exact .fail rfl rfl
      · split
        · exact (straight_unexpected _)
        · refine (straight_advance 1).bind fun _ => straight_cursor.bind fun first => ?_
          dsimp only
          split
          · exact straight_lineCommentBody.bind (hpublish first)
          · exact straight_blockCommentBody.bind (hpublish first)

theorem straight_nothing : nothing.Straight .evolving := .change fun _ _ => .nothing

theorem straight_openContainer (c : Container) (slot : Slot) :
    (openContainer c slot).Straight .evolving := by
  refine (Straight.change fun _ _ => .opening c slot).bind fun _ => ?_
  refine .read_bind fun settings => ?_
  split
  · refine .get_bind fun s => ?_
    split
    · exact .fail rfl rfl
    · exact .pure _
  · exact .pure _

theorem straight_constructorStart : constructorStart.Straight .evolving := by
  refine (straight_requireWord _).bind fun _ => straight_skipBlanks.bind fun _ => ?_
  refine straight_cursor.bind fun first => straight_constructorName.bind fun last => ?_
  refine (straight_bytesOf _).bind fun name => straight_skipBlanks.bind fun mark => ?_
  split
  · exact (straight_advance 1).bind fun _ => straight_openContainer _ _
  · exact (straight_unexpected _)

theorem straight_nullOrConstructor : nullOrConstructor.Straight .evolving := by
  refine (Straight.byte? 1).bind fun b => ?_
  split
  · exact (straight_advance 1).bind fun _ => .fail rfl rfl
  · exact straight_word _ _ _
  · exact straight_constructorStart
  · exact .fail rfl rfl

theorem straight_otherValue : otherValue.Straight .evolving := by
  refine (straight_charAt? 0).bind fun r => ?_
  split
  · split
    · exact straight_numberValue _
    · exact (straight_unexpected _)
  · exact (straight_unexpected _)

/-! ## Parts -/

/-! ### At a fault -/

theorem straight_closeContainer (c : Container) : (closeContainer c).Straight .free := by
  refine (straight_advance 1).bind fun _ => .get_bind fun s => ?_
  refine Straight.modify_free.bind fun _ => ?_
  split
  · exact .update_free
  · exact .fail_free rfl

theorem straight_found {manner : Manner} {token : Reading Unit} (h : token.Straight manner) :
    (found token : Reading (Turn Unit Bool)).Straight manner :=
  h.bind fun _ => .pure _

theorem straight_passComment (surface : Bool) : (passComment surface).Straight .evolving :=
  (straight_comment surface).bind fun _ => .pure _

theorem straight_value : value.Straight .free := by
  refine .repeating (fun _ => straight_skipBlanks.bind fun b => ?_) ()
  split
  · exact straight_nothing.free.bind fun _ => .pure _
  · split
    · exact straight_found (straight_stringValue _ _).free
    · exact straight_found (straight_word _ _ _).free
    · exact straight_found straight_nullOrConstructor.free
    · exact straight_found (straight_word _ _ _).free
    · exact straight_found (straight_specialValue _ _).free
    · exact straight_found (straight_negativeValue _ (straight_numberValue _)).free
    · exact straight_found (straight_numberValue _).free
    · exact .read_bind fun _ => (straight_passComment _).free
    · exact straight_found ((straight_advance 1).bind fun _ => (straight_openContainer _ _).free)
    · exact straight_found (straight_unexpected _)
    · exact straight_found (straight_closeContainer _)
    · exact straight_found (straight_publish _ _ _).free
    · exact straight_found straight_otherValue.free

theorem straight_property : property.Straight .free := by
  refine (Straight.byte? 0).bind fun b => .read_bind fun settings => ?_
  refine (straight_nameText _).bind fun name => straight_skipBlanks.bind fun colon => ?_
  split
  · exact (straight_advance 1).bind fun _ => .modify_free
  · exact straight_unexpected _

theorem straight_member : member.Straight .free := by
  refine .repeating (fun _ => straight_skipBlanks.bind fun b => ?_) ()
  split
  · exact straight_nothing.free.bind fun _ => .pure _
  · exact straight_found (straight_closeContainer _)
  · exact .read_bind fun _ => (straight_passComment _).free
  · exact straight_found straight_property

theorem straight_separator (surface : Bool) : (separator surface).Straight .free := by
  refine .repeating (fun _ => straight_skipBlanks.bind fun b => ?_) ()
  split
  · exact Straight.modify_free.bind fun _ => .pure _
  · split
    · exact straight_found (straight_closeContainer _)
    · exact (straight_passComment _).free
    · refine (straight_advance 1).bind fun _ => ?_
      exact Straight.update_free.bind fun _ => .pure _
    · refine .read_bind fun settings => .get_bind fun s => ?_
      split
      · exact Straight.update_free.bind fun _ => .pure _
      · exact straight_unexpected _

/-! ### What they leave -/

/-- Only in an object it matters which container is closed. -/
theorem leaves_closeContainer (c : Container) (hphase : s.inObject → c = .object) :
    (closeContainer c).Leaves settings s (fun _ s' => Changes settings s s')
      (Broken settings s) := by
  have hadvance : (advance 1).Leaves settings s (fun _ s' => s' = s) (Broken settings s) :=
    .ask fun _ => rfl
  have hclosing : (modify (State.publishClosing c) : Reading Unit).Leaves settings s
      (fun _ s' => s' = s.publishClosing c) (Broken settings s) := .modify rfl
  refine hadvance.bind ?_
  rintro _ _ rfl
  refine .get_bind (hclosing.bind ?_)
  rintro _ _ rfl
  split
  · rename_i hinner
    exact .update (.single (.closing c hinner))
  · rename_i hinner
    exact .fail fun _ => .mismatched c .refl hphase hinner rfl rfl

theorem inObject_congr (h : s.Lined s₁) : s₁.inObject ↔ s.inObject := by
  unfold State.inObject
  rw [h.phase_eq]

section Turns

variable {α β σ : Type} {ok : β → State → Prop}

/-- A calm reading comes first. -/
theorem Calm.next {x : Reading α} {f : α → Reading β} (hx : x.Calm) (hs : s.Lined s₁)
    (hf : ∀ a s₂, s.Lined s₂ → (f a).Leaves settings s₂ ok (Broken settings s)) :
    (x >>= f).Leaves settings s₁ ok (Broken settings s) := by
  refine ((hx.leaves settings s₁).mono (fun _ _ h => h) ?_).bind fun a s₂ h₂ =>
    hf a s₂ (hs.trans h₂)
  exact fun _ _ h => .kept (hs.trans h.1).changes h.2.1 h.2.2

theorem Evolves.next {x : Reading α} (hx : x.Evolves) (hs : s.Lined s₁) :
    x.Leaves settings s₁ (fun _ s' => Changes settings s s') (Broken settings s) :=
  (hx.leaves settings s₁).mono (fun _ _ h => hs.changes.trans h) fun _ _ h => h.of_changes hs.changes

theorem leaves_unexpected (site : CharSite) (hs : s.Lined s₁) :
    (unexpected site : Reading β).Leaves settings s₁ ok (Broken settings s) :=
  straight_foundAtCursor.calm.next hs fun _ _ h => .fail fun _ => .kept h.changes rfl rfl

/-- What a turn of a part leaves: nothing but more lines, or what the part leaves. -/
abbrev PartTurn (settings : Settings) (s : State) : Turn Unit Bool → State → Prop :=
  Leaves.Turned (fun _ s' => s.Lined s') fun _ s' => Changes settings s s'

theorem leaves_found {token : Reading Unit}
    (h : token.Leaves settings s₁ (fun _ s' => Changes settings s s') (Broken settings s)) :
    (found token).Leaves settings s₁ (PartTurn settings s) (Broken settings s) :=
  h.bind fun _ _ h => .pure h

theorem leaves_passComment (surface : Bool) (hs : s.Lined s₁) :
    (passComment surface).Leaves settings s₁ (PartTurn settings s) (Broken settings s) := by
  cases surface with
  | false => exact straight_comment_false.calm.next hs fun _ s₂ h₂ => .pure h₂
  | true => exact ((straight_comment true).evolves.next hs).bind fun _ s₂ h₂ => .pure h₂

/-- A part is repeated turns from one that only counted lines to the next. -/
theorem leaves_turns {turn : Unit → Reading (Turn Unit Bool)}
    (h : ∀ s₁, s.Lined s₁ → (turn ()).Leaves settings s₁ (PartTurn settings s) (Broken settings s)) :
    (repeating turn ()).Leaves settings s (fun _ s' => Changes settings s s') (Broken settings s) :=
  .repeating (fun _ s' => s.Lined s') (fun _ s₁ h₁ => h s₁ h₁)
    (fun _ _ h₁ _ => .fail fun _ => .kept h₁.changes rfl rfl) (.refl s)

end Turns

theorem leaves_value (hphase : ¬s.inObject) :
    value.Leaves settings s (fun _ s' => Changes settings s s') (Broken settings s) := by
  refine leaves_turns fun s₁ h₁ => straight_skipBlanks.calm.next h₁ fun b s₂ h₂ => ?_
  cases b with
  | none => exact (straight_nothing.evolves.next h₂).bind fun _ _ h => .pure h
  | some b =>
      dsimp only
      split
      · exact leaves_found ((straight_stringValue _ _).evolves.next h₂)
      · exact leaves_found ((straight_word _ _ _).evolves.next h₂)
      · exact leaves_found (straight_nullOrConstructor.evolves.next h₂)
      · exact leaves_found ((straight_word _ _ _).evolves.next h₂)
      · exact leaves_found ((straight_specialValue _ _).evolves.next h₂)
      · have hnegative := straight_negativeValue .plain (straight_numberValue .plain)
        exact leaves_found (hnegative.evolves.next h₂)
      · exact leaves_found ((straight_numberValue _).evolves.next h₂)
      · exact .read_bind (leaves_passComment _ h₂)
      · have hopening : ∀ c, (do
            advance 1
            openContainer c .empty : Reading Unit).Straight .evolving :=
          fun c => (straight_advance 1).bind fun _ => straight_openContainer c _
        exact leaves_found ((hopening _).evolves.next h₂)
      · exact leaves_found (leaves_unexpected _ h₂)
      · refine leaves_found ((leaves_closeContainer _ fun h => ?_).mono
          (fun _ _ h => h₂.changes.trans h) fun _ _ h => h.of_changes h₂.changes)
        exact absurd ((inObject_congr h₂).mp h) hphase
      · exact leaves_found ((straight_publish _ _ _).evolves.next h₂)
      · exact leaves_found (straight_otherValue.evolves.next h₂)

theorem leaves_property (hphase : s.inObject) :
    property.Leaves settings s (fun _ s' => Changes settings s s') (Broken settings s) := by
  refine (Straight.byte? 0).calm.next (.refl s) fun b s₁ h₁ => .read_bind ?_
  refine (straight_nameText _).calm.next h₁ fun name s₂ h₂ => ?_
  refine straight_skipBlanks.calm.next h₂ fun colon s₃ h₃ => ?_
  split
  · refine (straight_advance 1).calm.next h₃ fun _ s₄ h₄ => .modify ?_
    exact (h₄.changes.tail (.name _ ((inObject_congr h₄).mpr hphase))).tail (.quote _)
  · exact leaves_unexpected _ h₃

theorem leaves_member (hphase : s.inObject) :
    member.Leaves settings s (fun _ s' => Changes settings s s') (Broken settings s) := by
  refine leaves_turns fun s₁ h₁ => straight_skipBlanks.calm.next h₁ fun b s₂ h₂ => ?_
  split
  · exact (straight_nothing.evolves.next h₂).bind fun _ _ h => .pure h
  · exact leaves_found ((leaves_closeContainer .object fun _ => rfl).mono
      (fun _ _ h => h₂.changes.trans h) fun _ _ h => h.of_changes h₂.changes)
  · exact .read_bind (leaves_passComment _ h₂)
  · exact leaves_found ((leaves_property ((inObject_congr h₂).mpr hphase)).mono
      (fun _ _ h => h₂.changes.trans h) fun _ _ h => h.of_changes h₂.changes)

theorem leaves_separator (surface : Bool) (hphase : ¬s.inObject) :
    (separator surface).Leaves settings s (fun _ s' => Changes settings s s')
      (Broken settings s) := by
  refine leaves_turns fun s₁ h₁ => straight_skipBlanks.calm.next h₁ fun b s₂ h₂ => ?_
  have hresume : (do
      update resumeContainer
      return .stop false : Reading (Turn Unit Bool)).Leaves settings s₂ (PartTurn settings s)
        (Broken settings s) :=
    (Leaves.update (h₂.changes.tail .resumed)).bind fun _ _ h => .pure h
  cases b with
  | none => exact (Leaves.modify (h₂.changes.tail .ended)).bind fun _ _ h => .pure h
  | some b =>
      dsimp only
      split
      · refine leaves_found ((leaves_closeContainer _ fun h => ?_).mono
          (fun _ _ h => h₂.changes.trans h) fun _ _ h => h.of_changes h₂.changes)
        exact absurd ((inObject_congr h₂).mp h) hphase
      · exact leaves_passComment _ h₂
      · refine (straight_advance 1).calm.next h₂ fun _ s₃ h₃ => ?_
        exact (Leaves.update (h₃.changes.tail .resumed)).bind fun _ _ h => .pure h
      · refine .read_bind (.get_bind ?_)
        split
        · exact hresume
        · exact leaves_unexpected _ h₂

/-! ### Whole parts -/

theorem straight_epilogue (surface : Bool) : (epilogue surface).Straight .evolving := by
  refine .repeating (fun _ => straight_skipBlanks.bind fun b => ?_) ()
  split
  · exact straight_nothing.bind fun _ => .pure _
  · exact straight_passComment surface
  · exact straight_unexpected _

theorem straight_part : part.Straight .evolving := by
  refine .of_evolves (.get_bind fun s => ?_) ⟨fun settings s => .get_bind ?_⟩
  · split
    · exact straight_value
    · exact straight_value
    · exact straight_member
    · exact straight_member
    · exact straight_value
    · exact straight_value
    · exact .read_bind fun _ => (straight_epilogue _).free
    · exact .pure _
    · exact .fail rfl rfl
  · split
    all_goals rename_i hphase
    · exact leaves_value (by simp [State.inObject, hphase])
    · exact leaves_value (by simp [State.inObject, hphase])
    · exact leaves_member (.inl hphase)
    · exact leaves_member (.inr hphase)
    · rename_i _ hc
      exact leaves_value (by simpa [State.inObject, hphase] using hc)
    · rename_i _ hc
      exact leaves_value (by simpa [State.inObject, hphase] using hc)
    · exact .read_bind ((straight_epilogue _).leaves settings s)
    · exact .pure .refl
    · exact .fail fun _ => .kept .refl rfl rfl

/-- A separator, and what comes behind it if it was no token. -/
theorem leaves_behind {α : Type} {surface : Bool} {k : Bool → Reading α}
    (hk : ∀ b, (k b).Evolves) (hphase : s.phase = .postValue) :
    (separator surface >>= k).Leaves settings s (fun _ s' => Changes settings s s')
      (Broken settings s) := by
  refine (leaves_separator _ (by simp [State.inObject, hphase])).bind fun b s₁ h₁ => ?_
  exact ((hk b).leaves settings s₁).mono (fun _ _ h => h₁.trans h) fun _ _ h => h.of_changes h₁

theorem straight_token : token.Straight .evolving := by
  have hnext : ∀ b : Bool, (if b then pure true else part : Reading Bool).Straight .evolving := by
    rintro (_ | _)
    · exact straight_part
    · exact .pure true
  refine .of_evolves (.get_bind fun s => ?_) ⟨fun settings s => .get_bind ?_⟩
  · split
    · exact .read_bind fun _ => (straight_separator _).bind fun b => (hnext b).free
    · exact straight_part.free
  · split
    · rename_i hphase
      exact .read_bind (leaves_behind (fun b => (hnext b).evolves) hphase)
    · exact straight_part.leaves settings s

/-! ## Typed reads -/

theorem straight_requireNull : requireNull.Straight .evolving := by
  refine (Straight.byte? 1).bind fun b => ?_
  split
  · exact (straight_advance 1).bind fun _ => .fail rfl rfl
  · exact straight_word _ _ _
  · refine (straight_charAt? 1).bind fun r => ?_
    exact (straight_advance _).bind fun _ => .fail rfl rfl

theorem straight_requestedNumber (request : Request) : (requestedNumber request).Straight .evolving := by
  unfold requestedNumber
  split
  · exact (straight_unexpectedConsumed _)
  · exact (straight_unexpectedConsumed _)
  · exact (straight_unexpectedConsumed _)
  · exact (straight_numberValue _).bind fun _ => .get_bind fun s => straight_publish _ _ _
  · exact straight_numberValue _

theorem straight_requestedBoolean (truth : Bool) (request : Request) :
    (requestedBoolean truth request).Straight .evolving := by
  have hword : ∀ (literal : Literal) (kind : Scalar) (v : Value), (do
      if ← separateWord literal then
        update fun settings => publishScalar settings kind (.owned v) true
      else unexpected .value : Reading Unit).Straight .evolving := by
    intro literal kind v
    refine (straight_separateWord literal).bind fun matched => ?_
    split
    · exact straight_publish _ _ _
    · exact (straight_unexpected _)
  cases request with
  | boolean => exact hword _ _ _
  | string => exact hword _ _ _
  | _ => exact (straight_unexpectedConsumed _)

theorem straight_convertText (request : Request) : (convertText request).Straight .evolving := by
  unfold convertText
  split
  · exact .pure _
  · refine straight_currentText.bind fun text => ?_
    split
    · exact straight_publish _ _ _
    · split
      · exact straight_publish _ _ _
      · exact .fail rfl rfl

theorem straight_byteArray : byteArray.Straight .evolving := by
  refine .repeating (fun bytes => (Straight.change fun _ _ => .cleared).bind fun _ => ?_) []
  refine straight_token.bind fun found => ?_
  dsimp only
  -- The byte is looked at after both branches.
  generalize hrest : (get >>= _ : Reading (Turn (List UInt8) Unit)) = rest
  have hevolves : rest.Straight .evolving := by
    subst hrest
    refine .get_bind fun s => ?_
    split
    · exact .fail rfl rfl
    · split
      · split
        · exact .pure _
        · exact .fail rfl rfl
      · exact .fail rfl rfl
    · exact (straight_publish _ _ _).bind fun _ => .pure _
    · exact .pure _
    · exact .fail rfl rfl
  split
  · exact straight_nothing.bind fun _ => hevolves
  · exact hevolves

theorem straight_elidedValue : elidedValue.Straight .evolving := by
  refine (straight_publish _ _ _).bind fun _ => ?_
  refine .of_evolves (.get_bind fun s => ?_) ⟨fun settings s => .get_bind ?_⟩
  · exact (Straight.ask _ rfl).bind fun _ => .throw rfl
  · have hpast : (past 1).Leaves settings s (fun _ s' => s' = s) (Broken settings s) :=
      .ask fun _ => rfl
    exact hpast.bind fun _ _ h => .throw (.kept (h ▸ .refl) rfl (h ▸ rfl))

theorem straight_endOfArray : endOfArray.Straight .evolving := by
  have hother : (do
      advance 1
      fail (.unexpectedCharacter .value (.char ']')) : Reading Unit).Straight .evolving :=
    (straight_advance 1).bind fun _ => .fail rfl rfl
  refine .of_evolves (.get_bind fun s => ?_) ⟨fun settings s => .get_bind ?_⟩
  · split
    · exact straight_closeContainer _
    · exact hother.free
  · split
    · rename_i hphase
      refine leaves_closeContainer .array fun h => ?_
      rcases h with h | h <;> simp [Phase.inArray, h] at hphase
    · exact hother.leaves settings s

theorem straight_requestedValue (request : Request) : (requestedValue request).Straight .evolving := by
  refine .repeating (fun _ => ?_) ()
  dsimp only
  refine straight_skipBlanks.bind fun b => ?_
  have hother : ((Turn.stop <$> unexpectedConsumed .value : Reading (Turn Unit Unit))).Straight .evolving :=
    (straight_unexpectedConsumed _).map _
  cases b with
  | none => exact straight_nothing.map _
  | some b =>
      dsimp only
      cases Lead.ofByte b with
      | quote mark =>
          exact ((straight_stringValue _ _).bind fun _ => straight_convertText _).map _
      | letterN => exact straight_requireNull.map _
      | special literal => exact (straight_specialValue _ _).map _
      | minus => exact (straight_negativeValue _ (straight_requestedNumber _)).map _
      | number => exact (straight_requestedNumber _).map _
      | boolean truth => exact (straight_requestedBoolean _ _).map _
      | opening c =>
          cases c with
          | array =>
              dsimp only
              split
              · exact ((straight_advance 1).bind fun _ =>
                  (straight_openContainer _ _).bind fun _ => straight_byteArray).map _
              · exact hother
          | object => exact hother
          | constructor => exact hother
      | slash => exact straight_comment_false.bind fun _ => .pure _
      | comma => exact straight_elidedValue.map _
      | closing c =>
          cases c with
          | array => exact straight_endOfArray.map _
          | object => exact hother
          | constructor => exact hother
      | undefined => exact hother
      | other => exact hother

theorem straight_requestedPart (request : Request) : (requestedPart request).Straight .evolving := by
  refine .get_bind fun s => ?_
  dsimp only
  split
  · exact straight_requestedValue _
  · split
    · exact (straight_epilogue false).bind fun _ => .pure _
    · exact .pure _
    · exact .fail rfl rfl

theorem straight_requested (request : Request) : (requested request).Straight .evolving := by
  have hnext : ∀ b : Bool,
      (if b then pure () else requestedPart request : Reading Unit).Straight .evolving := by
    rintro (_ | _)
    · exact straight_requestedPart request
    · exact .pure ()
  refine .of_evolves (.get_bind fun s => ?_) ⟨fun settings s => .get_bind ?_⟩
  · split
    · exact (straight_separator _).bind fun b => (hnext b).free
    · exact (straight_requestedPart request).free
  · split
    · rename_i hphase
      exact leaves_behind (fun b => (hnext b).evolves) hphase
    · exact (straight_requestedPart request).leaves settings s

end JsonPull.Reading
