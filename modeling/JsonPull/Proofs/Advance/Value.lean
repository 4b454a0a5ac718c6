import JsonPull.Proofs.Advance.Scanning
import JsonPull.Reader.Typed

/-! # Values in any form

A value is scanned in the same way in whatever form it is asked for. Behind its last byte the forms
differ only in what they publish, which decides nothing of how reading goes on. -/

namespace JsonPull

namespace State

variable {settings : Settings} {s s' : State}

/-- A whole value was read, and the phase is the one behind it. -/
def Complete (settings : Settings) (s : State) : Prop :=
  s.Alike (s.completeValue settings)

theorem Complete.publishScalar (h : s.Complete settings) (kind : Scalar) (slot : Slot) :
    s.Alike (s.publishScalar settings kind slot false) :=
  ⟨rfl, h.phase_eq, rfl⟩

theorem Complete.of_alike (h : s.Complete settings) (hs : s.Alike s') : s'.Complete settings :=
  (hs.symm.trans h).trans hs.completeValue

theorem complete_finished (settings : Settings) (s : State) :
    (s.completeValue settings).countElement.Complete settings := by
  refine ⟨rfl, ?_, rfl⟩
  cases hf : s.frames <;> simp [completeValue, countElement, hf]

end State

namespace Reading

open State

variable {α β γ : Type} {settings : Settings} {stream : List UInt8} {s s' : State} {pos : Nat}

/-! ## Readings that only publish -/

/-- Behind a whole value, a reading consumes nothing and changes nothing of how reading goes on,
whether it succeeds or fails. -/
structure Rests (x : Reading α) : Prop where
  lands : ∀ {settings stream s pos}, State.Complete settings s →
    x.Lands settings stream s pos fun _ s₁ pos₁ => pos₁ = pos ∧ s.Alike s₁

theorem Rests.gives {x : Reading α} (hx : x.Rests) (hs : s.Complete settings) :
    x.Gives settings stream s pos fun _ s₁ pos₁ => pos₁ = pos ∧ s.Alike s₁ :=
  ((hx.lands hs).mono fun _ _ _ h _ _ => h).gives

theorem Rests.bind {x : Reading α} {f : α → Reading β} (hx : x.Rests) (hf : ∀ a, (f a).Rests) :
    (x >>= f).Rests := by
  refine ⟨fun hs => (hx.lands hs).bind (fun _ _ _ h => h) ?_⟩
  rintro a s₁ pos₁ ⟨rfl, hs₁⟩
  refine ((hf a).lands (hs.of_alike hs₁)).mono ?_
  rintro b s₂ pos₂ ⟨rfl, hs₂⟩
  exact ⟨rfl, hs₁.trans hs₂⟩

theorem rests_pure (a : α) : (pure a : Reading α).Rests :=
  ⟨fun {_ _ s _} _ => Succeeds.lands ((succeeds_pure a).mpr ⟨rfl, .refl s⟩)⟩

theorem rests_fail (kind : ErrorKind) : (fail kind : Reading α).Rests :=
  ⟨fun {_ _ s _} _ => lands_fail kind fun _ _ => ⟨rfl, .refl s⟩⟩

theorem Rests.map {x : Reading α} (hx : x.Rests) (f : α → β) : (f <$> x).Rests := by
  rw [← bind_pure_comp]
  exact hx.bind fun a => rests_pure (f a)

theorem rests_textOf (span : Span) : (textOf span).Rests :=
  ⟨fun {_ _ s _} _ => Succeeds.lands ((succeeds_textOf span).mpr ⟨rfl, .refl s⟩)⟩

theorem rests_bytesOf (span : Span) : (bytesOf span).Rests :=
  ⟨fun {_ _ s _} _ => Succeeds.lands ((succeeds_bytesOf span).mpr ⟨rfl, .refl s⟩)⟩

theorem rests_hold (first last : Nat) : (hold first last).Rests :=
  ⟨fun {_ _ s _} _ => Succeeds.lands ((succeeds_hold first last).mpr ⟨rfl, .refl s⟩)⟩

theorem rests_cursor : cursor.Rests :=
  ⟨fun {_ _ s _} _ => Succeeds.lands (succeeds_cursor.mpr ⟨rfl, .refl s⟩)⟩

theorem rests_get : (get : Reading State).Rests :=
  ⟨fun {_ _ s _} _ => Succeeds.lands (succeeds_get.mpr ⟨rfl, .refl s⟩)⟩

theorem rests_read : (read : Reading Settings).Rests :=
  ⟨fun {_ _ s _} _ => Succeeds.lands (succeeds_read.mpr ⟨rfl, .refl s⟩)⟩

theorem rests_setQuote (quote : UInt8) :
    (modify fun s => { s with quote := some quote } : Reading Unit).Rests :=
  ⟨fun _ => Succeeds.lands ((succeeds_modify _).mpr ⟨rfl, ⟨rfl, rfl, rfl⟩⟩)⟩

theorem rests_publishScalar (kind : Scalar) (slot : Slot) :
    (update fun settings => State.publishScalar settings kind slot false).Rests :=
  ⟨fun hs => Succeeds.lands ((succeeds_update _).mpr ⟨rfl, hs.publishScalar kind slot⟩)⟩

theorem rests_failNumber (fault : NumberFault) : (failNumber fault : Reading α).Rests :=
  (rests_publishScalar _ _).bind fun _ => rests_fail _

theorem rests_bodyText (b : Body) : (bodyText b).Rests := by
  cases b with
  | held span => exact rests_textOf span
  | decoded text => exact rests_pure text

theorem rests_publishBytes (b : Body) : (publishBytes b).Rests := by
  refine (rests_bodyText b).bind fun text => ?_
  split
  · exact rests_publishScalar _ _
  · exact rests_fail _

theorem rests_publishText (dates : DateHandling) (b : Body) : (publishText dates b).Rests := by
  unfold publishText
  dsimp only
  split
  · exact rests_publishScalar _ _
  · refine ((rests_bodyText b).map _).bind fun date? => ?_
    split
    · exact rests_publishScalar _ _
    · exact rests_publishScalar _ _

theorem rests_currentText : currentText.Rests := by
  refine rests_get.bind fun s => ?_
  split
  · exact rests_textOf _
  · exact rests_pure _
  · exact rests_pure _

theorem rests_convertText (request : Request) : (convertText request).Rests := by
  unfold convertText
  split
  · exact rests_pure ()
  · refine rests_currentText.bind fun text => ?_
    split
    · exact rests_publishScalar _ _
    · split
      · exact rests_publishScalar _ _
      · exact rests_fail _

/-- What is done with a string behind its closing quote. -/
theorem rests_publishString (quote : UInt8) (request : Request) (b : Body) : (do
    modify fun s => { s with quote := some quote }
    if request = .bytes then publishBytes b
    else publishText (request.dates (← read)) b : Reading Unit).Rests := by
  refine (rests_setQuote quote).bind fun _ => ?_
  split
  · exact rests_publishBytes b
  · exact rests_read.bind fun settings => rests_publishText _ b

/-- What is done with a number behind its last byte: a scalar that was counted before is
published. -/
theorem rests_publishNumber (first : Nat) (request : Request) : (do
    let span ← hold first (← cursor)
    let spelling ← bytesOf span
    match Lexeme.convert (← read) request spelling with
    | .ok none => update fun settings => State.publishScalar settings .string (.held span) false
    | .ok (some value) =>
      update fun settings => State.publishScalar settings (Lexeme.kind value) (.owned value) false
    | .error fault => failNumber fault : Reading Unit).Rests := by
  refine rests_cursor.bind fun last => (rests_hold _ _).bind fun span => ?_
  refine (rests_bytesOf _).bind fun spelling => rests_read.bind fun settings => ?_
  split
  · exact rests_publishScalar _ _
  · exact rests_publishScalar _ _
  · exact rests_failNumber _

/-- What two readings of one value leave: states behind it from which reading goes on alike. -/
@[reducible] def Abreast (settings : Settings) (_ : α) (s₁ : State) (_ : β) (s₁' : State)
    (_ : Nat) : Prop :=
  s₁.Alike s₁' ∧ s₁'.Complete settings

/-- Nothing more than publishing comes behind the value on either side. -/
theorem Twin.of_rests {x : Reading α} {y : Reading β} (hs : s.Alike s') (h : s'.Complete settings)
    (hx : x.Rests) (hy : y.Rests) : x.Twin y settings stream s s' pos (Abreast settings) :=
  .of_gives (hx.gives (h.of_alike hs.symm)) (hy.gives h)
    fun _ _ _ _ hl hr => ⟨(hl.symm.trans hs).trans hr, h.of_alike hr⟩

/-- More publishing on one side makes no difference. -/
theorem Twin.rests {x : Reading α} {y : Reading β} {f : α → Reading γ}
    (h : x.Twin y settings stream s s' pos (Abreast settings)) (hf : ∀ a, (f a).Rests) :
    (x >>= f).Twin y settings stream s s' pos (Abreast settings) := by
  rw [← bind_pure y]
  refine h.bind fun a s₁ b s₁' pos₁ ⟨hs₁, hcomplete⟩ => ?_
  exact .of_rests hs₁ hcomplete (hf a) (rests_pure b)

/-! ## Strings and numbers -/

theorem twin_finishValue (hs : s.Alike s') :
    finishValue.Twin finishValue settings stream s s' pos (Abreast settings) :=
  twin_update ⟨hs.completeValue.countElement, complete_finished settings s'⟩

theorem twin_stringValue (quote : UInt8) (request request' : Request) (hs : s.Alike s') :
    (stringValue quote request).Twin (stringValue quote request') settings stream s s' pos
      (Abreast settings) := by
  refine (blind_quoted quote).next hs fun b s₁ s₁' pos₁ hs₁ => ?_
  refine (twin_finishValue hs₁).bind fun _ s₂ _ s₂' pos₂ ⟨hs₂, hcomplete⟩ => ?_
  exact .of_rests hs₂ hcomplete (rests_publishString quote request b)
    (rests_publishString quote request' b)

theorem twin_numberValue (request request' : Request) (hs : s.Alike s') :
    (numberValue request).Twin (numberValue request') settings stream s s' pos
      (Abreast settings) := by
  refine blind_settle.next hs fun _ s₁ s₁' pos₁ hs₁ => ?_
  refine blind_cursor.next hs₁ fun first s₂ s₂' pos₂ hs₂ => ?_
  refine blind_lexeme.next hs₂ fun _ s₃ s₃' pos₃ hs₃ => ?_
  refine (twin_finishValue hs₃).bind fun _ s₄ _ s₄' pos₄ ⟨hs₄, hcomplete⟩ => ?_
  exact .of_rests hs₄ hcomplete (rests_publishNumber first request)
    (rests_publishNumber first request')

theorem twin_requestedNumber (request : Request) (hs : s.Alike s') :
    (requestedNumber request).Twin (numberValue .plain) settings stream s s' pos
      (Abreast settings) := by
  have hunexpected : (unexpectedConsumed .value : Reading Unit).Twin (numberValue .plain) settings
      stream s s' pos (Abreast settings) :=
    .of_left (gives_unexpectedConsumed _)
  unfold requestedNumber
  split
  · exact hunexpected
  · exact hunexpected
  · exact hunexpected
  · refine (twin_numberValue .plain .plain hs).rests fun _ => rests_get.bind fun _ => ?_
    exact rests_publishScalar _ _
  · exact twin_numberValue request .plain hs

/-! ## Tokens -/

/-- A reading that ends at a token other than a comment. -/
structure Tells (x : Reading α) : Prop where
  gives : ∀ {settings stream s pos},
    x.Gives settings stream s pos fun _ s₁ _ => s₁.token ≠ .comment

theorem Tells.last {x : Reading α} {f : α → Reading β} (hf : ∀ a, (f a).Tells) : (x >>= f).Tells :=
  ⟨(gives_true x).bind fun a _ _ _ => (hf a).gives⟩

theorem tells_fail (kind : ErrorKind) : (fail kind : Reading α).Tells :=
  ⟨gives_fail kind⟩

theorem publishScalar_ne_comment (kind : Scalar) (slot : Slot) (counted : Bool) (s : State) :
    (s.publishScalar settings kind slot counted).token ≠ .comment := by
  cases counted with
  | false => nofun
  | true =>
      rw [token_publishScalar]
      nofun

theorem tells_publishScalar (kind : Scalar) (slot : Slot) (counted : Bool) :
    (update fun settings => State.publishScalar settings kind slot counted).Tells :=
  ⟨(gives_update _).mpr (publishScalar_ne_comment kind slot counted _)⟩

theorem tells_publishBytes (b : Body) : (publishBytes b).Tells := by
  refine .last fun text => ?_
  split
  · exact tells_publishScalar _ _ _
  · exact tells_fail _

theorem tells_publishText (dates : DateHandling) (b : Body) : (publishText dates b).Tells := by
  unfold publishText
  dsimp only
  split
  · exact tells_publishScalar _ _ _
  · refine .last fun date? => ?_
    split <;> exact tells_publishScalar _ _ _

theorem tells_stringValue (quote : UInt8) (request : Request) :
    (stringValue quote request).Tells := by
  refine .last fun b => .last fun _ => .last fun _ => ?_
  split
  · exact tells_publishBytes b
  · exact .last fun settings => tells_publishText _ b

theorem tells_numberValue (request : Request) : (numberValue request).Tells := by
  refine .last fun _ => .last fun _ => .last fun _ => .last fun _ => .last fun _ => ?_
  refine .last fun span => .last fun spelling => .last fun settings => ?_
  split
  · exact tells_publishScalar _ _ _
  · exact tells_publishScalar _ _ _
  · exact .last fun _ => tells_fail _

/-- What two readings leave: states from which reading goes on alike, behind a token that is no
comment. -/
@[reducible] def Level (_ : α) (s₁ : State) (_ : β) (s₁' : State) (_ : Nat) : Prop :=
  s₁.Alike s₁' ∧ s₁'.token ≠ .comment

theorem Twin.level {x : Reading α} {y : Reading β}
    (h : x.Twin y settings stream s s' pos (Abreast settings)) (hy : y.Tells) :
    x.Twin y settings stream s s' pos Level := by
  refine ⟨fun a s₁ pos₁ b s₁' pos₁' hxe hye => ?_⟩
  obtain ⟨hpos, halike, -⟩ := h.run _ _ _ _ _ _ hxe hye
  exact ⟨hpos, halike, hy.gives.ends hye⟩

/-! ## Words -/

theorem twin_publishScalar (kind kind' : Scalar) (slot slot' : Slot) (counted : Bool)
    (hs : s.Alike s') :
    (update fun settings => State.publishScalar settings kind slot counted).Twin
      (update fun settings => State.publishScalar settings kind' slot' counted) settings stream
      s s' pos Level :=
  twin_update ⟨hs.publishScalar kind kind' slot slot' counted,
    publishScalar_ne_comment kind' slot' counted s'⟩

theorem twin_requestedBoolean (truth : Bool) (request : Request) (hs : s.Alike s') :
    (requestedBoolean truth request).Twin (booleanValue truth) settings stream s s' pos Level := by
  have hword : ∀ kind slot, (do
      if ← separateWord (if truth then .true else .false) then
        update fun settings => State.publishScalar settings kind slot true
      else unexpected .value : Reading Unit).Twin (booleanValue truth) settings stream s s' pos
        Level := by
    intro kind slot
    unfold booleanValue requireWord
    rw [bind_assoc]
    refine (blind_separateWord _).next hs fun found s₁ s₁' pos₁ hs₁ => ?_
    cases found with
    | false => exact .of_left (gives_unexpected _)
    | true => exact twin_publishScalar _ _ _ _ true hs₁
  cases request with
  | boolean => exact hword .boolean _
  | string => exact hword .string _
  | _ => exact .of_left (gives_unexpectedConsumed _)

theorem twin_requireNull (hs : s.Alike s') :
    requireNull.Twin nullOrConstructor settings stream s s' pos Level := by
  refine (blind_byte? 1).next hs fun b s₁ s₁' pos₁ hs₁ => ?_
  split
  · exact .of_left ((gives_true _).bind fun _ _ _ _ => gives_fail _)
  · exact (blind_requireWord .null).next hs₁ fun _ s₂ s₂' pos₂ hs₂ =>
      twin_publishScalar _ _ _ _ true hs₂
  · exact .of_left ((gives_true _).bind fun _ _ _ _ => (gives_true _).bind fun _ _ _ _ =>
      gives_fail _)

theorem twin_specialValue (literal : Literal) (request : Request) (hs : s.Alike s') :
    (specialValue literal request).Twin (specialValue literal .plain) settings stream s s' pos
      Level := by
  refine (blind_requireWord literal).next hs fun _ s₁ s₁' pos₁ hs₁ => twin_read_bind ?_
  have hplain : (Request.plain == .plain || Request.plain == .double) = true := rfl
  have hstring : (Request.plain == .string) = false := rfl
  simp only [hplain, hstring, Bool.true_and, Bool.false_eq_true, if_false]
  split
  · split
    · exact twin_publishScalar _ _ _ _ true hs₁
    · exact .of_right (gives_fail _)
  · split
    · split
      · exact twin_publishScalar _ _ _ _ true hs₁
      · exact .of_right (gives_fail _)
    · exact .of_left (gives_fail _)

theorem twin_negativeValue (request : Request) (hs : s.Alike s') :
    (negativeValue request (requestedNumber request)).Twin
      (negativeValue .plain (numberValue .plain)) settings stream s s' pos Level := by
  refine (blind_byte? 1).next hs fun b s₁ s₁' pos₁ hs₁ => ?_
  split
  · exact twin_specialValue _ request hs₁
  · exact (twin_requestedNumber request hs₁).level (tells_numberValue .plain)

/-! ## Containers -/

theorem twin_closeContainer (c : Container) (hs : s.Alike s') :
    (closeContainer c).Twin (closeContainer c) settings stream s s' pos Level := by
  refine (blind_advance 1).next hs fun _ s₁ s₁' pos₁ hs₁ => twin_get_bind ?_
  rw [hs₁.innermost?_eq]
  refine twin_modify_bind ?_
  split
  · exact twin_update ⟨(hs₁.publishClosing c).completeValue, nofun⟩
  · exact .of_left (gives_fail _)

theorem twin_endOfArray (hs : s.Alike s') :
    endOfArray.Twin (closeContainer .array) settings stream s s' pos Level := by
  refine twin_get_left ?_
  split
  · exact twin_closeContainer .array hs
  · exact .of_left ((gives_true _).bind fun _ _ _ _ => gives_fail _)

end Reading

end JsonPull
