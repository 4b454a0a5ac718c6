import JsonPull.Proofs.Tokenizer.Coherence

/-! # Elements are counted before they are shown

A container that has just been opened has the index -1, and the path leaves it out. Its first element
is counted before the phase changes, and so no path shows that index. There is one way out: a number
with a stray character behind it is given up before it is counted. -/

namespace JsonPull

/-! ## Frames -/

namespace Frame

variable {f : Frame}

/-- The index of the current element; the parts of an object have none. -/
def index? : Frame → Option Int
  | object _ => none
  | array i | constructor i => some i

/-- An element was counted, if elements are counted at all. -/
def Counted (f : Frame) : Prop := ∀ i, f.index? = some i → 0 ≤ i

/-- The next element can be counted. -/
def Ready (f : Frame) : Prop := ∀ i, f.index? = some i → -1 ≤ i

theorem Counted.ready (h : f.Counted) : f.Ready := by
  intro i hi
  have hcounted := h i hi
  omega

theorem counted_object (name : Option String) : (object name).Counted := nofun

theorem ready_fresh (c : Container) : (fresh c).Ready := by
  intro i hi
  cases c with
  | object => cases hi
  | array | constructor =>
      cases hi
      exact le_rfl

theorem Ready.advance (h : f.Ready) : f.advance.Counted := by
  intro i hi
  cases f with
  | object => cases hi
  | array j | constructor j =>
      cases hi
      have hready := h j rfl
      omega

end Frame

/-- A number with a character behind it that cannot stand there. -/
def ReadError.IsStray (e : ReadError) : Prop :=
  ∃ found, e.kind = .ofNumberFault (.strayCharacter found)

/-! ## States -/

namespace State

variable {settings : Settings} {s s' : State} {stale? : Option (List Frame)} {e : ReadError}

/-- The containers that the path shows, the innermost one first. -/
def visible (s : State) : List Frame :=
  match s.phase with
  | .opened _ => s.frames.tail
  | _ => s.frames

theorem path_visible (s : State) : s.path = Frame.path s.visible.reverse := by
  unfold path visible
  cases s.phase <;> rfl

/-- In every open container an element was counted. -/
def AllCounted (s : State) : Prop := ∀ f ∈ s.frames, f.Counted

/-- Only in the innermost container no element may have been counted yet. -/
structure Orderly (s : State) : Prop where
  innermost : ∀ f ∈ s.frames, f.Ready
  around : ∀ f ∈ s.frames.tail, f.Counted

/-- The path shows counted elements only, or the containers are still those that were left behind
when a number was given up. -/
structure Numbered (stale? : Option (List Frame)) (s : State) : Prop where
  orderly : s.Orderly
  shown : (∀ f ∈ s.visible, f.Counted) ∨ stale? = some s.frames

/-- The same, and a container that was closed was the last to be entered. -/
structure Placed (stale? : Option (List Frame)) (s : State) : Prop where
  numbered : s.Numbered stale?
  counted : s.token.isEnd = true → s.AllCounted

/-- What a failure leaves. -/
def Harmed (stale? : Option (List Frame)) (e : ReadError) (s : State) : Prop :=
  s.Numbered stale? ∨ e.IsStray ∧ s.Orderly

theorem AllCounted.orderly (h : s.AllCounted) : s.Orderly :=
  ⟨fun f hf => (h f hf).ready, fun f hf => h f (List.mem_of_mem_tail hf)⟩

theorem AllCounted.numbered (h : s.AllCounted) : s.Numbered stale? := by
  refine ⟨h.orderly, .inl fun f hf => ?_⟩
  unfold visible at hf
  split at hf
  · exact h f (List.mem_of_mem_tail hf)
  · exact h f hf

theorem AllCounted.placed (h : s.AllCounted) : s.Placed stale? := ⟨h.numbered, fun _ => h⟩

theorem AllCounted.of_frames (h : s.AllCounted) (hframes : s'.frames = s.frames) : s'.AllCounted := by
  unfold AllCounted
  rwa [hframes]

theorem Numbered.of_same (h : s.Numbered stale?) (hphase : s'.phase = s.phase)
    (hframes : s'.frames = s.frames) : s'.Numbered stale? := by
  have hvisible : s'.visible = s.visible := by
    unfold visible
    rw [hphase, hframes]
  refine ⟨⟨?_, ?_⟩, ?_⟩
  · rw [hframes]
    exact h.orderly.innermost
  · rw [hframes]
    exact h.orderly.around
  · rw [hvisible, hframes]
    exact h.shown

theorem Numbered.lined (h : s.Numbered stale?) (hs : s.Lined s') : s'.Numbered stale? :=
  h.of_same hs.phase_eq (by rw [hs])

theorem AllCounted.lined (h : s.AllCounted) (hs : s.Lined s') : s'.AllCounted :=
  h.of_frames (by rw [hs])

/-- Behind a value, the phase may change to any other that shows the innermost container. -/
theorem Numbered.of_postValue (h : s.Numbered stale?) (hphase : s.phase = .postValue)
    (hframes : s'.frames = s.frames) (hopened : ∀ c, s'.phase ≠ .opened c) :
    s'.Numbered stale? := by
  have hbefore : s.visible = s.frames := by
    unfold visible
    rw [hphase]
  have hafter : s'.visible = s'.frames := by
    unfold visible
    split
    · rename_i c hc
      exact absurd hc (hopened c)
    · rfl
  refine ⟨⟨?_, ?_⟩, ?_⟩
  · rw [hframes]
    exact h.orderly.innermost
  · rw [hframes]
    exact h.orderly.around
  · rw [hafter, hframes]
    exact hbefore ▸ h.shown

/-! ### Changes -/

theorem Orderly.countElement (h : s.Orderly) : s.countElement.AllCounted := by
  unfold AllCounted State.countElement
  split
  · rename_i hnil
    simp [hnil]
  · rename_i f rest hcons
    have hinner := h.innermost f (by simp [hcons])
    have haround := h.around
    simp only [hcons, List.tail_cons] at haround
    simp only [List.mem_cons, forall_eq_or_imp]
    exact ⟨hinner.advance, haround⟩

theorem AllCounted.publishScalar (h : s.AllCounted) (kind : Scalar) (slot : Slot) (counted : Bool) :
    (s.publishScalar settings kind slot counted).AllCounted := by
  have hkept : ({ s with token := .scalar kind, slot }.completeValue settings).AllCounted := h
  unfold State.publishScalar
  cases counted with
  | false => exact hkept
  | true => exact hkept.orderly.countElement

/-- A scalar that is counted when it is published. -/
theorem Orderly.publishScalar (h : s.Orderly) (kind : Scalar) (slot : Slot) :
    (s.publishScalar settings kind slot true).AllCounted := by
  have hkept : ({ s with token := .scalar kind, slot }.completeValue settings).Orderly := ⟨h.1, h.2⟩
  exact hkept.countElement

theorem Orderly.publishOpening (h : s.Orderly) (c : Container) (slot : Slot) :
    (s.publishOpening c slot).Numbered stale? := by
  have hcounted := h.countElement
  refine ⟨⟨fun f hf => ?_, hcounted⟩, .inl hcounted⟩
  rcases List.mem_cons.mp hf with rfl | hf
  · exact Frame.ready_fresh c
  · exact (hcounted f hf).ready

theorem Orderly.publishClosing (h : s.Orderly) (c : Container) : (s.publishClosing c).AllCounted :=
  h.around

theorem Orderly.publishName (h : s.Orderly) (hinner : s.innermost? = some .object)
    (name : String) : (s.publishName name).AllCounted := by
  unfold AllCounted State.publishName
  have haround := h.around
  cases hframes : s.frames with
  | nil => simp
  | cons f rest =>
      have hkind : f.kind = .object := by simpa [innermost?, hframes] using hinner
      obtain ⟨old, rfl⟩ : ∃ old, f = .object old := by
        cases f <;> first | exact ⟨_, rfl⟩ | cases hkind
      simp only [hframes, List.tail_cons] at haround
      simp only [List.mem_cons, forall_eq_or_imp]
      exact ⟨Frame.counted_object _, haround⟩

end State

open State

namespace Reading

variable {α β : Type} {settings : Settings} {s s₁ : State} {stale? : Option (List Frame)}
  {ok : α → State → Prop}

/-! ## Values -/

/-- A reading that keeps all elements counted. -/
structure Stays (x : Reading α) : Prop where
  leaves : ∀ settings s, s.AllCounted →
    x.Leaves settings s (fun _ s' => s'.AllCounted) fun _ s' => s'.AllCounted

/-- What a reading leaves where the elements that are shown were counted. -/
structure Numbers (x : Reading α) (post : Option (List Frame) → State → Prop) : Prop where
  leaves : ∀ stale? settings s, s.Numbered stale? →
    x.Leaves settings s (fun _ s' => post stale? s') (Harmed stale?)

/-- A reading that counts an element. -/
abbrev Tallies (x : Reading α) : Prop := x.Numbers fun _ s' => s'.AllCounted

namespace Stays

theorem calm {x : Reading α} (hx : x.Calm) : x.Stays :=
  ⟨fun settings s h => (hx.leaves settings s).mono (fun _ _ hs => h.lined hs)
    fun _ _ hs => h.lined hs.1⟩

theorem bind {x : Reading β} {f : β → Reading α} (hx : x.Stays) (hf : ∀ b, (f b).Stays) :
    (x >>= f).Stays :=
  ⟨fun settings s h => (hx.leaves settings s h).bind fun b s' h' => (hf b).leaves settings s' h'⟩

theorem read_bind {f : Settings → Reading α} (h : ∀ settings, (f settings).Stays) :
    (read >>= f).Stays :=
  ⟨fun settings s hs => .read_bind ((h settings).leaves settings s hs)⟩

theorem get_bind {f : State → Reading α} (h : ∀ s, (f s).Stays) : (get >>= f).Stays :=
  ⟨fun settings s hs => .get_bind ((h s).leaves settings s hs)⟩

theorem pure (a : α) : (Pure.pure a : Reading α).Stays := ⟨fun _ _ h => .pure h⟩

theorem fail (kind : ErrorKind) : (Reading.fail kind : Reading α).Stays :=
  ⟨fun _ _ h => .fail fun _ => h⟩

theorem throw (e : ReadError) : (MonadExcept.throw e : Reading α).Stays :=
  ⟨fun _ _ h => .throw h⟩

theorem modify {f : State → State} (h : ∀ s, (f s).frames = s.frames) :
    (MonadState.modifyGet fun s => ((), f s) : Reading Unit).Stays :=
  ⟨fun _ s hs => .modify (hs.of_frames (h s))⟩

theorem publish (kind : Scalar) (slot : Slot) (counted : Bool) :
    (update fun settings => publishScalar settings kind slot counted).Stays :=
  ⟨fun _ _ h => .update (h.publishScalar kind slot counted)⟩

end Stays

/-- A calm reading leaves what it found, apart from the lines. -/
theorem Calm.numbered {x : Reading α} (hx : x.Calm) (h : s.Numbered stale?) :
    x.Leaves settings s (fun _ s' => s.Lined s') (Harmed stale?) :=
  (hx.leaves settings s).mono (fun _ _ hs => hs) fun _ _ hs => .inl (h.lined hs.1)

namespace Numbers

variable {post post' : Option (List Frame) → State → Prop}

theorem mono {x : Reading α} (h : x.Numbers post) (hpost : ∀ stale? s, post stale? s → post' stale? s) :
    x.Numbers post' :=
  ⟨fun stale? settings s hs => (h.leaves stale? settings s hs).mono
    (fun _ _ h => hpost _ _ h) fun _ _ h => h⟩

theorem next {x : Reading β} {f : β → Reading α}
    (hx : x.Numbers fun stale? s' => s'.Numbered stale?) (hf : ∀ b, (f b).Numbers post) :
    (x >>= f).Numbers post :=
  ⟨fun stale? settings s h => (hx.leaves stale? settings s h).bind fun b s' h' =>
    (hf b).leaves stale? settings s' h'⟩

/-- A calm reading comes first. -/
theorem calm {x : Reading β} {f : β → Reading α} (hx : x.Calm) (hf : ∀ b, (f b).Numbers post) :
    (x >>= f).Numbers post :=
  next ⟨fun _ _ _ h => (hx.numbered h).mono (fun _ _ hs => h.lined hs) fun _ _ h => h⟩ hf

/-- What comes behind an element that was counted. -/
theorem stay {x : Reading β} {f : β → Reading α} (hx : x.Tallies) (hf : ∀ b, (f b).Stays) :
    (x >>= f).Tallies :=
  ⟨fun stale? settings s h => (hx.leaves stale? settings s h).bind fun b s' h' =>
    ((hf b).leaves settings s' h').mono (fun _ _ h => h) fun _ _ h => .inl h.numbered⟩

theorem read_bind {f : Settings → Reading α} (h : ∀ settings, (f settings).Numbers post) :
    (read >>= f).Numbers post :=
  ⟨fun stale? settings s hs => .read_bind ((h settings).leaves stale? settings s hs)⟩

theorem fail (kind : ErrorKind) : (Reading.fail kind : Reading α).Numbers post :=
  ⟨fun _ _ _ h => .fail fun _ => .inl h⟩

theorem publish (kind : Scalar) (slot : Slot) :
    (update fun settings => publishScalar settings kind slot true).Tallies :=
  ⟨fun _ _ _ h => .update (h.orderly.publishScalar kind slot)⟩

end Numbers

section

variable {post : Option (List Frame) → State → Prop}

theorem numbers_unexpected (site : CharSite) : (unexpected site : Reading α).Numbers post :=
  .calm straight_foundAtCursor.calm fun _ => .fail _

theorem numbers_unexpectedConsumed (site : CharSite) :
    (unexpectedConsumed site : Reading α).Numbers post :=
  .calm straight_foundAtCursor.calm fun _ => .calm (straight_advance _).calm fun _ => .fail _

end

theorem tallies_finishValue : finishValue.Tallies :=
  ⟨fun _ _ _ h => .update (State.Orderly.countElement ⟨h.orderly.1, h.orderly.2⟩)⟩

theorem stays_failNumber (fault : NumberFault) : (failNumber fault : Reading α).Stays :=
  .bind (.publish _ _ _) fun _ => .fail _

/-- Where a number is given up because of a stray character, nothing is counted. -/
theorem leaves_failNumber (found : Found) (h : s.Numbered stale?) :
    (failNumber (.strayCharacter found) : Reading α).Leaves settings s ok (Harmed stale?) := by
  have hpublish : (update fun settings => publishScalar settings .undefined .empty false).Leaves
      settings s (fun _ s' => s'.Orderly) (Harmed stale?) :=
    .update ⟨h.orderly.1, h.orderly.2⟩
  exact hpublish.bind fun _ s' hs' => .fail fun _ => .inr ⟨⟨found, rfl⟩, hs'⟩

theorem numbers_lexeme : lexeme.Numbers fun stale? s' => s'.Numbered stale? := by
  refine ⟨fun stale? settings s h => ?_⟩
  refine (straight_lexemeBytes.calm.numbered h).bind fun b s₁ hs₁ => ?_
  have h₁ := h.lined hs₁
  split
  · exact .pure h₁
  · split
    · exact .pure h₁
    · refine (straight_blankLength?.calm.numbered h₁).bind fun length s₂ hs₂ => ?_
      have h₂ := h₁.lined hs₂
      split
      · exact .pure h₂
      · exact (straight_foundAtCursor.calm.numbered h₂).bind fun found s₃ hs₃ =>
          leaves_failNumber _ (h₂.lined hs₃)

theorem tallies_numberValue (request : Request) : (numberValue request).Tallies := by
  refine .calm (Straight.ask .settle rfl).calm fun _ => .calm straight_cursor.calm fun first => ?_
  refine .next numbers_lexeme fun _ => tallies_finishValue.stay fun _ => ?_
  refine .bind (.calm straight_cursor.calm) fun last => ?_
  refine .bind (.calm (straight_hold _ _).calm) fun span => ?_
  refine .bind (.calm (straight_bytesOf span).calm) fun spelling => .read_bind fun settings => ?_
  split
  · exact .publish _ _ _
  · exact .publish _ _ _
  · exact stays_failNumber _

theorem tallies_specialValue (literal : Literal) (request : Request) :
    (specialValue literal request).Tallies := by
  refine .calm (straight_requireWord literal).calm fun _ => .read_bind fun settings => ?_
  dsimp only
  split
  · exact .publish _ _
  · split
    · exact .publish _ _
    · exact .fail _

theorem tallies_negativeValue (request : Request) {number : Reading Unit} (h : number.Tallies) :
    (negativeValue request number).Tallies := by
  refine .calm (Straight.byte? 1).calm fun b => ?_
  split
  · exact tallies_specialValue _ _
  · exact h

theorem tallies_word (literal : Literal) (kind : Scalar) (slot : Slot) :
    (do
      requireWord literal
      update fun settings => publishScalar settings kind slot true : Reading Unit).Tallies :=
  .calm (straight_requireWord literal).calm fun _ => .publish _ _

theorem tallies_stringValue (quote : UInt8) (request : Request) :
    (stringValue quote request).Tallies := by
  have hbytes : ∀ b, (publishBytes b).Stays := by
    intro b
    refine .bind (.calm (straight_bodyText b).calm) fun text => ?_
    split
    · exact .publish _ _ _
    · exact .fail _
  have htext : ∀ dates b, (publishText dates b).Stays := by
    intro dates b
    unfold publishText
    dsimp only
    split
    · exact .publish _ _ _
    · refine .bind (.calm ((straight_bodyText b).map _).calm) fun date? => ?_
      split
      · exact .publish _ _ _
      · exact .publish _ _ _
  refine .calm (straight_quoted quote).calm fun b => tallies_finishValue.stay fun _ => ?_
  refine .bind (.modify fun _ => rfl) fun _ => ?_
  split
  · exact hbytes b
  · exact .read_bind fun settings => htext _ b

theorem tallies_requestedBoolean (truth : Bool) (request : Request) :
    (requestedBoolean truth request).Tallies := by
  have hword : ∀ (literal : Literal) (kind : Scalar) (v : Value), (do
      if ← separateWord literal then
        update fun settings => publishScalar settings kind (.owned v) true
      else unexpected .value : Reading Unit).Tallies := by
    intro literal kind v
    refine .calm (straight_separateWord literal).calm fun matched => ?_
    split
    · exact .publish _ _
    · exact numbers_unexpected _
  cases request with
  | boolean => exact hword _ _ _
  | string => exact hword _ _ _
  | _ => exact numbers_unexpectedConsumed _

theorem tallies_requestedNumber (request : Request) : (requestedNumber request).Tallies := by
  unfold requestedNumber
  split
  · exact numbers_unexpectedConsumed _
  · exact numbers_unexpectedConsumed _
  · exact numbers_unexpectedConsumed _
  · exact (tallies_numberValue _).stay fun _ => .get_bind fun _ => .publish _ _ _
  · exact tallies_numberValue _

theorem tallies_requireNull : requireNull.Tallies := by
  refine .calm (Straight.byte? 1).calm fun b => ?_
  split
  · exact .calm (straight_advance 1).calm fun _ => .fail _
  · exact tallies_word _ _ _
  · refine .calm (straight_charAt? 1).calm fun r => ?_
    exact .calm (straight_advance _).calm fun _ => .fail _

theorem stays_convertText (request : Request) : (convertText request).Stays := by
  unfold convertText
  split
  · exact .pure _
  · refine .bind (.calm straight_currentText.calm) fun text => ?_
    split
    · exact .publish _ _ _
    · split
      · exact .publish _ _ _
      · exact .fail _

theorem tallies_elidedValue : elidedValue.Tallies :=
  (Numbers.publish _ _).stay fun _ => .get_bind fun _ =>
    .bind (.calm (Straight.ask (.past 1) rfl).calm) fun _ => .throw _

/-! ## Comments and containers -/

theorem numbers_comment (surface : Bool) :
    (comment surface).Numbers fun stale? s' => s'.Numbered stale? ∧
      (surface = true → s'.token = .comment) := by
  have hpublish : ∀ first last : Nat, (do
      let span : Span := { first, last }
      let trimmed := trimSpan span (← bytesOf span)
      modify (publishComment (.held (← hold trimmed.first trimmed.last))) :
        Reading Unit).Numbers fun stale? s' => s'.Numbered stale? ∧
          (true = true → s'.token = .comment) := by
    intro first last
    refine .calm (straight_bytesOf _).calm fun bytes => .calm (straight_hold _ _).calm fun span => ?_
    exact ⟨fun _ _ _ h => .modify ⟨h.of_same rfl rfl, fun _ => rfl⟩⟩
  have hdone : ∀ last : Nat, (pure () : Reading Unit).Numbers fun stale? s' =>
      s'.Numbered stale? ∧ (false = true → s'.token = .comment) :=
    fun _ => ⟨fun _ _ _ h => .pure ⟨h, nofun⟩⟩
  refine .calm (straight_advance 1).calm fun _ => .calm (Straight.byte? 0).calm fun mark => ?_
  split
  · exact .fail _
  · split
    · exact numbers_unexpected _
    · refine .calm (straight_advance 1).calm fun _ => .calm straight_cursor.calm fun first => ?_
      dsimp only
      cases surface with
      | false =>
          split
          · exact .calm straight_lineCommentBody.calm hdone
          · exact .calm straight_blockCommentBody.calm hdone
      | true =>
          split
          · exact .calm straight_lineCommentBody.calm (hpublish first)
          · exact .calm straight_blockCommentBody.calm (hpublish first)

theorem numbers_openContainer (c : Container) (slot : Slot) :
    (openContainer c slot).Numbers fun stale? s' => s'.Placed stale? ∧ s'.Bound := by
  refine ⟨fun stale? settings s h => ?_⟩
  have hopening : (modify (publishOpening c slot) : Reading Unit).Leaves settings s
      (fun _ s' => s'.Placed stale? ∧ s'.Bound) (Harmed stale?) :=
    .modify ⟨⟨h.orderly.publishOpening c slot, nofun⟩, (coherent_publishOpening c slot).bound⟩
  refine hopening.bind fun _ s₁ h₁ => .read_bind ?_
  split
  · refine .get_bind ?_
    split
    · exact .fail fun _ => .inl h₁.1.numbered
    · exact .pure h₁
  · exact .pure h₁

/-- The containers around the one that ends are counted, whether it was the innermost one or not. -/
theorem tallies_closeContainer (c : Container) : (closeContainer c).Tallies := by
  have hrest : ∀ innermost? : Option Container, (do
      modify (publishClosing c)
      if innermost? = some c then update completeValue
      else fail (.mismatchedClose (.closing c) innermost?) : Reading Unit).Tallies := by
    intro innermost?
    have hclosing : (modify (publishClosing c) : Reading Unit).Tallies :=
      ⟨fun _ _ _ h => .modify (h.orderly.publishClosing c)⟩
    refine hclosing.stay fun _ => ?_
    split
    · exact ⟨fun _ _ h => .update h⟩
    · exact .fail _
  refine .calm (straight_advance 1).calm fun _ => ?_
  exact ⟨fun stale? settings s h => .get_bind ((hrest s.innermost?).leaves stale? settings s h)⟩

theorem numbers_constructorStart :
    constructorStart.Numbers fun stale? s' => s'.Placed stale? := by
  refine .calm (straight_requireWord _).calm fun _ => .calm straight_skipBlanks.calm fun _ => ?_
  refine .calm straight_cursor.calm fun first => .calm straight_constructorName.calm fun last => ?_
  refine .calm (straight_bytesOf _).calm fun name => .calm straight_skipBlanks.calm fun mark => ?_
  split
  · exact .calm (straight_advance 1).calm fun _ =>
      (numbers_openContainer _ _).mono fun _ _ h => h.1
  · exact numbers_unexpected _

theorem numbers_nullOrConstructor :
    nullOrConstructor.Numbers fun stale? s' => s'.Placed stale? := by
  refine .calm (Straight.byte? 1).calm fun b => ?_
  split
  · exact .calm (straight_advance 1).calm fun _ => .fail _
  · exact (tallies_word _ _ _).mono fun _ _ h => h.placed
  · exact numbers_constructorStart
  · exact .fail _

theorem tallies_otherValue : otherValue.Tallies := by
  refine .calm (straight_charAt? 0).calm fun r => ?_
  split
  · split
    · exact tallies_numberValue _
    · exact numbers_unexpected _
  · exact numbers_unexpected _

/-! ## Parts -/

section Turns

variable {β : Type} {ok : β → State → Prop}

/-- A part is repeated turns from one that only counted lines to the next. -/
theorem numbered_turns {turn : Unit → Reading (Turn Unit β)} (hs : s.Numbered stale?)
    (h : ∀ s₁, s.Lined s₁ → (turn ()).Leaves settings s₁ (Leaves.Turned (fun _ s' => s.Lined s') ok)
      (Harmed stale?)) :
    (repeating turn ()).Leaves settings s ok (Harmed stale?) :=
  .repeating (fun _ s' => s.Lined s') (fun _ s₁ h₁ => h s₁ h₁)
    (fun _ _ h₁ _ => .fail fun _ => .inl (hs.lined h₁)) (.refl s)

theorem numbered_unexpected (site : CharSite) (hs : s₁.Numbered stale?) :
    (unexpected site : Reading β).Leaves settings s₁ ok (Harmed stale?) :=
  (straight_foundAtCursor.calm.numbered hs).bind fun _ _ h => .fail fun _ => .inl (hs.lined h)

variable {ok : Bool → State → Prop}

theorem numbered_found {token : Reading Unit} (hs : s₁.Numbered stale?)
    (h : token.Numbers fun stale? s' => s'.Placed stale?)
    (hok : ∀ s', s'.Placed stale? → ok true s') :
    (found token : Reading (Turn Unit Bool)).Leaves settings s₁
      (Leaves.Turned (fun _ s' => s.Lined s') ok) (Harmed stale?) :=
  (h.leaves stale? settings s₁ hs).bind fun _ s' hs' => .pure (hok s' hs')

theorem numbered_passComment (surface : Bool) (hs : s.Numbered stale?) (h₁ : s.Lined s₁)
    (hok : ∀ s', s'.Placed stale? → ok true s') :
    (passComment surface).Leaves settings s₁ (Leaves.Turned (fun _ s' => s.Lined s') ok)
      (Harmed stale?) := by
  cases surface with
  | false =>
      refine (straight_comment_false.calm.numbered (hs.lined h₁)).bind fun _ s₂ h₂ => ?_
      exact .pure (h₁.trans h₂)
  | true =>
      have hcomment := (numbers_comment true).leaves stale? settings s₁ (hs.lined h₁)
      refine hcomment.bind fun _ s₂ h₂ => .pure (hok s₂ ⟨h₂.1, ?_⟩)
      rw [h₂.2 rfl]
      nofun

theorem numbered_nothing (hs : s₁.Numbered stale?)
    (hok : ∀ s', s'.Placed stale? → ok false s') :
    (do
      nothing
      return .stop false : Reading (Turn Unit Bool)).Leaves settings s₁
        (Leaves.Turned (fun _ s' => s.Lined s') ok) (Harmed stale?) := by
  have hnothing : nothing.Leaves settings s₁ (fun _ s' => s'.Placed stale?) (Harmed stale?) :=
    .modify ⟨hs.of_same rfl rfl, nofun⟩
  exact hnothing.bind fun _ s' hs' => .pure (hok s' hs')

end Turns

theorem leaves_value_placed (hs : s.Numbered stale?) :
    value.Leaves settings s (fun _ s' => s'.Placed stale?) (Harmed stale?) := by
  refine numbered_turns hs fun s₁ h₁ => ?_
  refine (straight_skipBlanks.calm.numbered (hs.lined h₁)).bind fun b s₂ h₂ => ?_
  have hs₂ := (hs.lined h₁).lined h₂
  have hcounts : ∀ {token : Reading Unit}, token.Tallies →
      (found token : Reading (Turn Unit Bool)).Leaves settings s₂ (Leaves.Turned (fun _ s' => s.Lined s')
        fun _ s' => s'.Placed stale?) (Harmed stale?) :=
    fun h => numbered_found hs₂ (h.mono fun _ _ h => h.placed) fun _ h => h
  cases b with
  | none => exact numbered_nothing hs₂ fun _ h => h
  | some b =>
      dsimp only
      split
      · exact hcounts (tallies_stringValue _ _)
      · exact hcounts (tallies_word _ _ _)
      · exact numbered_found hs₂ numbers_nullOrConstructor fun _ h => h
      · exact hcounts (tallies_word _ _ _)
      · exact hcounts (tallies_specialValue _ _)
      · exact hcounts (tallies_negativeValue _ (tallies_numberValue _))
      · exact hcounts (tallies_numberValue _)
      · exact .read_bind (numbered_passComment _ hs (h₁.trans h₂) fun _ h => h)
      · have hopening : ∀ c, (do
            advance 1
            openContainer c .empty : Reading Unit).Numbers fun stale? s' => s'.Placed stale? :=
          fun c => .calm (straight_advance 1).calm fun _ =>
            (numbers_openContainer c _).mono fun _ _ h => h.1
        exact numbered_found hs₂ (hopening _) fun _ h => h
      · exact hcounts (numbers_unexpected _)
      · exact hcounts (tallies_closeContainer _)
      · exact hcounts (.publish _ _)
      · exact hcounts tallies_otherValue

/-- A name is given to an object, and objects have no index. -/
theorem leaves_property_placed (hs : s.Numbered stale?) (hinner : s.innermost? = some .object) :
    property.Leaves settings s (fun _ s' => s'.Placed stale?) (Harmed stale?) := by
  refine ((Straight.byte? 0).calm.numbered hs).bind fun b s₁ h₁ => .read_bind ?_
  refine ((straight_nameText _).calm.numbered (hs.lined h₁)).bind fun name s₂ h₂ => ?_
  have h₂ := h₁.trans h₂
  refine (straight_skipBlanks.calm.numbered (hs.lined h₂)).bind fun colon s₃ h₃ => ?_
  have h₃ := h₂.trans h₃
  split
  · refine ((straight_advance 1).calm.numbered (hs.lined h₃)).bind fun _ s₄ h₄ => .modify ?_
    have h₄ := h₃.trans h₄
    have hinner₄ : s₄.innermost? = some .object := by
      rw [h₄]
      exact hinner
    have hcounted := (hs.lined h₄).orderly.publishName hinner₄ (settings.intern name)
    exact AllCounted.placed (hcounted.of_frames rfl)
  · exact numbered_unexpected _ (hs.lined h₃)

theorem leaves_member_placed (hs : s.Numbered stale?) (hinner : s.innermost? = some .object) :
    member.Leaves settings s (fun _ s' => s'.Placed stale?) (Harmed stale?) := by
  refine numbered_turns hs fun s₁ h₁ => ?_
  refine (straight_skipBlanks.calm.numbered (hs.lined h₁)).bind fun b s₂ h₂ => ?_
  have h₂ := h₁.trans h₂
  split
  · exact numbered_nothing (hs.lined h₂) fun _ h => h
  · exact numbered_found (hs.lined h₂) ((tallies_closeContainer _).mono fun _ _ h => h.placed)
      fun _ h => h
  · exact .read_bind (numbered_passComment _ hs h₂ fun _ h => h)
  · have hinner₂ : s₂.innermost? = some .object := by
      rw [h₂]
      exact hinner
    exact (leaves_property_placed (hs.lined h₂) hinner₂).bind fun _ _ h => .pure h

/-- What a separator leaves: a token, or a phase for what comes next. -/
def Resumed (stale? : Option (List Frame)) : Bool → State → Prop
  | true, s' => s'.Placed stale?
  | false, s' => s'.Numbered stale? ∧ s'.Bound

theorem leaves_separator_resumed (surface : Bool) (hs : s.Numbered stale?)
    (hphase : s.phase = .postValue) :
    (separator surface).Leaves settings s (Resumed stale?) (Harmed stale?) := by
  have hnext : ∀ {f : Settings → State → State} {s₁}, s.Lined s₁ →
      (f settings s₁).frames = s₁.frames → (∀ c, (f settings s₁).phase ≠ .opened c) →
      (f settings s₁).Coherent → (do
        update f
        return .stop false : Reading (Turn Unit Bool)).Leaves settings s₁
          (Leaves.Turned (fun _ s' => s.Lined s') (Resumed stale?)) (Harmed stale?) := by
    intro f s₁ h₁ hframes hopened hcoherent
    have hphase₁ : s₁.phase = .postValue := h₁.phase_eq.trans hphase
    have hupdate : (update f).Leaves settings s₁ (fun _ s' => s'.Numbered stale? ∧ s'.Bound)
        (Harmed stale?) :=
      .update ⟨(hs.lined h₁).of_postValue hphase₁ hframes hopened, hcoherent.bound⟩
    exact hupdate.bind fun _ _ h => .pure h
  have hresume : ∀ {s₁}, s.Lined s₁ → (do
      update resumeContainer
      return .stop false : Reading (Turn Unit Bool)).Leaves settings s₁
        (Leaves.Turned (fun _ s' => s.Lined s') (Resumed stale?)) (Harmed stale?) := by
    intro s₁ h₁
    refine hnext h₁ rfl (fun c => ?_) (coherent_resumeContainer settings s₁)
    rcases phase_resumeContainer_cases settings s₁ with ⟨c', h⟩ | h | h <;> rw [h] <;> nofun
  refine numbered_turns hs fun s₁ h₁ => ?_
  refine (straight_skipBlanks.calm.numbered (hs.lined h₁)).bind fun b s₂ h₂ => ?_
  have h₂ := h₁.trans h₂
  cases b with
  | none =>
      have hended : s₂.phase = .postValue := h₂.phase_eq.trans hphase
      have hmodify : (modify fun s => { s with phase := .finished } : Reading Unit).Leaves settings s₂
          (fun _ s' => s'.Numbered stale? ∧ s'.Bound) (Harmed stale?) :=
        .modify ⟨(hs.lined h₂).of_postValue hended rfl nofun, fun _ => trivial⟩
      exact hmodify.bind fun _ _ h => .pure h
  | some b =>
      dsimp only
      split
      · exact numbered_found (hs.lined h₂) ((tallies_closeContainer _).mono fun _ _ h => h.placed)
          fun _ h => h
      · exact numbered_passComment _ hs h₂ fun _ h => h
      · refine ((straight_advance 1).calm.numbered (hs.lined h₂)).bind fun _ s₃ h₃ => ?_
        exact hresume (h₂.trans h₃)
      · refine .read_bind (.get_bind ?_)
        split
        · exact hresume h₂
        · exact numbered_unexpected _ (hs.lined h₂)

theorem leaves_epilogue_placed (surface : Bool) (hs : s.Numbered stale?) :
    (epilogue surface).Leaves settings s (fun _ s' => s'.Placed stale?) (Harmed stale?) := by
  refine numbered_turns hs fun s₁ h₁ => ?_
  refine (straight_skipBlanks.calm.numbered (hs.lined h₁)).bind fun b s₂ h₂ => ?_
  have h₂ := h₁.trans h₂
  split
  · exact numbered_nothing (hs.lined h₂) fun _ h => h
  · exact numbered_passComment _ hs h₂ fun _ h => h
  · exact numbered_unexpected _ (hs.lined h₂)

/-- What a read leaves: a token, or less. -/
def Tokened (stale? : Option (List Frame)) (b : Bool) (s' : State) : Prop :=
  s'.Numbered stale? ∧ (b = true → s'.Placed stale?)

theorem leaves_part_tokened (hs : s.Numbered stale?) (hbound : s.Bound) :
    part.Leaves settings s (Tokened stale?) (Harmed stale?) := by
  have hplaced : ∀ {x : Reading Bool},
      x.Leaves settings s (fun _ s' => s'.Placed stale?) (Harmed stale?) →
      x.Leaves settings s (Tokened stale?) (Harmed stale?) :=
    fun h => h.mono (fun _ _ h => ⟨h.numbered, fun _ => h⟩) fun _ _ h => h
  have hobject : s.inObject → s.innermost? = some .object :=
    fun h => innermost?_of_inObject h (hbound (canStray_of_inObject h))
  refine .get_bind ?_
  split
  all_goals rename_i hphase
  · exact hplaced (leaves_value_placed hs)
  · exact hplaced (leaves_value_placed hs)
  · exact hplaced (leaves_member_placed hs (hobject (.inl hphase)))
  · exact hplaced (leaves_member_placed hs (hobject (.inr hphase)))
  · exact hplaced (leaves_value_placed hs)
  · exact hplaced (leaves_value_placed hs)
  · exact .read_bind (hplaced (leaves_epilogue_placed _ hs))
  · exact .pure ⟨hs, nofun⟩
  · exact .fail fun _ => .inl hs

theorem leaves_token_tokened (hs : s.Numbered stale?) (hbound : s.Bound) :
    token.Leaves settings s (Tokened stale?) (Harmed stale?) := by
  refine .get_bind ?_
  split
  · rename_i hphase
    refine .read_bind ((leaves_separator_resumed _ hs hphase).bind fun b s₁ h₁ => ?_)
    cases b with
    | true => exact .pure ⟨h₁.numbered, fun _ => h₁⟩
    | false => exact leaves_part_tokened h₁.1 h₁.2
  · exact leaves_part_tokened hs hbound

/-! ## Typed reads -/

/-- The bytes of an array take the place of its end, which leaves no other container uncounted. -/
theorem leaves_byteArray_counted (hs : s.Numbered stale?) (hbound : s.Bound) :
    byteArray.Leaves settings s (fun _ s' => s'.AllCounted) (Harmed stale?) := by
  refine .repeating (fun _ s' => s'.Numbered stale? ∧ s'.Bound) ?_
    (fun _ _ h _ => .fail fun _ => .inl h.1) ⟨hs, hbound⟩
  rintro bytes s₁ ⟨hs₁, hbound₁⟩
  have hclear : (modify clearSlot : Reading Unit).Leaves settings s₁
      (fun _ s' => s'.Numbered stale? ∧ s'.Bound) (Harmed stale?) :=
    .modify ⟨hs₁.of_same rfl rfl, hbound₁.stays ⟨rfl, rfl⟩⟩
  refine hclear.bind fun _ s₂ ⟨hs₂, hbound₂⟩ => ?_
  have htoken : token.Leaves settings s₂ (fun b s' => Tokened stale? b s' ∧ s'.Bound)
      (Harmed stale?) :=
    ((leaves_token_tokened hs₂ hbound₂).and (straight_token.leaves settings s₂)).mono
      (fun _ _ h => ⟨h.1, (Changes.coherent_or_stays h.2 hbound₂).1⟩) fun _ _ h => h.1
  refine htoken.bind fun found s₃ ⟨htokened, hbound₃⟩ => ?_
  generalize hrest : (get >>= _ : Reading (Turn (List UInt8) Unit)) = rest
  have hleaves : ∀ s, s.Placed stale? → s.Bound → rest.Leaves settings s
      (Leaves.Turned (fun _ s' => s'.Numbered stale? ∧ s'.Bound) fun _ s' => s'.AllCounted)
      (Harmed stale?) := by
    intro s hs hbound
    subst hrest
    refine .get_bind ?_
    split
    · exact .fail fun _ => .inl hs.numbered
    · split
      · split
        · exact .pure ⟨hs.numbered, hbound⟩
        · exact .fail fun _ => .inl hs.numbered
      · exact .fail fun _ => .inl hs.numbered
    · rename_i htoken
      have hcounted := hs.counted (by rw [htoken]; rfl)
      exact ((Stays.publish _ _ _).leaves settings s hcounted).mono (fun _ _ h => h)
        (fun _ _ h => .inl h.numbered) |>.bind fun _ _ h => .pure h
    · exact .pure ⟨hs.numbered, hbound⟩
    · exact .fail fun _ => .inl hs.numbered
  dsimp only
  split
  · have hnothing : nothing.Leaves settings s₃ (fun _ s' => s'.Placed stale? ∧ s'.Bound)
        (Harmed stale?) :=
      .modify ⟨⟨htokened.1.of_same rfl rfl, nofun⟩, hbound₃.stays ⟨rfl, rfl⟩⟩
    exact hnothing.bind fun _ s' h => hleaves s' h.1 h.2
  · rename_i hfound
    exact hleaves s₃ (htokened.2 (by simpa using hfound)) hbound₃

theorem tallies_endOfArray : endOfArray.Tallies := by
  refine ⟨fun stale? settings s h => .get_bind ?_⟩
  split
  · exact (tallies_closeContainer .array).leaves stale? settings s h
  · have hother : (do
        advance 1
        fail (.unexpectedCharacter .value (.char ']')) : Reading Unit).Tallies :=
      .calm (straight_advance 1).calm fun _ => .fail _
    exact hother.leaves stale? settings s h

theorem numbers_requestedValue (request : Request) :
    (requestedValue request).Numbers fun stale? s' => s'.Numbered stale? := by
  refine ⟨fun stale? settings s hs => numbered_turns hs fun s₁ h₁ => ?_⟩
  dsimp only
  refine (straight_skipBlanks.calm.numbered (hs.lined h₁)).bind fun b s₂ h₂ => ?_
  have h₂ := h₁.trans h₂
  have hstop : ∀ {x : Reading Unit}, x.Tallies → (Turn.stop <$> x : Reading (Turn Unit Unit)).Leaves
      settings s₂ (Leaves.Turned (fun _ s' => s.Lined s') fun _ s' => s'.Numbered stale?)
      (Harmed stale?) := by
    intro x hx
    rw [← bind_pure_comp]
    exact (hx.leaves stale? settings s₂ (hs.lined h₂)).bind fun _ _ h => .pure h.numbered
  have hother := hstop (numbers_unexpectedConsumed .value)
  cases b with
  | none =>
      have hnothing : nothing.Leaves settings s₂ (fun _ s' => s'.Numbered stale?) (Harmed stale?) :=
        .modify ((hs.lined h₂).of_same rfl rfl)
      rw [← bind_pure_comp]
      exact hnothing.bind fun _ _ h => .pure h
  | some b =>
      dsimp only
      cases Lead.ofByte b with
      | quote mark =>
          exact hstop ((tallies_stringValue mark request).stay fun _ => stays_convertText request)
      | letterN => exact hstop tallies_requireNull
      | special literal => exact hstop (tallies_specialValue literal request)
      | minus => exact hstop (tallies_negativeValue request (tallies_requestedNumber request))
      | number => exact hstop (tallies_requestedNumber request)
      | boolean truth => exact hstop (tallies_requestedBoolean truth request)
      | opening c =>
          cases c with
          | array =>
              dsimp only
              split
              · have hbytes : (do
                    advance 1
                    openContainer .array .empty
                    byteArray : Reading Unit).Tallies := by
                  refine .calm (straight_advance 1).calm fun _ => ⟨fun stale? settings s h => ?_⟩
                  exact ((numbers_openContainer .array .empty).leaves stale? settings s h).bind
                    fun _ s' hs' => leaves_byteArray_counted hs'.1.numbered hs'.2
                exact hstop hbytes
              · exact hother
          | object => exact hother
          | constructor => exact hother
      | slash =>
          refine (straight_comment_false.calm.numbered (hs.lined h₂)).bind fun _ s₃ h₃ => ?_
          exact .pure (h₂.trans h₃)
      | comma => exact hstop tallies_elidedValue
      | closing c =>
          cases c with
          | array => exact hstop tallies_endOfArray
          | object => exact hother
          | constructor => exact hother
      | undefined => exact hother
      | other => exact hother

theorem numbers_requestedPart (request : Request) :
    (requestedPart request).Numbers fun stale? s' => s'.Numbered stale? := by
  refine ⟨fun stale? settings s hs => .get_bind ?_⟩
  dsimp only
  split
  · exact (numbers_requestedValue request).leaves stale? settings s hs
  · split
    · exact (leaves_epilogue_placed false hs).bind fun _ _ h => .pure h.numbered
    · exact .pure hs
    · exact .fail fun _ => .inl hs

theorem numbers_requested (request : Request) :
    (requested request).Numbers fun stale? s' => s'.Numbered stale? := by
  refine ⟨fun stale? settings s hs => .get_bind ?_⟩
  split
  · rename_i hphase
    refine (leaves_separator_resumed false hs hphase).bind fun b s₁ h₁ => ?_
    cases b with
    | true => exact .pure h₁.numbered
    | false => exact (numbers_requestedPart request).leaves stale? settings s₁ h₁.1
  · exact (numbers_requestedPart request).leaves stale? settings s hs

end Reading

end JsonPull
