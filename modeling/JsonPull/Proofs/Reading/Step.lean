import JsonPull.Proofs.Reading.Onward

/-! # What a reader publishes

Every successful call ends with one of a few steps of the state, whatever the bytes were and
however many parts of the reader took part in it. -/

namespace JsonPull

variable {total : Nat} {settings : Settings} {s s₁ s₂ : State} {d d₁ d₂ : Reach total}

theorem Slot.owned_ne_held (value : Value) (span : Span) : Slot.owned value ≠ .held span := by
  simp

namespace State

/-- Equal apart from the lines and the last quote. -/
structure Same (s s' : State) : Prop where
  phase_eq : s'.phase = s.phase
  token_eq : s'.token = s.token
  slot_eq : s'.slot = s.slot
  frames_eq : s'.frames = s.frames

namespace Same

theorem refl (s : State) : Same s s := ⟨rfl, rfl, rfl, rfl⟩

theorem trans (h : Same s s₁) (h' : Same s₁ s₂) : Same s s₂ :=
  ⟨h'.phase_eq.trans h.phase_eq, h'.token_eq.trans h.token_eq, h'.slot_eq.trans h.slot_eq,
    h'.frames_eq.trans h.frames_eq⟩

theorem publishScalar (h : Same s s₁) (kind : Scalar) (slot : Slot) (counted : Bool) :
    Same (s.publishScalar settings kind slot counted)
      (s₁.publishScalar settings kind slot counted) := by
  have hf := h.frames_eq
  cases counted <;> refine ⟨?_, ?_, ?_, ?_⟩ <;>
    simp only [State.publishScalar, completeValue, countElement, hf, if_true, Bool.false_eq_true,
      if_false] <;> split <;> rfl

theorem publishOpening (h : Same s s₁) (c : Container) (slot : Slot) :
    Same (s.publishOpening c slot) (s₁.publishOpening c slot) := by
  have hf := h.frames_eq
  refine ⟨rfl, rfl, rfl, ?_⟩
  simp only [State.publishOpening, countElement, hf]
  split <;> simp_all

theorem publishClosing (h : Same s s₁) (c : Container) :
    Same ((s.publishClosing c).completeValue settings)
      ((s₁.publishClosing c).completeValue settings) := by
  have hf := h.frames_eq
  refine ⟨?_, rfl, rfl, ?_⟩
  · simp only [State.publishClosing, completeValue, hf]
    rfl
  · simp only [State.publishClosing, completeValue, hf]

theorem publishComment (h : Same s s₁) (slot : Slot) :
    Same (s.publishComment slot) (s₁.publishComment slot) :=
  ⟨h.phase_eq, rfl, rfl, h.frames_eq⟩

theorem publishNothing (h : Same s s₁) : Same s.publishNothing s₁.publishNothing :=
  ⟨h.phase_eq, rfl, rfl, h.frames_eq⟩

theorem publishName (h : Same s s₁) (name : String) :
    Same (s.publishName name) (s₁.publishName name) := by
  have hf := h.frames_eq
  refine ⟨rfl, rfl, rfl, ?_⟩
  simp only [State.publishName, hf]

theorem resumeContainer (h : Same s s₁) :
    Same (s.resumeContainer settings) (s₁.resumeContainer settings) := by
  refine ⟨?_, h.token_eq, h.slot_eq, h.frames_eq⟩
  simp only [State.resumeContainer, innermost?, h.frames_eq]

end Same

/-! ## Steps -/

/-- From the state before a part of the input to the state after it, apart from lines and quotes. -/
inductive Step (settings : Settings) (s : State) : State → Prop where
  | scalar {s' : State} (kind : Scalar) (slot : Slot) (hphase : s.phase.expectsValue = true)
      (h : (s.publishScalar settings kind slot true).Same s') : Step settings s s'
  | opening {s' : State} (c : Container) (slot : Slot) (hphase : s.phase.expectsValue = true)
      (hdepth : ∀ limit, settings.maxDepth = some limit → s.frames.length < limit)
      (h : (s.publishOpening c slot).Same s') : Step settings s s'
  | closing {s' : State} (c : Container) (hphase : c = .object → s.phase ≠ .property)
      (hkind : s.innermost? = some c)
      (h : ((s.publishClosing c).completeValue settings).Same s') : Step settings s s'
  | name {s' : State} (name : String)
      (hphase : s.phase = .opened .object ∨ s.phase = .within .object)
      (h : (s.publishName name).Same s') : Step settings s s'
  | comment {s' : State} (slot : Slot) (h : (s.publishComment slot).Same s') : Step settings s s'
  | nothing {s' : State} (h : s.publishNothing.Same s') : Step settings s s'
  | closed {s' : State} (hphase : s.phase = .closed) (h : s.Same s') : Step settings s s'

theorem Step.of_same (hs : Same s s₁) (h : Step settings s₁ s₂) : Step settings s s₂ := by
  have hp := hs.phase_eq
  cases h with
  | scalar kind slot hphase h =>
      exact .scalar kind slot (hp ▸ hphase) ((hs.publishScalar kind slot true).trans h)
  | opening c slot hphase hdepth h =>
      exact .opening c slot (hp ▸ hphase) (hs.frames_eq ▸ hdepth)
        ((hs.publishOpening c slot).trans h)
  | closing c hphase hkind h =>
      refine .closing c (hp ▸ hphase) ?_ ((hs.publishClosing c).trans h)
      rw [← hkind, innermost?, innermost?, hs.frames_eq]
  | name name hphase h => exact .name name (hp ▸ hphase) ((hs.publishName name).trans h)
  | comment slot h => exact .comment slot ((hs.publishComment slot).trans h)
  | nothing h => exact .nothing (hs.publishNothing.trans h)
  | closed hphase h => exact .closed (hp ▸ hphase) (hs.trans h)

/-- The step of a whole call. Behind a value, a separator or the end of the input may come first. -/
inductive Call (settings : Settings) (s s' : State) : Prop where
  | direct (h : Step settings s s')
  | resumed (hphase : s.phase = .postValue) (h : Step settings (s.resumeContainer settings) s')
  | ended (hphase : s.phase = .postValue) (h : Step settings { s with phase := .finished } s')

/-! ## Publishing in two moves -/

/-- A value that was counted already may be published again in another form. -/
theorem publishScalar_twice (kind kind' : Scalar) (slot slot' : Slot) (s : State) :
    (s.publishScalar settings kind slot true).publishScalar settings kind' slot' false =
      s.publishScalar settings kind' slot' true := by
  cases hf : s.frames <;> simp [publishScalar, completeValue, countElement, hf]

/-- Counting the element first makes no difference. -/
theorem publishScalar_counted (kind : Scalar) (slot : Slot) (s : State) :
    ((s.completeValue settings).countElement).publishScalar settings kind slot false =
      s.publishScalar settings kind slot true := by
  cases hf : s.frames <;> simp [publishScalar, completeValue, countElement, hf]

/-! ## Held values -/

/-- If the value of the current token lies in the window, it was referred to, and nothing was moved
since. -/
def Held (s : State) (d : Reach total) : Prop :=
  ∀ span, s.slot = .held span → span ∈ d.marks

theorem held_of_empty (h : s.slot = .empty) (d : Reach total) : s.Held d := by
  intro span hs
  simp [h] at hs

theorem held_of_owned {value : Value} (h : s.slot = .owned value) (d : Reach total) : s.Held d :=
  fun span hs => absurd (h ▸ hs) (Slot.owned_ne_held value span)

theorem Held.onward (h : s.Held d) (ho : Onward .all s d s₁ d₁) : s₁.Held d₁ := by
  intro span hspan
  rw [ho.state_eq] at hspan
  exact ho.marks_sub rfl span (h span hspan)

/-- What a failure leaves: a value that is still held, and no defect. -/
structure Failed (e : ReadError) (s : State) (d : Reach total) : Prop where
  held : s.Held d
  kind : e.kind.isDefect = false

/-- A scalar that was read from at least one byte. -/
structure Valued (settings : Settings) (s : State) (d : Reach total) (s' : State)
    (d' : Reach total) : Prop where
  published : ∃ kind slot, (s.publishScalar settings kind slot true).Same s'
  held : s'.Held d'
  progress : d.pos < d'.pos

/-- One step of a reading, with its value held and progress made. -/
structure Passes (settings : Settings) (s : State) (d : Reach total) (s' : State)
    (d' : Reach total) : Prop where
  step : Step settings s s'
  held : s'.Held d'
  progress : d.pos < d'.pos

theorem Valued.passes (h : Valued settings s d s₁ d₁) (hphase : s.phase.expectsValue = true) :
    Passes settings s d s₁ d₁ := by
  obtain ⟨kind, slot, hsame⟩ := h.published
  exact ⟨.scalar kind slot hphase hsame, h.held, h.progress⟩

@[simp] theorem slot_publishScalar (kind : Scalar) (slot : Slot) (counted : Bool) (s : State) :
    (s.publishScalar settings kind slot counted).slot = slot := by
  cases counted
  · rfl
  · cases hf : s.frames <;> simp [publishScalar, completeValue, countElement, hf]

@[simp] theorem token_publishScalar (kind : Scalar) (slot : Slot) (s : State) :
    (s.publishScalar settings kind slot true).token = .scalar kind := by
  cases hf : s.frames <;> simp [publishScalar, completeValue, countElement, hf]

@[simp] theorem phase_publishScalar (kind : Scalar) (slot : Slot) (s : State) :
    (s.publishScalar settings kind slot true).phase =
      if s.frames.isEmpty && !settings.multipleValues then .finished else .postValue := by
  cases hf : s.frames <;> simp [publishScalar, completeValue, countElement, hf]

@[simp] theorem frames_publishScalar (kind : Scalar) (slot : Slot) (s : State) :
    (s.publishScalar settings kind slot true).frames = s.countElement.frames := by
  cases hf : s.frames <;> simp [publishScalar, completeValue, countElement, hf]

@[simp] theorem length_countElement (s : State) :
    s.countElement.frames.length = s.frames.length := by
  have hkinds := congrArg List.length (kinds_countElement s)
  rwa [List.length_map, List.length_map] at hkinds

@[simp] theorem isEmpty_countElement (s : State) :
    s.countElement.frames.isEmpty = s.frames.isEmpty := by
  cases hf : s.frames <;> simp [countElement, hf]

theorem length_publishOpening (c : Container) (slot : Slot) (s : State) :
    (s.publishOpening c slot).frames.length = s.frames.length + 1 := by
  rw [frames_publishOpening, List.length_cons, length_countElement]

theorem length_publishName (name : String) (s : State) :
    (s.publishName name).frames.length = s.frames.length := by
  cases hf : s.frames <;> simp [publishName, hf]

theorem kinds_publishScalar (kind : Scalar) (slot : Slot) (s : State) :
    (s.publishScalar settings kind slot true).frames.map Frame.kind = s.frames.map Frame.kind := by
  rw [frames_publishScalar, kinds_countElement]

theorem kinds_publishOpening (c : Container) (slot : Slot) (s : State) :
    (s.publishOpening c slot).frames.map Frame.kind = c :: s.frames.map Frame.kind := by
  rw [frames_publishOpening, List.map_cons, kinds_countElement, Frame.kind_fresh]

@[simp] theorem kinds_publishClosing (c : Container) (s : State) :
    (s.publishClosing c).frames.map Frame.kind = (s.frames.map Frame.kind).tail :=
  List.map_tail

@[simp] theorem kinds_publishName (name : String) (s : State) :
    (s.publishName name).frames.map Frame.kind = s.frames.map Frame.kind := by
  cases hf : s.frames <;> simp [publishName, hf]

@[simp] theorem slot_countElement (s : State) : s.countElement.slot = s.slot := by
  unfold countElement
  split <;> rfl

/-- A value may be given another form. -/
theorem Valued.publish (h : Valued settings s d s₁ d₁) (kind : Scalar) {slot : Slot}
    (hslot : ∀ span, slot ≠ .held span) :
    Valued settings s d (s₁.publishScalar settings kind slot false) d₁ := by
  obtain ⟨kind₁, slot₁, hsame⟩ := h.published
  refine ⟨⟨kind, slot, ?_⟩, ?_, h.progress⟩
  · rw [← publishScalar_twice kind₁ kind slot₁ slot s]
    exact hsame.publishScalar kind slot false
  · intro span hs
    exact absurd hs (hslot span)

end State

open State

theorem Onward.same {retain : Retain} (h : Onward retain s d s₁ d₁) : s.Same s₁ := by
  rw [h.state_eq]
  exact ⟨rfl, rfl, rfl, rfl⟩

theorem State.Passes.of_onward {retain : Retain} (ho : Onward retain s d s₁ d₁)
    (h : Passes settings s₁ d₁ s₂ d₂) : Passes settings s d s₂ d₂ := by
  exact ⟨h.step.of_same ho.same, h.held, ho.pos_le.trans_lt h.progress⟩

theorem State.Valued.of_onward {retain : Retain} (ho : Onward retain s d s₁ d₁)
    (h : Valued settings s₁ d₁ s₂ d₂) : Valued settings s d s₂ d₂ := by
  obtain ⟨kind, slot, hsame⟩ := h.published
  exact ⟨⟨kind, slot, (ho.same.publishScalar kind slot true).trans hsame⟩, h.held,
    ho.pos_le.trans_lt h.progress⟩

theorem Onward.valued {retain : Retain} (ho : Onward retain s d s₁ d₁) (hlt : d.pos < d₁.pos)
    (kind : Scalar) {slot : Slot} (hslot : ∀ span, slot ≠ .held span) :
    Valued settings s d (s₁.publishScalar settings kind slot true) d₁ := by
  refine ⟨⟨kind, slot, ho.same.publishScalar kind slot true⟩, ?_, hlt⟩
  intro span h
  rw [slot_publishScalar] at h
  exact absurd h (hslot span)

/-- A value whose element was counted before it is published. -/
theorem State.Valued.finish {retain : Retain} (ho : Onward retain s d s₁ d₁)
    (hs : ((s₁.completeValue settings).countElement).Same s₂) (hlt : d.pos < d₂.pos)
    (kind : Scalar) {slot : Slot} (hslot : ∀ span, slot = .held span → span ∈ d₂.marks) :
    Valued settings s d (s₂.publishScalar settings kind slot false) d₂ := by
  refine ⟨⟨kind, slot, ?_⟩, ?_, hlt⟩
  · refine (ho.same.publishScalar kind slot true).trans ?_
    rw [← publishScalar_counted]
    exact hs.publishScalar kind slot false
  · intro span h
    rw [slot_publishScalar] at h
    exact hslot span h

theorem Onward.slot_empty {retain : Retain} (ho : Onward retain s d s₁ d₁) (h : s.slot = .empty) :
    s₁.slot = .empty :=
  ho.same.slot_eq.trans h

/-- A failure that is no defect is one that leaves a held value held. -/
theorem State.Held.fail {α : Type} {ok : α → State → Reach total → Prop} (h : s.Held d)
    {kind : ErrorKind} (hkind : kind.isDefect = false) :
    (Reading.fail kind : Reading α).Ensures settings s d ok State.Failed :=
  (Reading.ensures_fail kind).mpr ⟨h.onward (.look .all s d), hkind⟩

theorem Reading.tolerates_failed (h : s.slot = .empty) (d : Reach total) :
    Tolerates State.Failed s d :=
  fun _ _ d' ho _ hkind => ⟨held_of_empty (ho.slot_empty h) d', hkind⟩

end JsonPull
