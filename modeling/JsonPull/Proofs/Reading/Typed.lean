import JsonPull.Proofs.Reading.Structure
import JsonPull.Reader.Typed

/-! # Typed reads

A typed read takes the same steps as a plain one. An array of bytes is read to its end and then
published as if it had been one scalar. -/

namespace JsonPull.Reading

open State

variable {total : Nat} {settings : Settings} {s s₁ s₂ : State} {d d₁ : Reach total}

theorem ensures_requireNull (hs : s.slot = .empty) (h : d.pos < d.seen) :
    requireNull.Ensures settings s d (fun _ => Valued settings s d) Failed := by
  refine (proceeds_byte? 1).next (tolerates_failed hs d) fun b s₁ d₁ ho herr hb => ?_
  have hseen := ho.seen_le
  split
  · refine (proceeds_advance .all (by omega)).next herr fun _ _ _ _ herr _ => herr.fail rfl
  · exact (ensures_nullValue (ho.slot_empty hs)).mono (fun _ _ _ h => h.of_onward ho)
      fun _ _ _ h => h
  · have hnext := hb.2 _ rfl
    refine (proceeds_charAt? 1).next herr fun r s₂ d₂ ho₂ herr hr => ?_
    have hseen₂ := ho₂.seen_le
    refine (proceeds_advance .all ?_).next herr fun _ _ _ _ herr _ => herr.fail rfl
    cases r with
    | none =>
        dsimp only [Option.getD_none]
        omega
    | some r =>
        have hlength := (hr.2 r.1 r.2 rfl).2
        dsimp only [Option.getD_some]
        omega

theorem ensures_requestedNumber (request : Request) (hs : s.slot = .empty) :
    (requestedNumber request).Ensures settings s d (fun _ => Valued settings s d)
      Failed := by
  have herr := tolerates_failed hs d
  have hnumber : (numberValue request).Ensures settings s d (fun _ => Valued settings s d)
      Failed := ensures_numberValue request hs
  cases request with
  | bytes => exact herr.unexpectedConsumed _
  | dateTime => exact herr.unexpectedConsumed _
  | dateTimeOffset => exact herr.unexpectedConsumed _
  | boolean =>
      refine (ensures_numberValue .plain hs).bind ?_ fun _ _ _ h => h
      intro _ s₁ d₁ hv
      rw [ensures_get_bind]
      exact (ensures_update _).mpr (hv.publish .boolean nofun)
  | plain => exact hnumber
  | int32 => exact hnumber
  | decimal => exact hnumber
  | double => exact hnumber
  | string => exact hnumber

theorem ensures_requestedBoolean (truth : Bool) (request : Request) (hs : s.slot = .empty) :
    (requestedBoolean truth request).Ensures settings s d (fun _ => Valued settings s d)
      Failed := by
  have herr := tolerates_failed hs d
  have hword : ∀ (literal : Literal) (kind : Scalar) (v : Value),
      (do
        if ← separateWord literal then
          update fun settings => publishScalar settings kind (.owned v) true
        else unexpected .value : Reading Unit).Ensures settings s d
          (fun _ => Valued settings s d) Failed := by
    intro literal kind v
    refine (proceeds_separateWord literal).next herr fun found s₁ d₁ ho herr hlt => ?_
    cases found with
    | false => exact herr.unexpected _
    | true => exact (ensures_update _).mpr (ho.valued (hlt rfl) kind nofun)
  cases request with
  | boolean => exact hword _ _ _
  | string => exact hword _ _ _
  | _ => exact herr.unexpectedConsumed _

/-! ## Conversion of texts -/

theorem proceeds_currentText (h : s.Held d) :
    currentText.Proceeds .all settings s d fun _ s' d' => s' = s ∧ d' = d := by
  refine proceeds_get_bind ?_
  split
  · rename_i span hslot
    exact proceeds_textOf .all (h span hslot)
  · exact .pure ⟨rfl, rfl⟩
  · exact .pure ⟨rfl, rfl⟩

theorem ensures_convertText (request : Request) (h : Valued settings s d s₁ d₁) :
    (convertText request).Ensures settings s₁ d₁ (fun _ => Valued settings s d)
      Failed := by
  unfold convertText
  split
  · exact (ensures_pure _).mpr h
  · refine (proceeds_currentText h.held).ensures.bind ?_ fun _ _ _ he => ⟨h.held.onward he.1, he.2.2⟩
    rintro text s₂ d₂ ⟨-, rfl, rfl⟩
    split
    · exact (ensures_update _).mpr (h.publish .null nofun)
    · split
      · exact (ensures_update _).mpr (h.publish _ nofun)
      · exact h.held.fail rfl

/-! ## Arrays of bytes -/

/-- Among the elements of an array that stands in the containers `fs`, or at the end of the input
within it. -/
structure Among (fs : List Frame) (s : State) : Prop where
  frames : ∃ f, f.kind = .array ∧ s.frames = f :: fs
  phase : s.phase = .opened .array ∨ s.phase = .within .array ∨ s.phase = .postValue ∨
    s.phase = .finished

/-- Where a step among the elements of an array leads: on among them, or behind the array. -/
structure Leads (settings : Settings) (fs : List Frame) (s' : State) : Prop where
  onward : (∃ kind, s'.token = .scalar kind) ∨ s'.token = .comment → Among fs s'
  behind : ∀ c, s'.token = .closing c → s'.frames = fs

theorem Among.advance {fs : List Frame} (h : Among fs s) :
    ∃ f, f.kind = .array ∧ s.countElement.frames = f :: fs := by
  obtain ⟨f, hkind, hf⟩ := h.frames
  exact ⟨f.advance, by rw [Frame.kind_advance, hkind], by simp [countElement, hf]⟩

theorem Among.step {fs : List Frame} (h : Among fs s) (hstep : Step settings s s₁) :
    Leads settings fs s₁ := by
  obtain ⟨f, hkind, hf⟩ := h.frames
  cases hstep with
  | scalar kind slot hphase hsame =>
      have hframes : s₁.frames = s.countElement.frames :=
        hsame.frames_eq.trans (frames_publishScalar ..)
      have hnext : s₁.phase = .postValue := by
        rw [hsame.phase_eq, phase_publishScalar]
        simp [hf]
      refine ⟨fun _ => ⟨?_, .inr (.inr (.inl hnext))⟩, ?_⟩
      · rw [hframes]
        exact h.advance
      · intro c hc
        rw [hsame.token_eq, token_publishScalar] at hc
        cases hc
  | opening c slot hphase hdepth hsame =>
      have htoken : s₁.token = .opening c := hsame.token_eq
      exact ⟨by simp [htoken], by simp [htoken]⟩
  | closing c hphase hinner hsame =>
      have htoken : s₁.token = .closing c := hsame.token_eq
      refine ⟨by simp [htoken], fun _ _ => ?_⟩
      rw [hsame.frames_eq]
      simp [publishClosing, completeValue, hf]
  | name name hphase hsame =>
      have htoken : s₁.token = .propertyName := hsame.token_eq
      exact ⟨by simp [htoken], by simp [htoken]⟩
  | comment slot hsame =>
      have htoken : s₁.token = .comment := hsame.token_eq
      refine ⟨fun _ => ⟨⟨f, hkind, hsame.frames_eq.trans hf⟩, ?_⟩, by simp [htoken]⟩
      have hp : s₁.phase = s.phase := hsame.phase_eq
      rw [hp]
      exact h.phase
  | nothing hsame =>
      have htoken : s₁.token = .none := hsame.token_eq
      exact ⟨by simp [htoken], by simp [htoken]⟩
  | closed hphase hsame =>
      have hp := h.phase
      simp [hphase] at hp

theorem Among.call {fs : List Frame} (h : Among fs s) (hcall : Call settings s s₁) :
    Leads settings fs s₁ := by
  obtain ⟨f, hkind, hf⟩ := h.frames
  cases hcall with
  | direct hstep => exact h.step hstep
  | resumed hphase hstep =>
      have hamong : Among fs (s.resumeContainer settings) := by
        refine ⟨⟨f, hkind, hf⟩, .inr (.inl ?_)⟩
        simp [resumeContainer, innermost?, hf, hkind]
      exact hamong.step hstep
  | ended hphase hstep =>
      have hamong : Among fs { s with phase := .finished } :=
        ⟨⟨f, hkind, hf⟩, .inr (.inr (.inr rfl))⟩
      exact hamong.step hstep

/-- Behind the array, its bytes take the place of one scalar. -/
theorem same_publishBytes (slot : Slot) (hframes : s₁.frames = s.countElement.frames) :
    (s.publishScalar settings .bytes slot true).Same
      (s₁.publishScalar settings .bytes slot false) := by
  have hempty : s₁.frames.isEmpty = s.frames.isEmpty := by rw [hframes, isEmpty_countElement]
  refine ⟨?_, ?_, ?_, ?_⟩
  · rw [phase_publishScalar, ← hempty]
    rfl
  · exact (token_publishScalar ..).symm
  · exact (slot_publishScalar ..).symm
  · exact hframes.trans (frames_publishScalar ..).symm

theorem ensures_byteArray {s₀ : State} (h : Among s₀.countElement.frames s) :
    byteArray.Ensures settings s d
      (fun _ s' d' => (∃ slot, (s₀.publishScalar settings .bytes slot true).Same s') ∧ s'.Held d')
      Failed := by
  refine ensures_repeating (fun _ s' _ => Among s₀.countElement.frames s') ?_ h
  intro bytes s₁ d₁ h₁
  rw [ensures_modify_bind]
  have hclear : Among s₀.countElement.frames s₁.clearSlot := ⟨h₁.frames, h₁.phase⟩
  refine (ensures_token rfl).bind ?_ fun _ _ _ h => h
  intro b s₂ d₂ hres
  have hleads := hclear.call hres.call
  cases b with
  | false =>
      simp only [Bool.not_false, if_true]
      rw [nothing, ensures_modify_bind, ensures_get_bind]
      exact (held_of_empty rfl d₂).fail rfl
  | true =>
      have hprogress := hres.progress rfl
      simp only [Bool.not_true, Bool.false_eq_true, if_false]
      rw [ensures_get_bind]
      split
      · exact hres.held.fail rfl
      · rename_i htoken
        split
        · split
          · refine (ensures_pure _).mpr ⟨hleads.onward (.inl ⟨_, htoken⟩), ?_⟩
            exact hprogress.resolve_right (by simp [htoken])
          · exact hres.held.fail rfl
        · exact hres.held.fail rfl
      · rename_i htoken
        rw [ensures_update_bind]
        refine (ensures_pure _).mpr ⟨⟨.owned (.bytes bytes.reverse), ?_⟩, held_of_owned rfl d₂⟩
        exact same_publishBytes _ (hleads.behind .array htoken)
      · rename_i htoken
        refine (ensures_pure _).mpr ⟨hleads.onward (.inr htoken), ?_⟩
        exact hprogress.resolve_right (by simp [htoken])
      · exact hres.held.fail rfl

/-! ## Values on request -/

/-- What a typed read leaves: one step, with its value held. -/
structure Takes (settings : Settings) (s : State) (s' : State) (d' : Reach total) : Prop where
  step : Step settings s s'
  held : s'.Held d'

theorem ensures_elidedValue {ok : Unit → State → Reach total → Prop} (h : d.pos < d.seen) :
    elidedValue.Ensures settings s d ok Failed := by
  unfold elidedValue
  rw [ensures_update_bind, ensures_get_bind]
  have hempty : (s.publishScalar settings .undefined .empty true).slot = .empty :=
    slot_publishScalar _ _ _ _
  refine (proceeds_past .all h).next (tolerates_failed hempty d) ?_
  rintro behind _ _ - - ⟨-, rfl, rfl⟩
  exact (ensures_throw _).mpr ⟨held_of_empty hempty _, rfl⟩

theorem ensures_endOfArray (hs : s.slot = .empty) (h : d.pos < d.seen) :
    endOfArray.Ensures settings s d (fun _ s' d' => Takes settings s s' d') Failed := by
  unfold endOfArray
  rw [ensures_get_bind]
  split
  · exact (ensures_closeContainer .array nofun hs h).mono (fun _ _ _ h => ⟨h.step, h.held⟩)
      fun _ _ _ h => h
  · exact (proceeds_advance .all h).next (tolerates_failed hs d) fun _ _ _ _ herr _ => herr.fail rfl

theorem ensures_openedBytes (hphase : s.phase.expectsValue = true) (hs : s.slot = .empty)
    (h : d.pos < d.seen) :
    (do advance 1; openContainer .array .empty; byteArray : Reading Unit).Ensures settings s d
      (fun _ s' d' => Takes settings s s' d') Failed := by
  refine (proceeds_advance .all h).next (tolerates_failed hs d) ?_
  rintro _ _ d₁ - - ⟨rfl, -, -⟩
  have hslot : ∀ span, Slot.empty ≠ .held span := nofun
  refine (ensures_openContainer .array hslot).bind ?_ fun _ _ _ h => h
  rintro _ _ _ ⟨rfl, rfl, -⟩
  refine (ensures_byteArray ⟨⟨_, rfl, rfl⟩, .inl rfl⟩).mono ?_ fun _ _ _ h => h
  rintro _ s' d' ⟨⟨slot, hsame⟩, hheld⟩
  exact ⟨.scalar .bytes slot hphase hsame, hheld⟩

theorem ensures_requestedValue (request : Request) (hphase : s.phase.expectsValue = true)
    (hs : s.slot = .empty) :
    (requestedValue request).Ensures settings s d (fun _ s' d' => Takes settings s s' d')
      Failed := by
  refine ensures_repeating (fun _ s' d' => Onward .unread s d s' d') ?_ (.refl ..)
  intro _ s₁ d₁ ho₁
  dsimp only
  refine proceeds_skipBlanks.next (tolerates_failed (ho₁.slot_empty hs) d₁)
    fun b s₂ d₂ ho₂ herr hb => ?_
  have ho := ho₁.trans ho₂
  have hempty := ho.slot_empty hs
  have hphase₂ : s₂.phase.expectsValue = true := by rw [ho.same.phase_eq, hphase]
  have hstop : ∀ {reading : Reading Unit},
      reading.Ensures settings s₂ d₂ (fun _ s' d' => Takes settings s₂ s' d') Failed →
      (Turn.stop <$> reading : Reading (Turn Unit Unit)).Ensures settings s₂ d₂
        (Turn.Leaves (fun _ s' d' => Onward .unread s d s' d') d₁
          fun _ s' d' => Takes settings s s' d') Failed := by
    intro reading h
    exact .map (h.mono (fun _ _ _ ht => ⟨ht.step.of_same ho.same, ht.held⟩) fun _ _ _ h => h)
  have hvalued : ∀ {reading : Reading Unit},
      reading.Ensures settings s₂ d₂ (fun _ => Valued settings s₂ d₂) Failed →
      reading.Ensures settings s₂ d₂ (fun _ s' d' => Takes settings s₂ s' d') Failed :=
    fun h => h.mono (fun _ _ _ hv => ⟨(hv.passes hphase₂).step, hv.held⟩) fun _ _ _ h => h
  cases b with
  | none =>
      refine hstop ?_
      rw [nothing, ensures_modify]
      exact ⟨.nothing (.refl _), held_of_empty rfl d₂⟩
  | some b =>
      have hseen := hb b rfl
      dsimp only
      have hother := hstop (herr.unexpectedConsumed .value)
      cases Lead.ofByte b with
      | quote mark =>
          refine hstop (hvalued ((ensures_stringValue _ _ hempty hseen).bind ?_ fun _ _ _ h => h))
          exact fun _ _ _ hv => ensures_convertText request hv
      | letterN => exact hstop (hvalued (ensures_requireNull hempty hseen))
      | special literal => exact hstop (hvalued (ensures_specialValue _ _ hempty))
      | minus =>
          refine hstop (hvalued (ensures_negativeValue _ hempty fun s' d' ho' => ?_))
          exact ensures_requestedNumber _ (ho'.slot_empty hempty)
      | number => exact hstop (hvalued (ensures_requestedNumber _ hempty))
      | boolean truth => exact hstop (hvalued (ensures_requestedBoolean _ _ hempty))
      | opening c =>
          cases c with
          | array =>
              dsimp only
              split
              · exact hstop (ensures_openedBytes hphase₂ hempty hseen)
              · exact hother
          | object => exact hother
          | constructor => exact hother
      | slash =>
          refine (ensures_comment false herr hseen).bind ?_ fun _ _ _ h => h
          rintro _ s₃ d₃ ⟨hlt, s', ho₃, hcomment⟩
          obtain rfl : s₃ = s' := hcomment
          have hle := ho₂.pos_le
          exact (ensures_pure _).mpr ⟨ho.trans ho₃, by omega⟩
      | comma => exact hstop (ensures_elidedValue hseen)
      | closing c =>
          cases c with
          | array => exact hstop (ensures_endOfArray hempty hseen)
          | object => exact hother
          | constructor => exact hother
      | undefined => exact hother
      | other => exact hother

theorem ensures_requestedPart (request : Request) (hs : s.slot = .empty) :
    (requestedPart request).Ensures settings s d (fun _ s' d' => Takes settings s s' d')
      Failed := by
  unfold requestedPart
  rw [ensures_get_bind]
  dsimp only
  split
  · rename_i hphase
    exact ensures_requestedValue request hphase hs
  · split
    · refine (ensures_epilogue false hs).bind ?_ fun _ _ _ h => h
      exact fun _ _ _ h => (ensures_pure _).mpr ⟨h.step, h.held⟩
    · rename_i hphase
      exact (ensures_pure _).mpr ⟨.closed hphase (.refl _), held_of_empty hs d⟩
    · exact (held_of_empty hs d).fail rfl

/-- Every read on request takes one step behind what separates it from the value before. -/
theorem ensures_requested (request : Request) (hs : s.slot = .empty) :
    (requested request).Ensures settings s d (fun _ s' d' => Call settings s s' ∧ s'.Held d')
      Failed := by
  have hpart : (requestedPart request).Ensures settings s d
      (fun _ s' d' => Call settings s s' ∧ s'.Held d') Failed :=
    (ensures_requestedPart request hs).mono (fun _ _ _ h => ⟨.direct h.step, h.held⟩)
      fun _ _ _ h => h
  unfold requested
  rw [ensures_get_bind]
  split
  · rename_i hphase
    refine (ensures_separator false hphase hs).bind ?_ fun _ _ _ h => h
    intro b s₁ d₁ hsep
    cases b with
    | true =>
        have hp := hsep.found rfl
        exact (ensures_pure _).mpr ⟨.direct hp.step, hp.held⟩
    | false =>
        refine (ensures_requestedPart request (hsep.slot_empty hs)).mono ?_ fun _ _ _ h => h
        exact fun _ _ _ h => ⟨hsep.call hphase h.step, h.held⟩
  · exact hpart

end JsonPull.Reading
