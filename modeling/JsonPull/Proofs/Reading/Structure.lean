import JsonPull.Proofs.Reading.Quoted
import JsonPull.Reader.Structure

/-! # Structure

Each part of the grammar takes one step of the state. Only behind a value a part may take none, and
then it leaves the phase for the part that follows. -/

namespace JsonPull.Reading

open State

variable {total : Nat} {settings : Settings} {s s₁ : State} {d d₁ : Reach total}

/-! ## Containers -/

theorem ensures_openContainer (c : Container) {slot : Slot} (hslot : ∀ span, slot ≠ .held span) :
    (openContainer c slot).Ensures settings s d
      (fun _ s' d' => s' = s.publishOpening c slot ∧ d' = d ∧
        ∀ limit, settings.maxDepth = some limit → s.frames.length < limit)
      Failed := by
  have hheld : (s.publishOpening c slot).Held d := fun span h => absurd h (hslot span)
  have hlength : (s.publishOpening c slot).frames.length = s.frames.length + 1 := by
    rw [frames_publishOpening, List.length_cons, length_countElement]
  unfold openContainer
  rw [ensures_modify_bind, ensures_read_bind]
  cases hdepth : settings.maxDepth with
  | none => exact (ensures_pure _).mpr ⟨rfl, rfl, nofun⟩
  | some limit =>
      dsimp only
      rw [ensures_get_bind]
      split
      · exact hheld.fail rfl
      · refine (ensures_pure _).mpr ⟨rfl, rfl, ?_⟩
        rintro _ ⟨⟩
        omega

/-- A container that is opened behind its mark. -/
theorem ensures_opening (c : Container) {slot : Slot} (hslot : ∀ span, slot ≠ .held span)
    (hphase : s.phase.expectsValue = true) (ho : Onward .unread s d s₁ d₁)
    (hlt : d.pos < d₁.pos) :
    (openContainer c slot).Ensures settings s₁ d₁ (fun _ => Passes settings s d)
      Failed := by
  refine (ensures_openContainer c hslot).mono ?_ fun _ _ _ h => h
  rintro _ _ _ ⟨rfl, rfl, hdepth⟩
  have hphase₁ : s₁.phase.expectsValue = true := by rw [ho.same.phase_eq, hphase]
  exact ⟨.of_same ho.same (.opening c slot hphase₁ hdepth (.refl _)),
    fun span h => absurd h (hslot span), hlt⟩

theorem ensures_closeContainer (c : Container) (hphase : c = .object → s.phase ≠ .property)
    (hs : s.slot = .empty) (h : d.pos < d.seen) :
    (closeContainer c).Ensures settings s d (fun _ => Passes settings s d) Failed := by
  refine (proceeds_advance .all h).next (tolerates_failed hs d) ?_
  rintro _ _ d₁ - - ⟨rfl, hpos, -⟩
  rw [ensures_get_bind, ensures_modify_bind]
  split
  · rename_i hkind
    exact (ensures_update _).mpr ⟨.closing c hphase hkind (.refl _), nofun, by omega⟩
  · exact (held_of_empty rfl d₁).fail rfl

/-! ## Properties -/

theorem proceeds_bareName :
    bareName.Proceeds .all settings s d fun span _ d' => span ∈ d'.marks := by
  refine (proceeds_cursor _).bind ?_
  rintro first s₁ d₁ - ⟨rfl, rfl, hpos, -, hanchor⟩
  refine .repeating (fun _ _ d' => d'.Anchors d.pos ∧ d.pos ≤ d'.pos) ?_ ⟨hanchor, hpos.ge⟩
  intro _ s₂ d₂ ⟨hanchor, hle⟩
  refine (proceeds_charAt? 0).bind fun r s₃ d₃ ho₃ h₃ => ?_
  cases r with
  | none => exact proceeds_fail rfl
  | some r =>
      obtain ⟨c, length⟩ := r
      have hc := h₃.2 c length rfl
      dsimp only
      split
      · refine (proceeds_advance _ (by omega)).bind fun _ s₄ d₄ ho₄ h₄ => ?_
        exact .pure ⟨⟨(ho₃.trans ho₄).anchors hanchor, by omega⟩, by omega⟩
      · split
        · refine (proceeds_cursor _).bind ?_
          rintro last s₄ d₄ ho₄ ⟨rfl, rfl, hpos, -⟩
          have hheld := (ho₃.trans ho₄).anchors hanchor
          have hseen := d₄.pos_le
          refine (proceeds_hold _ ⟨hheld, by omega, by omega⟩).bind ?_
          rintro _ s₅ d₅ - ⟨rfl, rfl, hmem, -⟩
          exact .pure hmem
        · exact proceeds_fail rfl

theorem proceeds_nameText (quote : Option UInt8) (h : ∀ mark, quote = some mark → d.pos < d.seen) :
    (nameText quote).Proceeds .unread settings s d fun _ _ _ => True := by
  cases quote with
  | some mark =>
      refine (proceeds_quoted mark (h mark rfl)).bind fun b s₁ d₁ _ h₁ => ?_
      exact (proceeds_bodyText _ h₁.2).mono fun _ _ _ _ _ => trivial
  | none =>
      refine (Proceeds.weaken (proceeds_charAt? 0)).bind fun r s₁ d₁ _ _ => ?_
      cases r with
      | none => exact proceeds_unexpected _
      | some r =>
          dsimp only
          split
          · refine proceeds_settle.bind fun _ s₂ d₂ _ _ => ?_
            refine .weaken (proceeds_bareName.bind fun span s₃ d₃ h₃ hspan => ?_)
            exact (proceeds_textOf _ hspan).mono fun _ _ _ _ _ => trivial
          · exact proceeds_unexpected _

theorem ensures_property (hphase : s.phase = .opened .object ∨ s.phase = .within .object)
    (hs : s.slot = .empty) :
    property.Ensures settings s d (fun _ => Passes settings s d) Failed := by
  refine (proceeds_byte? 0).next (tolerates_failed hs d) fun b s₁ d₁ ho₁ herr hb => ?_
  rw [ensures_read_bind]
  refine (proceeds_nameText _ ?_).next herr fun name s₂ d₂ ho₂ herr _ => ?_
  · intro mark hmark
    have hseen := hb.2 mark (Option.filter_eq_some_iff.mp hmark).1
    omega
  refine proceeds_skipBlanks.next herr fun colon s₃ d₃ ho₃ herr hcolon => ?_
  split
  · rename_i hmark
    have hseen := hcolon 0x3A (by simpa using hmark)
    refine (proceeds_advance .unread hseen).next herr fun _ s₄ d₄ ho₄ _ hpos => ?_
    have ho := ((ho₁.unread.trans ho₂).trans ho₃).trans ho₄
    have hle := ((ho₁.unread.trans ho₂).trans ho₃).pos_le
    refine (ensures_modify _).mpr ⟨.of_same ho.same (.name _ ?_ ⟨rfl, rfl, rfl, rfl⟩), ?_, ?_⟩
    · rwa [ho.same.phase_eq]
    · exact nofun
    · omega
  · exact herr.unexpected _

/-! ## Constructors -/

theorem proceeds_constructorName :
    constructorName.Proceeds .all settings s d fun last _ d' => d.pos ≤ last ∧ last ≤ d'.pos := by
  refine .repeating (fun _ _ d' => d.pos ≤ d'.pos) ?_ le_rfl
  intro _ s' d' hle
  refine (proceeds_charAt? 0).bind fun r s₁ d₁ _ h₁ => ?_
  cases r with
  | none => exact proceeds_fail rfl
  | some r =>
      obtain ⟨c, length⟩ := r
      have hc := h₁.2 c length rfl
      dsimp only
      split
      · refine (proceeds_advance _ (by omega)).bind fun _ s₂ d₂ _ h₂ => ?_
        exact .pure ⟨by omega, by omega⟩
      refine (proceeds_cursor _).bind ?_
      rintro last s₂ d₂ - ⟨rfl, rfl, hpos, hheld, -⟩
      split
      · exact .pure ⟨by omega, hpos.ge⟩
      split
      · refine (proceeds_takeReturn (by omega)).bind fun _ s₃ d₃ _ h₃ => ?_
        exact .pure ⟨by omega, by omega⟩
      split
      · refine (proceeds_takeFeed (by omega)).bind fun _ s₃ d₃ _ h₃ => ?_
        exact .pure ⟨by omega, by omega⟩
      split
      · refine (proceeds_advance _ (by omega)).bind fun _ s₃ d₃ _ h₃ => ?_
        exact .pure ⟨by omega, by omega⟩
      · exact proceeds_fail rfl

theorem ensures_constructorStart (hphase : s.phase.expectsValue = true) (hs : s.slot = .empty) :
    constructorStart.Ensures settings s d (fun _ => Passes settings s d) Failed := by
  refine (proceeds_requireWord .new).next (tolerates_failed hs d) fun _ s₁ d₁ ho₁ herr hlt => ?_
  refine proceeds_skipBlanks.next herr fun _ s₂ d₂ ho₂ herr _ => ?_
  refine (proceeds_cursor .unread).next herr ?_
  rintro first s₃ d₃ ho₃ herr' ⟨rfl, rfl, hpos, -, hanchor⟩
  refine proceeds_constructorName.next herr' fun last s₄ d₄ ho₄ herr hlast => ?_
  refine (proceeds_bytesOf .all ⟨ho₄.anchors hanchor, hpos ▸ hlast.1, ?_⟩).next herr ?_
  · exact hlast.2.trans d₄.pos_le
  rintro name s₅ d₅ - herr ⟨-, rfl, rfl⟩
  refine proceeds_skipBlanks.next herr fun mark s₆ d₆ ho₆ herr hmark => ?_
  split
  · rename_i hopen
    refine (proceeds_advance .unread (hmark 0x28 (by simpa using hopen))).next herr
      fun _ s₇ d₇ ho₇ _ _ => ?_
    have ho := (((ho₂.trans ho₃).trans ho₄.unread).trans ho₆).trans ho₇
    exact ensures_opening .constructor nofun hphase (ho₁.trans ho) (hlt.trans_le ho.pos_le)
  · exact herr.unexpected _

/-! ## Leads -/

/-- A lead that only one byte has. -/
theorem byte_of_lead {lead : Lead} {b mark : UInt8}
    (hall : ∀ n < 256, Lead.ofByte (UInt8.ofNat n) = lead → n = mark.toNat)
    (h : Lead.ofByte b = lead) : b = mark := by
  have hb := hall b.toNat b.toNat_lt
  rw [UInt8.ofNat_toNat] at hb
  exact UInt8.toNat_inj.mp (hb h)

theorem slash_of_lead {b : UInt8} (h : Lead.ofByte b = .slash) : b = 0x2F :=
  byte_of_lead (by decide +kernel) h

theorem comma_of_lead {b : UInt8} (h : Lead.ofByte b = .comma) : b = 0x2C :=
  byte_of_lead (by decide +kernel) h

/-! ## Values -/

theorem ensures_nullOrConstructor (hphase : s.phase.expectsValue = true) (hs : s.slot = .empty)
    (h : d.pos < d.seen) :
    nullOrConstructor.Ensures settings s d (fun _ => Passes settings s d) Failed := by
  refine (proceeds_byte? 1).next (tolerates_failed hs d) fun b s₁ d₁ ho herr hb => ?_
  have hphase₁ : s₁.phase.expectsValue = true := by rw [ho.same.phase_eq, hphase]
  have hempty := ho.slot_empty hs
  have hseen := ho.seen_le
  refine Ensures.mono (?_ : Ensures _ settings s₁ d₁ (fun _ => Passes settings s₁ d₁) _)
    (fun _ _ _ h => .of_onward ho h) fun _ _ _ h => h
  split
  · refine (proceeds_advance .all (by omega)).next herr fun _ _ _ _ herr _ => herr.fail rfl
  · exact (ensures_nullValue hempty).mono (fun _ _ _ h => h.passes hphase₁) fun _ _ _ h => h
  · exact ensures_constructorStart hphase₁ hempty
  · exact herr.fail rfl

theorem ensures_otherValue (hphase : s.phase.expectsValue = true) (hs : s.slot = .empty) :
    otherValue.Ensures settings s d (fun _ => Passes settings s d) Failed := by
  refine (proceeds_charAt? 0).next (tolerates_failed hs d) fun r s₁ d₁ ho herr _ => ?_
  cases r with
  | none => exact herr.unexpected _
  | some r =>
      dsimp only
      split
      · refine (ensures_numberValue .plain (ho.slot_empty hs)).mono ?_ fun _ _ _ h => h
        exact fun _ _ _ h => (h.of_onward ho).passes hphase
      · exact herr.unexpected _

/-- What a part answers: whether it read a token. Only then progress is due, and an elided value is
no progress, since its comma stays. -/
structure Answers (settings : Settings) (s : State) (d : Reach total) (b : Bool) (s' : State)
    (d' : Reach total) : Prop where
  step : Step settings s s'
  held : s'.Held d'
  progress : b = true → d.pos < d'.pos ∨ s'.token = .scalar .undefined

theorem answers (s₁ : State) (d₁ : Reach total) (h : Passes settings s d s₁ d₁) :
    Answers settings s d true s₁ d₁ :=
  ⟨h.step, h.held, fun _ => .inl h.progress⟩

section Turns

variable {σ : Type} {inv : σ → State → Reach total → Prop} {ok : Bool → State → Reach total → Prop}
  {s₀ : State} {d₀ d₂ : Reach total}

theorem ensures_found {token : Reading Unit} (ho : Onward .unread s₀ d₀ s d)
    (hok : ∀ s' d', Passes settings s₀ d₀ s' d' → ok true s' d')
    (h : token.Ensures settings s d (fun _ => Passes settings s d) Failed) :
    (found token : Reading (Turn σ Bool)).Ensures settings s d (Turn.Leaves inv d₂ ok)
      Failed :=
  h.bind (fun _ s' d' hp => (ensures_pure _).mpr (hok s' d' (hp.of_onward ho))) fun _ _ _ h => h

/-- A comment that is not surfaced is passed; else it is a step. -/
theorem ensures_passComment (surface : Bool) (ho : Onward .unread s₀ d₀ s d)
    (hok : ∀ s' d', Passes settings s₀ d₀ s' d' → ok true s' d') (hs : s₀.slot = .empty)
    (h : d.pos < d.seen) (hle : d₂.pos ≤ d.pos) :
    (passComment surface).Ensures settings s d
      (Turn.Leaves (fun _ s' d' => Onward .unread s₀ d₀ s' d') d₂ ok) Failed := by
  refine (ensures_comment surface (tolerates_failed (ho.slot_empty hs) d) h).bind ?_
    fun _ _ _ h => h
  rintro _ s₁ d₁ ⟨hlt, s', ho', hcomment⟩
  refine (ensures_pure _).mpr ?_
  have hpos := ho.pos_le
  cases surface with
  | false =>
      obtain rfl : s₁ = s' := hcomment
      exact ⟨ho.trans ho', by omega⟩
  | true =>
      obtain ⟨span, rfl, hspan⟩ := hcomment
      refine hok _ _
        ⟨.of_same (ho.trans ho').same (.comment (.held span) (.refl _)), ?_, by omega⟩
      rintro _ ⟨⟩
      exact hspan

end Turns

theorem ensures_nothing {s₀ : State} {d₀ d₂ : Reach total} {σ : Type}
    {inv : σ → State → Reach total → Prop} (ho : Onward .unread s₀ d₀ s d) :
    (do nothing; return .stop false : Reading (Turn σ Bool)).Ensures settings s d
      (Turn.Leaves inv d₂ (Answers settings s₀ d₀)) Failed := by
  rw [nothing, ensures_modify_bind]
  exact (ensures_pure _).mpr
    ⟨.of_same ho.same (.nothing (.refl _)), held_of_empty rfl d, nofun⟩

theorem ensures_value (hphase : s.phase.expectsValue = true) (hs : s.slot = .empty) :
    value.Ensures settings s d (Answers settings s d) Failed := by
  refine ensures_repeating (fun _ s' d' => Onward .unread s d s' d') ?_ (.refl ..)
  intro _ s₁ d₁ ho₁
  refine proceeds_skipBlanks.next (tolerates_failed (ho₁.slot_empty hs) d₁)
    fun b s₂ d₂ ho₂ herr hb => ?_
  have ho := ho₁.trans ho₂
  have hempty := ho.slot_empty hs
  have hphase₂ : s₂.phase.expectsValue = true := by rw [ho.same.phase_eq, hphase]
  cases b with
  | none => exact ensures_nothing ho
  | some b =>
      have hseen := hb b rfl
      have hvalued : ∀ {token : Reading Unit},
          token.Ensures settings s₂ d₂ (fun _ => Valued settings s₂ d₂) Failed →
          token.Ensures settings s₂ d₂ (fun _ => Passes settings s₂ d₂) Failed :=
        fun h => h.mono (fun _ _ _ hv => hv.passes hphase₂) fun _ _ _ h => h
      dsimp only
      split
      · exact ensures_found ho answers (hvalued (ensures_stringValue _ _ hempty hseen))
      · exact ensures_found ho answers (hvalued (ensures_booleanValue _ hempty))
      · exact ensures_found ho answers (ensures_nullOrConstructor hphase₂ hempty hseen)
      · exact ensures_found ho answers (hvalued (ensures_undefinedValue hempty))
      · exact ensures_found ho answers (hvalued (ensures_specialValue _ _ hempty))
      · refine ensures_found ho answers (hvalued (ensures_negativeValue _ hempty fun s' d' ho' => ?_))
        exact ensures_numberValue _ (ho'.slot_empty hempty)
      · exact ensures_found ho answers (hvalued (ensures_numberValue _ hempty))
      · rw [ensures_read_bind]
        exact ensures_passComment _ ho answers hs hseen ho₂.pos_le
      · refine ensures_found ho answers ((proceeds_advance .unread hseen).next herr ?_)
        intro _ s₃ d₃ ho₃ _ hpos
        exact ensures_opening _ nofun hphase₂ ho₃ (by omega)
      · exact ensures_found ho answers (herr.unexpected _)
      · rename_i c hc _
        refine ensures_found ho answers (ensures_closeContainer c ?_ hempty hseen)
        rintro rfl
        exact (hc rfl).elim
      · rw [found, ensures_update_bind]
        exact (ensures_pure _).mpr ⟨.of_same ho.same (.scalar _ _ hphase₂ (.refl _)),
          held_of_empty (slot_publishScalar ..) d₂, fun _ => .inr (token_publishScalar ..)⟩
      · exact ensures_found ho answers (ensures_otherValue hphase₂ hempty)

/-! ## Parts and separators -/

theorem ensures_member (hphase : s.phase = .opened .object ∨ s.phase = .within .object)
    (hs : s.slot = .empty) :
    member.Ensures settings s d (Answers settings s d) Failed := by
  refine ensures_repeating (fun _ s' d' => Onward .unread s d s' d') ?_ (.refl ..)
  intro _ s₁ d₁ ho₁
  refine proceeds_skipBlanks.next (tolerates_failed (ho₁.slot_empty hs) d₁)
    fun b s₂ d₂ ho₂ herr hb => ?_
  have ho := ho₁.trans ho₂
  have hempty := ho.slot_empty hs
  have hphase₂ : s₂.phase = .opened .object ∨ s₂.phase = .within .object := by
    rwa [ho.same.phase_eq]
  split
  · exact ensures_nothing ho
  · refine ensures_found ho answers (ensures_closeContainer .object ?_ hempty (hb _ rfl))
    rcases hphase₂ with h | h <;> simp [h]
  · rw [ensures_read_bind]
    exact ensures_passComment _ ho answers hs (hb _ rfl) ho₂.pos_le
  · exact ensures_found ho answers (ensures_property hphase₂ hempty)

/-- Behind a value: a step, or only the phase of what follows. -/
structure Separates (settings : Settings) (s : State) (d : Reach total) (b : Bool) (s' : State)
    (d' : Reach total) : Prop where
  found : b = true → Passes settings s d s' d'
  passed : b = false → d.pos ≤ d'.pos ∧
    ((s.resumeContainer settings).Same s' ∨ State.Same { s with phase := .finished } s')

theorem ensures_separator (surface : Bool) (hphase : s.phase = .postValue)
    (hs : s.slot = .empty) :
    (separator surface).Ensures settings s d (Separates settings s d) Failed := by
  have hfound : ∀ s' d', Passes settings s d s' d' → Separates settings s d true s' d' :=
    fun _ _ h => ⟨fun _ => h, nofun⟩
  refine ensures_repeating (fun _ s' d' => Onward .unread s d s' d') ?_ (.refl ..)
  intro _ s₁ d₁ ho₁
  refine proceeds_skipBlanks.next (tolerates_failed (ho₁.slot_empty hs) d₁)
    fun b s₂ d₂ ho₂ herr hb => ?_
  have ho := ho₁.trans ho₂
  have hsame := ho.same
  have hresume : (s.resumeContainer settings).Same (s₂.resumeContainer settings) :=
    hsame.resumeContainer
  cases b with
  | none =>
      rw [ensures_modify_bind]
      refine (ensures_pure _).mpr ⟨nofun, fun _ => ⟨ho.pos_le, .inr ?_⟩⟩
      exact ⟨rfl, hsame.token_eq, hsame.slot_eq, hsame.frames_eq⟩
  | some b =>
      have hseen := hb b rfl
      dsimp only
      split
      · rename_i c _
        refine ensures_found ho hfound (ensures_closeContainer c ?_ (ho.slot_empty hs) hseen)
        intro _
        simp [hsame.phase_eq, hphase]
      · exact ensures_passComment surface ho hfound hs hseen ho₂.pos_le
      · refine (proceeds_advance .unread hseen).next herr ?_
        rintro _ s₃ d₃ ho₃ - ⟨rfl, -, -⟩
        rw [ensures_update_bind]
        exact (ensures_pure _).mpr ⟨nofun, fun _ => ⟨(ho.trans ho₃).pos_le, .inl hresume⟩⟩
      · rw [ensures_read_bind, ensures_get_bind]
        split
        · rw [ensures_update_bind]
          exact (ensures_pure _).mpr ⟨nofun, fun _ => ⟨ho.pos_le, .inl hresume⟩⟩
        · exact herr.unexpected _

theorem ensures_epilogue (surface : Bool) (hs : s.slot = .empty) :
    (epilogue surface).Ensures settings s d (Answers settings s d) Failed := by
  refine ensures_repeating (fun _ s' d' => Onward .unread s d s' d') ?_ (.refl ..)
  intro _ s₁ d₁ ho₁
  refine proceeds_skipBlanks.next (tolerates_failed (ho₁.slot_empty hs) d₁)
    fun b s₂ d₂ ho₂ herr hb => ?_
  have ho := ho₁.trans ho₂
  split
  · exact ensures_nothing ho
  · exact ensures_passComment _ ho answers hs (hb _ rfl) ho₂.pos_le
  · exact herr.unexpected _

theorem ensures_part (hphase : s.phase ≠ .postValue) (hs : s.slot = .empty) :
    part.Ensures settings s d (Answers settings s d) Failed := by
  unfold part
  rw [ensures_get_bind]
  have hobject : s.phase = .opened .object ∨ s.phase = .within .object →
      member.Ensures settings s d (Answers settings s d) Failed :=
    fun h => ensures_member h hs
  have hvalue : s.phase.expectsValue = true →
      value.Ensures settings s d (Answers settings s d) Failed :=
    fun h => ensures_value h hs
  cases hp : s.phase with
  | start => exact hvalue (by simp [hp, Phase.expectsValue])
  | property => exact hvalue (by simp [hp, Phase.expectsValue])
  | opened c =>
      cases c with
      | object => exact hobject (.inl hp)
      | array => exact hvalue (by simp [hp, Phase.expectsValue])
      | constructor => exact hvalue (by simp [hp, Phase.expectsValue])
  | within c =>
      cases c with
      | object => exact hobject (.inr hp)
      | array => exact hvalue (by simp [hp, Phase.expectsValue])
      | constructor => exact hvalue (by simp [hp, Phase.expectsValue])
  | finished =>
      dsimp only
      rw [ensures_read_bind]
      exact ensures_epilogue _ hs
  | closed => exact (ensures_pure _).mpr ⟨.closed hp (.refl _), held_of_empty hs d, nofun⟩
  | postValue => exact absurd hp hphase

/-! ## Tokens -/

/-- What a whole call answers. -/
structure Results (settings : Settings) (s : State) (d : Reach total) (b : Bool) (s' : State)
    (d' : Reach total) : Prop where
  call : Call settings s s'
  held : s'.Held d'
  progress : b = true → d.pos < d'.pos ∨ s'.token = .scalar .undefined

theorem Answers.results {b : Bool} (h : Answers settings s d b s₁ d₁) :
    Results settings s d b s₁ d₁ :=
  ⟨.direct h.step, h.held, h.progress⟩

theorem Separates.slot_empty (h : Separates settings s d false s₁ d₁) (hs : s.slot = .empty) :
    s₁.slot = .empty := by
  rcases (h.passed rfl).2 with hsame | hsame
  · exact hsame.slot_eq.trans hs
  · exact hsame.slot_eq.trans hs

/-- What follows a separator belongs to the same call. -/
theorem Separates.call {s₂ : State} (h : Separates settings s d false s₁ d₁)
    (hphase : s.phase = .postValue) (hstep : Step settings s₁ s₂) : Call settings s s₂ := by
  rcases (h.passed rfl).2 with hsame | hsame
  · exact .resumed hphase (hstep.of_same hsame)
  · exact .ended hphase (hstep.of_same hsame)

/-- No second separator is due behind the first. -/
theorem Separates.phase_ne (h : Separates settings s d false s₁ d₁) : s₁.phase ≠ .postValue := by
  rcases (h.passed rfl).2 with hsame | hsame
  · rw [hsame.phase_eq]
    exact phase_resumeContainer settings s
  · rw [hsame.phase_eq]
    nofun

theorem ensures_token (hs : s.slot = .empty) :
    token.Ensures settings s d (Results settings s d) Failed := by
  unfold token
  rw [ensures_get_bind]
  split
  · rename_i hphase
    rw [ensures_read_bind]
    refine (ensures_separator _ hphase hs).bind ?_ fun _ _ _ h => h
    intro b s₁ d₁ hsep
    cases b with
    | true =>
        have hp := hsep.found rfl
        exact (ensures_pure _).mpr ⟨.direct hp.step, hp.held, fun _ => .inl hp.progress⟩
    | false =>
        have hle := (hsep.passed rfl).1
        refine (ensures_part hsep.phase_ne (hsep.slot_empty hs)).mono ?_ fun _ _ _ h => h
        intro b s₂ d₂ h
        exact ⟨hsep.call hphase h.step, h.held, fun hb => (h.progress hb).imp_left (by omega)⟩
  · rename_i hphase
    exact (ensures_part hphase hs).mono (fun _ _ _ h => h.results) fun _ _ _ h => h

end JsonPull.Reading
