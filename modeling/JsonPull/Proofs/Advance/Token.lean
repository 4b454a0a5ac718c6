import JsonPull.Proofs.Advance.Value

/-! # Comments on the way to a value

A typed read passes the comments before a value in one call. Calls that surface comments stop at
each of them, and the next call goes on in the same phase. -/

namespace JsonPull.Reading

open State

variable {α β γ : Type} {settings : Settings} {stream : List UInt8} {s s' s₁ s₁' s₂' : State}
  {pos pos₁ pos₁' pos₂' : Nat} {found : Bool} {request : Request}

/-! ## Comments -/

theorem twin_surface (surface : Bool) (span : Span) (hs : s.Alike s') :
    (pure () : Reading Unit).Twin (if surface = true then do
        let trimmed := trimSpan span (← bytesOf span)
        modify (State.publishComment (.held (← hold trimmed.first trimmed.last)))
      else pure ()) settings stream s s' pos
      fun _ s₁ _ s₁' _ => s₁.Alike s₁' := by
  cases surface with
  | false => exact .pure hs
  | true =>
      have hpass : (pure () : Reading Unit).Gives settings stream s pos
          fun _ s₁ pos₁ => pos₁ = pos ∧ s₁ = s := (gives_pure _).mpr ⟨rfl, rfl⟩
      have hsurface : (do
          let trimmed := trimSpan span (← bytesOf span)
          modify (State.publishComment (.held (← hold trimmed.first trimmed.last))) : Reading Unit).Gives settings
          stream s' pos fun _ s₁ pos₁ => pos₁ = pos ∧ ∃ slot, s₁ = s'.publishComment slot := by
        rw [gives_bind, gives_bytesOf, gives_bind, gives_hold, gives_modify]
        exact ⟨rfl, _, rfl⟩
      refine .of_gives hpass hsurface ?_
      rintro _ _ _ _ rfl ⟨slot, rfl⟩
      exact ⟨hs.lines_eq, hs.phase_eq, hs.frames_eq⟩

theorem twin_comment (surface : Bool) (hs : s.Alike s') :
    (comment false).Twin (comment surface) settings stream s s' pos
      fun _ s₁ _ s₁' _ => s₁.Alike s₁' := by
  refine (blind_advance 1).next hs fun _ s₁ s₁' pos₁ hs₁ => ?_
  refine (blind_byte? 0).next hs₁ fun mark s₂ s₂' pos₂ hs₂ => ?_
  cases mark with
  | none => exact .of_left (gives_fail _)
  | some b =>
      dsimp only
      split
      · exact .of_left (gives_unexpected _)
      · refine (blind_advance 1).next hs₂ fun _ s₃ s₃' pos₃ hs₃ => ?_
        refine blind_cursor.next hs₃ fun first s₄ s₄' pos₄ hs₄ => ?_
        split
        · exact blind_lineCommentBody.next hs₄ fun last s₅ s₅' pos₅ hs₅ =>
            twin_surface surface _ hs₅
        · exact blind_blockCommentBody.next hs₄ fun last s₅ s₅' pos₅ hs₅ =>
            twin_surface surface _ hs₅

theorem gives_skipBlanks_phase :
    skipBlanks.Gives settings stream s pos fun _ s₁ _ => s₁.phase = s.phase := by
  by_cases h : pos < stream.length
  · have hblanks : skipBlanks.Proceeds .unread settings s (.fetched pos h.le) fun _ _ _ => True :=
      proceeds_skipBlanks.mono fun _ _ _ _ _ => trivial
    exact hblanks.ensures.gives.mono fun _ _ _ ⟨_, ⟨ho, _⟩, _⟩ => ho.same.phase_eq
  · have hnone : stream[pos + 0]? = none := List.getElem?_eq_none (by omega)
    refine gives_repeating (fun _ s₁ pos₁ => s₁ = s ∧ pos₁ = pos) ?_ ⟨rfl, rfl⟩
    rintro _ _ _ ⟨rfl, rfl⟩
    rw [gives_bind, gives_byte?, hnone]
    exact (gives_pure _).mpr rfl

/-- Readings that begin with blanks are compared behind them. -/
theorem ends_skipBlanks {f : Option UInt8 → Reading β} {g : Option UInt8 → Reading γ} {b : β}
    {c : γ} (hs : s.Alike s')
    (hx : (skipBlanks >>= f).Ends settings stream s pos b s₁ pos₁)
    (hy : (skipBlanks >>= g).Ends settings stream s' pos c s₁' pos₁') :
    ∃ first s₂ s₂' pos₂, s₂.Alike s₂' ∧ s₂'.phase = s'.phase ∧
      (f first).Ends settings stream s₂ pos₂ b s₁ pos₁ ∧
      (g first).Ends settings stream s₂' pos₂ c s₁' pos₁' := by
  obtain ⟨first, s₂, pos₂, hx₁, hx₂⟩ := ends_bind.mp hx
  obtain ⟨first', s₂', pos₂', hy₁, hy₂⟩ := ends_bind.mp hy
  obtain ⟨rfl, rfl, hs₂⟩ := (blind_skipBlanks.twin hs).run _ _ _ _ _ _ hx₁ hy₁
  exact ⟨_, s₂, s₂', _, hs₂, gives_skipBlanks_phase.ends hy₁, hx₂, hy₂⟩

/-! ## Reading on over comments -/

/-- Calls that read on over surfaced comments, up to a token of another kind or to the end. -/
inductive ReadsOn (settings : Settings) (stream : List UInt8) : State → Nat → State → Nat → Prop where
  | stop {s s₁ : State} {pos pos₁ : Nat} {found : Bool}
      (h : token.Ends settings stream s.clearSlot pos found s₁ pos₁)
      (hfound : found = true → s₁.token ≠ .comment) : ReadsOn settings stream s pos s₁ pos₁
  | comment {s s₁ s₂ : State} {pos pos₁ pos₂ : Nat}
      (h : token.Ends settings stream s.clearSlot pos true s₁ pos₁) (htoken : s₁.token = .comment)
      (hrest : ReadsOn settings stream s₁ pos₁ s₂ pos₂) : ReadsOn settings stream s pos s₂ pos₂

/-- Behind what one call found: the end, or more calls behind a comment. -/
def Goes (settings : Settings) (stream : List UInt8) (s₂ : State) (pos₂ : Nat) (found : Bool)
    (s₁ : State) (pos₁ : Nat) : Prop :=
  (found = true → s₁.token ≠ .comment) ∧ s₁ = s₂ ∧ pos₁ = pos₂ ∨
    found = true ∧ s₁.token = .comment ∧ ReadsOn settings stream s₁ pos₁ s₂ pos₂

theorem ReadsOn.goes (h : ReadsOn settings stream s pos s₁ pos₁) :
    ∃ found s' pos', token.Ends settings stream s.clearSlot pos found s' pos' ∧
      Goes settings stream s₁ pos₁ found s' pos' := by
  cases h with
  | stop h hfound => exact ⟨_, _, _, h, .inl ⟨hfound, rfl, rfl⟩⟩
  | comment h htoken hrest => exact ⟨_, _, _, h, .inr ⟨rfl, htoken, hrest⟩⟩

/-! ## Repetitions -/

/-- How two turns that began alike may leave off: both go on, or the second stops at a comment, or
both stop. -/
inductive Abides (phase : Phase) (last : α → State → Bool → State → Prop) :
    Turn Unit α → State → Turn Unit Bool → State → Prop where
  | again {s₁ s₁' : State} (hs : s₁.Alike s₁') (hphase : s₁'.phase = phase) :
      Abides phase last (.again ()) s₁ (.again ()) s₁'
  | comment {s₁ s₁' : State} (hs : s₁.Alike s₁') (hphase : s₁'.phase = phase)
      (htoken : s₁'.token = .comment) : Abides phase last (.again ()) s₁ (.stop true) s₁'
  | stop {a : α} {s₁ s₁' : State} {found : Bool} (h : last a s₁ found s₁') :
      Abides phase last (.stop a) s₁ (.stop found) s₁'

/-- A repetition that passes comments, beside one that stops at each of them and is begun anew
behind it. The induction is on the turns of the first. -/
theorem Turns.abides {turn : Unit → Reading (Turn Unit α)}
    {turn' : Unit → Reading (Turn Unit Bool)} {phase : Phase}
    {last : α → State → Bool → State → Prop} {goes : Bool → State → Nat → Prop} {a : α}
    (hturn : ∀ {s s' pos r s₁ pos₁ r' s₁' pos₁'}, s.Alike s' → s'.phase = phase →
      (turn ()).Ends settings stream s pos r s₁ pos₁ →
      (turn' ()).Ends settings stream s' pos r' s₁' pos₁' →
      (∀ found, r' = .stop found → goes found s₁' pos₁') →
      pos₁' = pos₁ ∧ Abides phase last r s₁ r' s₁')
    (hresume : ∀ {s pos}, s.phase = phase → s.token = .comment → goes true s pos →
      ∃ found s₁ pos₁, Turns turn' settings stream () s.clearSlot pos found s₁ pos₁ ∧
        goes found s₁ pos₁)
    {x y : Unit} (h : Turns turn settings stream x s pos a s₁ pos₁) (hs : s.Alike s')
    (hphase : s'.phase = phase) (h' : Turns turn' settings stream y s' pos found s₁' pos₁')
    (hgoes : goes found s₁' pos₁') :
    ∃ found s₂, last a s₁ found s₂ ∧ goes found s₂ pos₁ := by
  induction h generalizing y s' found s₁' pos₁' with
  | stop hx =>
      cases h' with
      | stop hy =>
          obtain ⟨rfl, hlast⟩ := hturn hs hphase hx hy (by rintro _ ⟨⟩; exact hgoes)
          cases hlast with
          | stop hlast => exact ⟨found, s₁', hlast, hgoes⟩
      | again hy =>
          obtain ⟨-, hlast⟩ := hturn hs hphase hx hy nofun
          cases hlast
  | again hx hrest ih =>
      cases h' with
      | stop hy =>
          obtain ⟨rfl, hlast⟩ := hturn hs hphase hx hy (by rintro _ ⟨⟩; exact hgoes)
          cases hlast with
          | comment hs₁ hphase₁ htoken =>
              obtain ⟨found', s₂', pos₂', hturns, hgoes'⟩ := hresume hphase₁ htoken hgoes
              have hclear : Alike _ s₁'.clearSlot := ⟨hs₁.lines_eq, hs₁.phase_eq, hs₁.frames_eq⟩
              exact ih hclear hphase₁ hturns hgoes'
      | again hy hrest' =>
          obtain ⟨rfl, hlast⟩ := hturn hs hphase hx hy nofun
          cases hlast with
          | again hs₁ hphase₁ => exact ih hs₁ hphase₁ hrest' hgoes

theorem Twin.abides {phase : Phase} {last : α → State → Bool → State → Prop}
    {x : Reading (Turn Unit α)} {y : Reading (Turn Unit Bool)} {r : Turn Unit α}
    {r' : Turn Unit Bool}
    (h : x.Twin y settings stream s s' pos fun r s₁ r' s₁' _ => Abides phase last r s₁ r' s₁')
    (hx : x.Ends settings stream s pos r s₁ pos₁) (hy : y.Ends settings stream s' pos r' s₁' pos₁') :
    pos₁' = pos₁ ∧ Abides phase last r s₁ r' s₁' :=
  h.run _ _ _ _ _ _ hx hy

/-- A comment is passed on one side, and passed or surfaced on the other. -/
theorem abides_comment {phase : Phase} {last : α → State → Bool → State → Prop} (surface : Bool)
    {r : Turn Unit α} {r' : Turn Unit Bool} (hs : s.Alike s') (hphase : s'.phase = phase)
    (hx : (do comment false; return .again () : Reading (Turn Unit α)).Ends settings stream s pos r
      s₁ pos₁)
    (hy : (passComment surface).Ends settings stream s' pos r' s₁' pos₁') :
    pos₁' = pos₁ ∧ Abides phase last r s₁ r' s₁' := by
  obtain ⟨_, _, _, hx, hr⟩ := ends_bind.mp hx
  obtain ⟨_, _, _, hy, hr'⟩ := ends_bind.mp hy
  cases hr
  cases hr'
  obtain ⟨rfl, hs₁⟩ := (twin_comment surface hs).run _ _ _ _ _ _ hx hy
  obtain ⟨-, s₂, hsame, hs₂⟩ := (gives_comment surface).ends hy
  refine ⟨rfl, ?_⟩
  cases surface with
  | false =>
      obtain rfl := hs₂
      exact .again hs₁ (hsame.phase_eq.trans hphase)
  | true =>
      obtain ⟨slot, rfl⟩ := hs₂
      exact .comment hs₁ (hsame.phase_eq.trans hphase) rfl

/-! ## Behind a value -/

variable {s₂ : State} {pos₂ : Nat} {found' : Bool}

theorem Goes.stops (h : Goes settings stream s₂ pos₂ found s pos)
    (hfound : found = true → s.token ≠ .comment) : s = s₂ ∧ pos = pos₂ := by
  rcases h with ⟨-, hs, hpos⟩ | ⟨hf, htoken, -⟩
  · exact ⟨hs, hpos⟩
  · exact absurd htoken (hfound hf)

theorem Goes.resume (h : Goes settings stream s₂ pos₂ true s pos) (htoken : s.token = .comment) :
    ∃ found s' pos', token.Ends settings stream s.clearSlot pos found s' pos' ∧
      Goes settings stream s₂ pos₂ found s' pos' := by
  rcases h with ⟨hf, -, -⟩ | ⟨-, -, hrest⟩
  · exact absurd htoken (hf rfl)
  · exact hrest.goes

theorem run_get_bind (f : State → Reading α) :
    ((get >>= f).run settings).run.run s = ((f s).run settings).run.run s := rfl

theorem run_token_part (hphase : s.phase ≠ .postValue) :
    (token.run settings).run.run s = (part.run settings).run.run s := by
  unfold token
  rw [run_get_bind, if_neg hphase]

theorem ends_token (hphase : s.phase ≠ .postValue) :
    token.Ends settings stream s pos found s₁ pos₁ ↔
      part.Ends settings stream s pos found s₁ pos₁ := by
  unfold Ends
  rw [run_token_part hphase]

theorem ends_epilogue (hphase : s.phase = .finished) :
    part.Ends settings stream s pos found s₁ pos₁ ↔
      (epilogue settings.surfaceComments).Ends settings stream s pos found s₁ pos₁ := by
  unfold part
  rw [ends_get_bind, hphase]
  exact ends_read_bind

/-- Both sides found the same, and no comment. -/
def Agree (found : Bool) (s₁ : State) (found' : Bool) (s₁' : State) : Prop :=
  s₁.Alike s₁' ∧ found' = found ∧ (found = true → s₁'.token ≠ .comment)

theorem epilogue_beside (h : (epilogue false).Ends settings stream s pos found s₁ pos₁)
    (hs : s.Alike s') (hphase : s'.phase = .finished)
    (h' : (epilogue settings.surfaceComments).Ends settings stream s' pos found' s₁' pos₁')
    (hgoes : Goes settings stream s₂ pos₂ found' s₁' pos₁') : s₁.Alike s₂ ∧ pos₂ = pos₁ := by
  obtain ⟨found'', s₂', ⟨halike, rfl, htoken⟩, hgoes'⟩ : ∃ found'' s₂',
      Agree found s₁ found'' s₂' ∧ Goes settings stream s₂ pos₂ found'' s₂' pos₁ := by
    refine Turns.abides ?_ ?_ h.turns hs hphase h'.turns hgoes
    · intro s s' pos r s₁ pos₁ r' s₁' pos₁' hs hphase hx hy _
      obtain ⟨first, s₂, s₂', pos₂, hs₂, hphase₂, hx, hy⟩ := ends_skipBlanks hs hx hy
      split at hx
      · cases hx
        cases hy
        exact ⟨rfl, .stop ⟨⟨hs₂.lines_eq, hs₂.phase_eq, hs₂.frames_eq⟩, rfl, nofun⟩⟩
      · exact abides_comment _ hs₂ (hphase₂.trans hphase) hx hy
      · exact absurd hx not_ends_unexpected
    · intro s pos hphase htoken hgoes
      obtain ⟨found, s', pos', hends, hgoes'⟩ := hgoes.resume htoken
      refine ⟨found, s', pos', ?_, hgoes'⟩
      have hfinished : s.clearSlot.phase = .finished := hphase
      rw [ends_token (by rw [hfinished]; nofun), ends_epilogue hfinished] at hends
      exact hends.turns
  obtain ⟨rfl, rfl⟩ := hgoes'.stops htoken
  exact ⟨halike, rfl⟩

/-- Behind what a separator found: what goes on behind a token, or a part behind none. -/
def Parts (settings : Settings) (stream : List UInt8) (s₂ : State) (pos₂ : Nat) (found : Bool)
    (s : State) (pos : Nat) : Prop :=
  if found = true then Goes settings stream s₂ pos₂ true s pos
  else ∃ found s₁ pos₁, part.Ends settings stream s pos found s₁ pos₁ ∧
    Goes settings stream s₂ pos₂ found s₁ pos₁

theorem ends_separator (hphase : s.phase = .postValue)
    (h : token.Ends settings stream s pos found s₁ pos₁)
    (hgoes : Goes settings stream s₂ pos₂ found s₁ pos₁) :
    ∃ found s₁ pos₁,
      (separator settings.surfaceComments).Ends settings stream s pos found s₁ pos₁ ∧
        Parts settings stream s₂ pos₂ found s₁ pos₁ := by
  have htoken : (if s.phase = .postValue then do
        if ← separator (← read).surfaceComments then return true else part
      else part : Reading Bool).Ends settings stream s pos found s₁ pos₁ := h
  rw [if_pos hphase, ends_read_bind] at htoken
  obtain ⟨found', s', pos', hsep, hrest⟩ := ends_bind.mp htoken
  refine ⟨found', s', pos', hsep, ?_⟩
  cases found' with
  | true =>
      cases hrest
      exact hgoes
  | false => exact ⟨found, s₁, pos₁, hrest, hgoes⟩

theorem twin_found {phase : Phase} {x y : Reading Unit}
    (h : x.Twin y settings stream s s' pos Level) :
    (Reading.found x : Reading (Turn Unit Bool)).Twin (Reading.found y) settings stream s s' pos
      fun r s₁ r' s₁' _ => Abides phase Agree r s₁ r' s₁' :=
  h.bind fun _ _ _ _ _ h => .pure (.stop ⟨h.1, rfl, fun _ => h.2⟩)

theorem twin_resumption {phase : Phase} (hs : s.Alike s') : (do
      if (← read).multipleValues && (← get).frames.isEmpty then
        update State.resumeContainer
        return .stop false
      else unexpected .afterValue : Reading (Turn Unit Bool)).Twin (do
      if (← read).multipleValues && (← get).frames.isEmpty then
        update State.resumeContainer
        return .stop false
      else unexpected .afterValue : Reading (Turn Unit Bool)) settings stream s s' pos
        fun r s₁ r' s₁' _ => Abides phase Agree r s₁ r' s₁' := by
  refine twin_read_bind (twin_get_bind ?_)
  rw [hs.frames_eq]
  split
  · refine Blind.next (blind_update (fun _ _ hkin => resumeContainer_kin hkin) fun _ _ _ h =>
      h.resumeContainer) hs fun _ _ _ _ hs₁ => ?_
    exact .pure (.stop ⟨hs₁, rfl, nofun⟩)
  · exact .of_left (gives_unexpected _)

theorem separator_beside (h : (separator false).Ends settings stream s pos found s₁ pos₁)
    (hs : s.Alike s') (hphase : s'.phase = .postValue)
    (h' : (separator settings.surfaceComments).Ends settings stream s' pos found' s₁' pos₁')
    (hparts : Parts settings stream s₂ pos₂ found' s₁' pos₁') :
    ∃ s₂', s₁.Alike s₂' ∧ (found = true → s₂'.token ≠ .comment) ∧
      Parts settings stream s₂ pos₂ found s₂' pos₁ := by
  obtain ⟨found'', s₂', ⟨halike, rfl, htoken⟩, hparts'⟩ : ∃ found'' s₂',
      Agree found s₁ found'' s₂' ∧ Parts settings stream s₂ pos₂ found'' s₂' pos₁ := by
    refine Turns.abides ?_ ?_ h.turns hs hphase h'.turns hparts
    · intro s s' pos r s₁ pos₁ r' s₁' pos₁' hs hphase hx hy _
      obtain ⟨first, s₂, s₂', pos₂, hs₂, hphase₂, hx, hy⟩ := ends_skipBlanks hs hx hy
      cases first with
      | none =>
          cases hx
          cases hy
          exact ⟨rfl, .stop ⟨⟨hs₂.lines_eq, rfl, hs₂.frames_eq⟩, rfl, nofun⟩⟩
      | some b =>
          dsimp only at hx hy
          generalize Lead.ofByte b = lead at hx hy
          cases lead with
          | closing c =>
              exact (twin_found (twin_closeContainer c hs₂)).abides hx hy
          | slash => exact abides_comment _ hs₂ (hphase₂.trans hphase) hx hy
          | comma =>
              cases hx
              cases hy
              exact ⟨rfl, .stop ⟨hs₂.resumeContainer, rfl, nofun⟩⟩
          | _ => exact (twin_resumption hs₂).abides hx hy
    · intro s pos hphase htoken hparts
      obtain ⟨found, s', pos', hends, hgoes⟩ := Goes.resume hparts htoken
      have hseparator : s.clearSlot.phase = .postValue := hphase
      obtain ⟨found', s'', pos'', hsep, hparts'⟩ := ends_separator hseparator hends hgoes
      exact ⟨found', s'', pos'', hsep.turns, hparts'⟩
  exact ⟨s₂', halike, htoken, hparts'⟩

/-! ## Values -/

/-- A value was read on one side, and there was no comment on the other. -/
def Matched (_ : Unit) (s₁ : State) (found : Bool) (s₁' : State) : Prop :=
  s₁.Alike s₁' ∧ (found = true → s₁'.token ≠ .comment)

theorem twin_stop {phase : Phase} {x y : Reading Unit}
    (h : x.Twin y settings stream s s' pos Level) :
    (Turn.stop <$> x : Reading (Turn Unit Unit)).Twin (Reading.found y) settings stream s s' pos
      fun r s₁ r' s₁' _ => Abides phase Matched r s₁ r' s₁' := by
  rw [← bind_pure_comp]
  exact h.bind fun _ _ _ _ _ h => .pure (.stop ⟨h.1, fun _ => h.2⟩)

/-- Where a value may come next, a part is a value. -/
theorem run_part_value (hphase : s.phase.expectsValue = true) :
    (part.run settings).run.run s = (value.run settings).run.run s := by
  unfold part
  rw [run_get_bind]
  cases hp : s.phase with
  | start => rfl
  | property => rfl
  | opened c => cases c <;> simp_all [Phase.expectsValue]
  | within c => cases c <;> simp_all [Phase.expectsValue]
  | postValue => simp [hp, Phase.expectsValue] at hphase
  | finished => simp [hp, Phase.expectsValue] at hphase
  | closed => simp [hp, Phase.expectsValue] at hphase

theorem ends_value (hphase : s.phase.expectsValue = true) :
    part.Ends settings stream s pos found s₁ pos₁ ↔
      value.Ends settings stream s pos found s₁ pos₁ := by
  unfold Ends
  rw [run_part_value hphase]

theorem gives_opened (c : Container) :
    (do advance 1; openContainer c .empty : Reading Unit).Gives settings stream s pos
      fun _ s₁ _ => s₁.token = .opening c := by
  unfold openContainer
  rw [gives_bind, gives_advance, gives_bind, gives_modify, gives_bind, gives_read]
  split
  · rw [gives_bind, gives_get]
    split
    · exact gives_fail _
    · exact (gives_pure _).mpr rfl
  · exact (gives_pure _).mpr rfl

/-- Behind a comment, the value that was due comes next. -/
theorem Goes.resume_value (hgoes : Goes settings stream s₂ pos₂ true s pos)
    (hphase : s.phase.expectsValue = true) (htoken : s.token = .comment) :
    ∃ found s' pos', value.Ends settings stream s.clearSlot pos found s' pos' ∧
      Goes settings stream s₂ pos₂ found s' pos' := by
  obtain ⟨found, s', pos', hends, hgoes'⟩ := hgoes.resume htoken
  have hexpects : s.clearSlot.phase.expectsValue = true := hphase
  have hne : s.clearSlot.phase ≠ .postValue := by
    rintro heq
    simp [heq, Phase.expectsValue] at hexpects
  rw [ends_token hne, ends_value hexpects] at hends
  exact ⟨found, s', pos', hends, hgoes'⟩

/-- A value in any form ends where the token that stands there ends, unless it is an array of
bytes. -/
theorem requestedValue_beside (hphase : s'.phase.expectsValue = true) (hs : s.Alike s')
    (h : (requestedValue request).Ends settings stream s pos () s₁ pos₁)
    (h' : value.Ends settings stream s' pos found' s₁' pos₁')
    (hgoes : Goes settings stream s₂ pos₂ found' s₁' pos₁')
    (harray : request = .bytes → s₂.token ≠ .opening .array) : s₁.Alike s₂ ∧ pos₂ = pos₁ := by
  obtain ⟨found'', s₂', ⟨halike, htoken⟩, hgoes'⟩ : ∃ found'' s₂',
      Matched () s₁ found'' s₂' ∧ Goes settings stream s₂ pos₂ found'' s₂' pos₁ := by
    refine Turns.abides ?_ ?_ h.turns hs rfl h'.turns hgoes
    · intro s s'' pos r s₁ pos₁ r' s₁' pos₁' hs hphase' hx hy hgoes
      obtain ⟨first, s₂, s₂', pos₂, hs₂, hphase₂, hx, hy⟩ := ends_skipBlanks hs hx hy
      cases first with
      | none =>
          cases hx
          cases hy
          exact ⟨rfl, .stop ⟨⟨hs₂.lines_eq, hs₂.phase_eq, hs₂.frames_eq⟩, nofun⟩⟩
      | some b =>
          dsimp only at hx hy
          generalize Lead.ofByte b = lead at hx hy
          have hbytes : lead = .opening .array → request ≠ .bytes := by
            rintro rfl hrequest
            obtain ⟨_, _, _, hopened, hr'⟩ := ends_bind.mp hy
            cases hr'
            have htoken := (gives_opened .array).ends hopened
            obtain ⟨rfl, -⟩ := (hgoes true rfl).stops (by simp [htoken])
            exact harray hrequest htoken
          by_cases hslash : lead = .slash
          · subst hslash
            exact abides_comment _ hs₂ (hphase₂.trans hphase') hx (ends_read_bind.mp hy)
          refine Twin.abides ?_ hx hy
          have hother : ∀ {y : Reading (Turn Unit Bool)},
              (Turn.stop <$> unexpectedConsumed .value : Reading (Turn Unit Unit)).Twin y settings
                stream s₂ s₂' pos₂ fun r s₁ r' s₁' _ => Abides s'.phase Matched r s₁ r' s₁' :=
            .of_left ((gives_map _ _).mpr (gives_unexpectedConsumed _))
          cases lead with
          | quote mark =>
              exact twin_stop (((twin_stringValue mark request .plain hs₂).rests
                fun _ => rests_convertText request).level (tells_stringValue _ _))
          | letterN => exact twin_stop (twin_requireNull hs₂)
          | special literal => exact twin_stop (twin_specialValue literal request hs₂)
          | minus => exact twin_stop (twin_negativeValue request hs₂)
          | number =>
              exact twin_stop ((twin_requestedNumber request hs₂).level (tells_numberValue .plain))
          | boolean truth => exact twin_stop (twin_requestedBoolean truth request hs₂)
          | opening c =>
              cases c with
              | array =>
                  dsimp only
                  rw [if_neg (hbytes rfl)]
                  exact hother
              | object => exact hother
              | constructor => exact hother
          | slash => exact absurd rfl hslash
          | comma => exact ⟨fun _ _ _ _ _ _ hx => nomatch hx⟩
          | closing c =>
              cases c with
              | array => exact twin_stop (twin_endOfArray hs₂)
              | object => exact hother
              | constructor => exact hother
          | undefined => exact hother
          | other => exact hother
    · intro s pos hp htoken hgoes
      obtain ⟨found, s', pos', hends, hgoes'⟩ := hgoes.resume_value (hp ▸ hphase) htoken
      exact ⟨found, s', pos', hends.turns, hgoes'⟩
  obtain ⟨rfl, rfl⟩ := hgoes'.stops htoken
  exact ⟨halike, rfl⟩

/-! ## Whole calls -/

theorem requestedPart_beside (hs : s.Alike s')
    (h : (requestedPart request).Ends settings stream s pos () s₁ pos₁)
    (h' : part.Ends settings stream s' pos found' s₁' pos₁')
    (hgoes : Goes settings stream s₂ pos₂ found' s₁' pos₁')
    (harray : request = .bytes → s₂.token ≠ .opening .array) : s₁.Alike s₂ ∧ pos₂ = pos₁ := by
  unfold requestedPart at h
  rw [ends_get_bind] at h
  dsimp only at h
  split at h
  · rename_i hexpects
    rw [← hs.phase_eq] at hexpects
    exact requestedValue_beside hexpects hs h ((ends_value hexpects).mp h') hgoes harray
  · split at h
    · rename_i hfinished
      obtain ⟨found, _, _, hx, hr⟩ := ends_bind.mp h
      cases hr
      rw [← hs.phase_eq] at hfinished
      exact epilogue_beside hx hs hfinished ((ends_epilogue hfinished).mp h') hgoes
    · rename_i hclosed
      rw [← hs.phase_eq] at hclosed
      unfold part at h'
      rw [ends_get_bind, hclosed] at h'
      cases h
      cases h'
      obtain ⟨rfl, rfl⟩ := hgoes.stops nofun
      exact ⟨hs, rfl⟩
    · exact absurd h not_ends_fail

/-- A read on request ends where reading on over comments ends, unless it reads an array of bytes. -/
theorem requested_readsOn
    (h : (requested request).Ends settings stream s.clearSlot pos () s₁ pos₁)
    (h' : ReadsOn settings stream s pos s₂ pos₂)
    (harray : request = .bytes → s₂.token ≠ .opening .array) : s₁.Alike s₂ ∧ pos₂ = pos₁ := by
  obtain ⟨found', s', pos', hends, hgoes⟩ := h'.goes
  unfold requested at h
  rw [ends_get_bind] at h
  split at h
  · rename_i hphase
    obtain ⟨found'', s₃, pos₃, hsep', hparts⟩ := ends_separator hphase hends hgoes
    obtain ⟨found, s₄, pos₄, hsep, hrest⟩ := ends_bind.mp h
    obtain ⟨s₄', halike, htoken, hparts'⟩ := separator_beside hsep (.refl _) hphase hsep' hparts
    cases found with
    | true =>
        cases hrest
        obtain ⟨rfl, rfl⟩ := Goes.stops hparts' htoken
        exact ⟨halike, rfl⟩
    | false =>
        obtain ⟨found, s₅, pos₅, hpart, hgoes'⟩ := hparts'
        exact requestedPart_beside halike hrest hpart hgoes' harray
  · rename_i hphase
    exact requestedPart_beside (.refl _) h ((ends_token hphase).mp hends) hgoes harray

end JsonPull.Reading
