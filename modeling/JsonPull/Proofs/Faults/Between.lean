import JsonPull.Proofs.Reading.Outcome

/-! # Between two tokens

Before a token, blanks and a separator are passed one after the other. Whatever was passed of them,
the token is the one that would have been read from the start. -/

namespace JsonPull.Reading

variable {α : Type} {settings : Settings} {stream : List UInt8} {s s₁ s₂ : State}
  {pos pos₁ pos₂ : Nat}

/-! ## Passing blanks -/

/-- One blank or one line break was passed. -/
inductive Blank (settings : Settings) (stream : List UInt8) :
    State → Nat → State → Nat → Prop where
  | feed {s : State} {pos : Nat} (h : stream[pos]? = some 0x0A) :
      Blank settings stream s pos { s with lines := s.lines.next (pos + 1) } (pos + 1)
  | paired {s : State} {pos : Nat} (h : stream[pos]? = some 0x0D)
      (hfeed : stream[pos + 1]? = some 0x0A) :
      Blank settings stream s pos { s with lines := s.lines.next (pos + 2) } (pos + 2)
  | lone {s : State} {pos : Nat} (h : stream[pos]? = some 0x0D)
      (hfeed : stream[pos + 1]? ≠ some 0x0A) :
      Blank settings stream s pos { s with lines := s.lines.next (pos + 1) } (pos + 1)
  | space {s : State} {pos length : Nat} {b : UInt8} (h : stream[pos]? = some b)
      (hreturn : b ≠ 0x0D) (hfeed : b ≠ 0x0A) (hlength : 0 < length)
      (hblank : (blankLength? .unread).Succeeds settings stream s pos
        fun r s' pos' => r = some length ∧ s' = s ∧ pos' = pos) :
      Blank settings stream s pos s (pos + length)

theorem Blank.lt (h : Blank settings stream s pos s₁ pos₁) : pos < pos₁ := by
  cases h <;> omega

theorem Blank.lt_length (h : Blank settings stream s pos s₁ pos₁) : pos < stream.length := by
  cases h with
  | feed h => exact (List.getElem?_eq_some_iff.mp h).1
  | paired h _ => exact (List.getElem?_eq_some_iff.mp h).1
  | lone h _ => exact (List.getElem?_eq_some_iff.mp h).1
  | space h _ _ _ _ => exact (List.getElem?_eq_some_iff.mp h).1

theorem Blank.phase_eq (h : Blank settings stream s pos s₁ pos₁) : s₁.phase = s.phase := by
  cases h <;> rfl

theorem Blank.slot_eq (h : Blank settings stream s pos s₁ pos₁) : s₁.slot = s.slot := by
  cases h <;> rfl

theorem Blank.ascii {b : UInt8} (h : stream[pos]? = some b) (hreturn : b ≠ 0x0D) (hfeed : b ≠ 0x0A)
    (hascii : b < 0x80) (hblank : Text.isBlankByte b = true) :
    Blank settings stream s pos s (pos + 1) := by
  refine .space h hreturn hfeed Nat.one_pos ?_
  unfold blankLength?
  rw [succeeds_bind, succeeds_byte?, Nat.add_zero, h]
  dsimp only
  rw [if_pos hascii, hblank]
  exact (succeeds_pure _).mpr ⟨rfl, rfl, rfl⟩

/-- Skipping blanks goes on from any blank on the way. -/
theorem Blank.skipBlanks (h : Blank settings stream s pos s₁ pos₁)
    {post : Option UInt8 → State → Nat → Prop}
    (hrest : Reading.skipBlanks.Succeeds settings stream s₁ pos₁ post) :
    Reading.skipBlanks.Succeeds settings stream s pos post := by
  refine succeeds_repeating ?_
  have hagain : pos < pos₁ ∧ pos < stream.length ∧
      Reading.skipBlanks.Succeeds settings stream s₁ pos₁ post := ⟨h.lt, h.lt_length, hrest⟩
  rw [succeeds_bind, succeeds_byte?, Nat.add_zero]
  cases h with
  | feed hget =>
      rw [hget]
      change (takeFeed >>= fun _ => pure (Turn.again ())).Succeeds _ _ _ _ _
      rw [succeeds_bind, succeeds_takeFeed, succeeds_pure]
      exact hagain
  | paired hget hfeed =>
      rw [hget]
      change (takeReturn .unread >>= fun _ => pure (Turn.again ())).Succeeds _ _ _ _ _
      rw [succeeds_bind, succeeds_takeReturn_paired hfeed, succeeds_pure]
      exact hagain
  | lone hget hfeed =>
      rw [hget]
      change (takeReturn .unread >>= fun _ => pure (Turn.again ())).Succeeds _ _ _ _ _
      rw [succeeds_bind, succeeds_takeReturn_lone hfeed, succeeds_pure]
      exact hagain
  | space hget hreturn hfeed hlength hblank =>
      rw [hget]
      split
      · rename_i heq
        cases heq
      · rename_i heq
        cases heq
        exact absurd rfl hreturn
      · rename_i heq
        cases heq
        exact absurd rfl hfeed
      · rw [succeeds_bind]
        refine hblank.mono ?_
        rintro _ _ _ ⟨rfl, rfl, rfl⟩
        dsimp only
        rw [succeeds_bind, succeeds_advance, succeeds_pure]
        exact hagain

/-! ## Repetitions -/

variable {post : α → State → Nat → Prop} {turn : Unit → Reading (Turn Unit α)}

/-- A repetition that succeeds from the end of its first turn succeeds from any place that leads to
the same turn, if there are as many bytes left. -/
theorem Succeeds.repeating_first (hle : pos ≤ pos₁)
    (hturn : ∀ {post : Turn Unit α → State → Nat → Prop},
      (turn ()).Succeeds settings stream s₁ pos₁ post → (turn ()).Succeeds settings stream s pos post)
    (h : (repeating turn ()).Succeeds settings stream s₁ pos₁ post) :
    (repeating turn ()).Succeeds settings stream s pos post := by
  unfold repeating at h ⊢
  rw [succeeds_bind, succeeds_budget] at h ⊢
  unfold Reading.repeatAtMost at h ⊢
  rw [succeeds_bind] at h ⊢
  refine (hturn h).mono ?_
  rintro (x | a) s' pos' hr
  · exact hr.repeatAtMost (by omega)
  · exact hr

theorem Blank.repeating {f : Option UInt8 → Reading (Turn Unit α)}
    (h : Blank settings stream s pos s₁ pos₁)
    (hrest : (Reading.repeating (fun _ : Unit => Reading.skipBlanks >>= f) ()).Succeeds settings
      stream s₁ pos₁ post) :
    (Reading.repeating (fun _ : Unit => Reading.skipBlanks >>= f) ()).Succeeds settings stream s pos
      post := by
  refine hrest.repeating_first h.lt.le fun hturn => ?_
  rw [succeeds_bind] at hturn ⊢
  exact h.skipBlanks hturn

/-! ## Passing comments -/

/-- A solid byte is where skipping blanks stops. -/
def Solid (b : UInt8) : Prop :=
  b < 0x80 ∧ Text.isBlankByte b = false

theorem succeeds_skipBlanks_solid {b : UInt8} (hget : stream[pos]? = some b) (h : Solid b)
    {post : Option UInt8 → State → Nat → Prop} (hpost : post (some b) s pos) :
    skipBlanks.Succeeds settings stream s pos post := by
  refine succeeds_repeating ?_
  rw [succeeds_bind, succeeds_byte?, Nat.add_zero, hget]
  obtain ⟨hascii, hblank⟩ := h
  split
  · rename_i heq
    cases heq
  · rename_i heq
    cases heq
    cases hblank
  · rename_i heq
    cases heq
    cases hblank
  · rename_i heq
    cases heq
    unfold blankLength?
    rw [succeeds_bind, succeeds_bind, succeeds_byte?, Nat.add_zero, hget]
    dsimp only
    rw [if_pos hascii, hblank]
    exact (succeeds_pure _).mpr ((succeeds_pure _).mpr hpost)

/-- A comment that is not surfaced was passed. -/
structure Passed (settings : Settings) (stream : List UInt8) (s : State) (pos : Nat) (s₁ : State)
    (pos₁ : Nat) : Prop where
  byte : stream[pos]? = some 0x2F
  hidden : settings.surfaceComments = false
  comment : (comment false).Succeeds settings stream s pos fun _ s' pos' => s' = s₁ ∧ pos' = pos₁

theorem Passed.same (h : Passed settings stream s pos s₁ pos₁) : pos < pos₁ ∧ s.Same s₁ := by
  obtain ⟨_, _, _, hrun, rfl, rfl⟩ := h.comment.run
  obtain ⟨hlt, s₂, hsame, hs₂⟩ := (gives_comment false).run _ _ _ hrun
  obtain rfl := hs₂
  exact ⟨hlt, hsame⟩

theorem Passed.repeating {f : Option UInt8 → Reading (Turn Unit Bool)}
    {post : Bool → State → Nat → Prop} (h : Passed settings stream s pos s₁ pos₁)
    (hf : f (some 0x2F) = passComment false ∨
      f (some 0x2F) = do passComment (← read).surfaceComments)
    (hrest : (Reading.repeating (fun _ : Unit => skipBlanks >>= f) ()).Succeeds settings stream s₁
      pos₁ post) :
    (Reading.repeating (fun _ : Unit => skipBlanks >>= f) ()).Succeeds settings stream s pos post := by
  have hpass : (passComment false).Succeeds settings stream s pos
      (Turn.Reaches (fun _ : Unit => skipBlanks >>= f) settings stream pos post) := by
    unfold passComment
    rw [succeeds_bind]
    refine h.comment.mono ?_
    rintro _ _ _ ⟨rfl, rfl⟩
    exact (succeeds_pure _).mpr ⟨h.same.1, (List.getElem?_eq_some_iff.mp h.byte).1, hrest⟩
  refine succeeds_repeating ?_
  rw [succeeds_bind]
  refine succeeds_skipBlanks_solid h.byte ⟨by decide, by decide⟩ ?_
  rcases hf with hf | hf
  · rw [hf]
    exact hpass
  · rw [hf, succeeds_bind, succeeds_read, h.hidden]
    exact hpass

/-- What was passed makes no difference to what is read behind it. -/
structure Skips (settings : Settings) (stream : List UInt8) (s : State) (pos : Nat) (s₁ : State)
    (pos₁ : Nat) : Prop where
  phase_eq : s₁.phase = s.phase
  value : ∀ post, value.Succeeds settings stream s₁ pos₁ post →
    value.Succeeds settings stream s pos post
  member : ∀ post, member.Succeeds settings stream s₁ pos₁ post →
    member.Succeeds settings stream s pos post
  separator : ∀ post, (separator settings.surfaceComments).Succeeds settings stream s₁ pos₁ post →
    (separator settings.surfaceComments).Succeeds settings stream s pos post
  epilogue : ∀ post, (epilogue settings.surfaceComments).Succeeds settings stream s₁ pos₁ post →
    (epilogue settings.surfaceComments).Succeeds settings stream s pos post

theorem Blank.skips (h : Blank settings stream s pos s₁ pos₁) : Skips settings stream s pos s₁ pos₁ :=
  ⟨h.phase_eq, fun _ => h.repeating, fun _ => h.repeating, fun _ => h.repeating,
    fun _ => h.repeating⟩

theorem Passed.skips (h : Passed settings stream s pos s₁ pos₁) :
    Skips settings stream s pos s₁ pos₁ := by
  refine ⟨h.same.2.phase_eq, fun _ => h.repeating (.inr rfl), fun _ => h.repeating (.inr rfl), ?_, ?_⟩
  · rw [h.hidden]
    exact fun _ => h.repeating (.inl rfl)
  · rw [h.hidden]
    exact fun _ => h.repeating (.inl rfl)

/-! ## Tokens -/

variable {post : Bool → State → Nat → Prop}

theorem Skips.part (h : Skips settings stream s pos s₁ pos₁) (hopen : s.phase ≠ .closed)
    (hrest : Reading.part.Succeeds settings stream s₁ pos₁ post) :
    Reading.part.Succeeds settings stream s pos post := by
  unfold Reading.part at hrest ⊢
  rw [succeeds_bind, succeeds_get] at hrest ⊢
  rw [h.phase_eq] at hrest
  cases hp : s.phase with
  | start =>
      rw [hp] at hrest
      exact h.value _ hrest
  | property =>
      rw [hp] at hrest
      exact h.value _ hrest
  | opened c =>
      rw [hp] at hrest
      cases c with
      | object => exact h.member _ hrest
      | array => exact h.value _ hrest
      | constructor => exact h.value _ hrest
  | within c =>
      rw [hp] at hrest
      cases c with
      | object => exact h.member _ hrest
      | array => exact h.value _ hrest
      | constructor => exact h.value _ hrest
  | postValue =>
      rw [hp] at hrest
      exact absurd hrest (not_succeeds_fail _)
  | finished =>
      rw [hp] at hrest
      dsimp only at hrest ⊢
      rw [succeeds_bind, succeeds_read] at hrest ⊢
      exact h.epilogue _ hrest
  | closed => exact absurd hp hopen

theorem Skips.token (h : Skips settings stream s pos s₁ pos₁) (hopen : s.phase ≠ .closed)
    (hrest : Reading.token.Succeeds settings stream s₁ pos₁ post) :
    Reading.token.Succeeds settings stream s pos post := by
  unfold Reading.token at hrest ⊢
  rw [succeeds_bind, succeeds_get] at hrest ⊢
  rw [h.phase_eq] at hrest
  split
  · rename_i hphase
    rw [if_pos hphase] at hrest
    rw [succeeds_bind, succeeds_read, succeeds_bind] at hrest ⊢
    exact h.separator _ hrest
  · rename_i hphase
    rw [if_neg hphase] at hrest
    exact h.part hopen hrest

/-! ## Separators -/

/-- A separator that consumes what it consumes and changes nothing but the phase belongs to the
token behind it. -/
theorem token_of_separator (hphase : s.phase = .postValue) (hne : s₁.phase ≠ .postValue)
    (hseparator : (separator settings.surfaceComments).Succeeds settings stream s pos
      fun found s' pos' => found = false ∧ s' = s₁ ∧ pos' = pos₁)
    (hrest : token.Succeeds settings stream s₁ pos₁ post) :
    token.Succeeds settings stream s pos post := by
  unfold token at hrest ⊢
  rw [succeeds_bind, succeeds_get] at hrest ⊢
  rw [if_neg hne] at hrest
  rw [if_pos hphase, succeeds_bind, succeeds_read, succeeds_bind]
  refine hseparator.mono ?_
  rintro _ _ _ ⟨rfl, rfl, rfl⟩
  exact hrest

/-- A byte that neither closes a container nor begins a comment, nor is a comma. -/
def StartsValue (b : UInt8) : Prop :=
  (∀ c, Lead.ofByte b ≠ .closing c) ∧ Lead.ofByte b ≠ .slash ∧ Lead.ofByte b ≠ .comma

theorem succeeds_comma (surface : Bool) (hget : stream[pos]? = some 0x2C) :
    (separator surface).Succeeds settings stream s pos fun found s' pos' =>
      found = false ∧ s' = s.resumeContainer settings ∧ pos' = pos + 1 := by
  refine succeeds_repeating ?_
  rw [succeeds_bind]
  refine succeeds_skipBlanks_solid hget ⟨by decide, by decide⟩ ?_
  exact succeeds_takeComma.mpr ⟨rfl, rfl, rfl⟩

theorem succeeds_nextValue (surface : Bool) {b : UInt8} (hget : stream[pos]? = some b)
    (hsolid : Solid b) (hstart : StartsValue b) (hmultiple : settings.multipleValues = true)
    (htop : s.frames = []) :
    (separator surface).Succeeds settings stream s pos fun found s' pos' =>
      found = false ∧ s' = s.resumeContainer settings ∧ pos' = pos := by
  refine succeeds_repeating ?_
  rw [succeeds_bind]
  refine succeeds_skipBlanks_solid hget hsolid ?_
  dsimp only
  split
  · rename_i hlead
    exact absurd hlead (hstart.1 _)
  · rename_i hlead
    exact absurd hlead hstart.2.1
  · rename_i hlead
    exact absurd hlead hstart.2.2
  · rw [succeeds_bind, succeeds_read, succeeds_bind, succeeds_get, hmultiple, htop]
    change ((do update State.resumeContainer; return .stop false) :
      Reading (Turn Unit Bool)).Succeeds _ _ _ _ _
    rw [succeeds_bind, succeeds_update, succeeds_pure]
    exact ⟨rfl, rfl, rfl⟩

/-- From one place before a token to another: blanks and hidden comments were passed, and the
separator, as far as there is one. -/
inductive Between (settings : Settings) (stream : List UInt8) :
    State → Nat → State → Nat → Prop where
  | here (s : State) (pos : Nat) : Between settings stream s pos s pos
  | blank {s s₁ s₂ : State} {pos pos₁ pos₂ : Nat} (h : Blank settings stream s pos s₁ pos₁)
      (hopen : s.phase ≠ .closed) (hrest : Between settings stream s₁ pos₁ s₂ pos₂) :
      Between settings stream s pos s₂ pos₂
  | comment {s s₁ s₂ : State} {pos pos₁ pos₂ : Nat} (h : Passed settings stream s pos s₁ pos₁)
      (hopen : s.phase ≠ .closed) (hrest : Between settings stream s₁ pos₁ s₂ pos₂) :
      Between settings stream s pos s₂ pos₂
  | comma {s s₂ : State} {pos pos₂ : Nat} (hphase : s.phase = .postValue)
      (hget : stream[pos]? = some 0x2C)
      (hrest : Between settings stream (s.resumeContainer settings) (pos + 1) s₂ pos₂) :
      Between settings stream s pos s₂ pos₂
  | nextValue {s s₂ : State} {pos pos₂ : Nat} {b : UInt8} (hphase : s.phase = .postValue)
      (hget : stream[pos]? = some b) (hsolid : Solid b) (hstart : StartsValue b)
      (hmultiple : settings.multipleValues = true) (htop : s.frames = [])
      (hrest : Between settings stream (s.resumeContainer settings) pos s₂ pos₂) :
      Between settings stream s pos s₂ pos₂

/-- A token that is read behind what was passed is the one that is read from before it. -/
theorem Between.token (h : Between settings stream s pos s₁ pos₁)
    (hrest : Reading.token.Succeeds settings stream s₁ pos₁ post) :
    Reading.token.Succeeds settings stream s pos post := by
  induction h with
  | here => exact hrest
  | blank h hopen _ ih => exact h.skips.token hopen (ih hrest)
  | comment h hopen _ ih => exact h.skips.token hopen (ih hrest)
  | comma hphase hget _ ih =>
      exact token_of_separator hphase (State.phase_resumeContainer _ _) (succeeds_comma _ hget)
        (ih hrest)
  | nextValue hphase hget hsolid hstart hmultiple htop _ ih =>
      exact token_of_separator hphase (State.phase_resumeContainer _ _)
        (succeeds_nextValue _ hget hsolid hstart hmultiple htop) (ih hrest)

theorem Between.slot_eq (h : Between settings stream s pos s₁ pos₁) : s₁.slot = s.slot := by
  induction h with
  | here => rfl
  | blank h _ _ ih => exact ih.trans h.slot_eq
  | comment h _ _ ih => exact ih.trans h.same.2.slot_eq
  | comma _ _ _ ih => exact ih
  | nextValue _ _ _ _ _ _ _ ih => exact ih

end JsonPull.Reading
