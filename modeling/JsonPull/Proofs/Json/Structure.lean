import JsonPull.Proofs.Json.Scalar
import JsonPull.Reader.Structure

/-! # Single tokens of JSON

One call reads one token. What it finds depends on the phase, the kinds of the open containers and
what follows on the tape, and on nothing else. -/

namespace JsonPull

open JsonPull.Json

variable {settings : Settings} {stream blank text rest : List UInt8} {s s' : State} {pos pos' : Nat}
  {phase : Phase} {kinds : List Container} {c : Container} {b : UInt8}

/-- The phase behind a whole value that has these containers around it. -/
def completed (settings : Settings) (kinds : List Container) : Phase :=
  if kinds.isEmpty && !settings.multipleValues then .finished else .postValue

theorem completed_outermost (settings : Settings) :
    completed settings [] = .finished ∨ completed settings [] = .postValue := by
  unfold completed
  split
  · exact .inl rfl
  · exact .inr rfl

/-- A reader is in a phase, these containers are open, and `rest` follows. -/
structure Stands (stream : List UInt8) (phase : Phase) (kinds : List Container)
    (rest : List UInt8) (s : State) (pos : Nat) : Prop where
  phase_eq : s.phase = phase
  kinds_eq : s.frames.map Frame.kind = kinds
  ahead : Ahead stream pos rest

/-- A token was found, with its value, and where the reader is then. -/
structure Stops (stream : List UInt8) (token : Token) (value : Option Value) (phase : Phase)
    (kinds : List Container) (rest : List UInt8) (found : Bool) (s : State) (pos : Nat) : Prop where
  found_eq : found = true
  token_eq : s.token = token
  value_eq : s.slot.value? stream = value
  stands : Stands stream phase kinds rest s pos

theorem Stands.same (h : Stands stream phase kinds rest s pos) (hs : s.Same s')
    (hrest : Ahead stream pos' text) : Stands stream phase kinds text s' pos' :=
  ⟨hs.phase_eq.trans h.phase_eq, (congrArg (List.map Frame.kind) hs.frames_eq).trans h.kinds_eq,
    hrest⟩

theorem Stands.clearSlot (h : Stands stream phase kinds rest s pos) :
    Stands stream phase kinds rest s.clearSlot pos :=
  ⟨h.phase_eq, h.kinds_eq, h.ahead⟩

theorem Stands.isEmpty_frames (h : Stands stream phase kinds rest s pos) :
    s.frames.isEmpty = kinds.isEmpty := by
  rw [← h.kinds_eq, List.isEmpty_map]

theorem Stands.innermost? (h : Stands stream phase (c :: kinds) rest s pos) :
    s.innermost? = some c := by
  rw [State.innermost?, ← List.head?_map, h.kinds_eq, List.head?_cons]

theorem Published.stops {kind : Scalar} {value : Option Value}
    (h : Published settings stream kind value rest s s' pos')
    (hs : Stands stream phase kinds text s pos) :
    Stops stream (.scalar kind) value (completed settings kinds) kinds rest true s' pos' := by
  obtain ⟨slot, hslot, hsame⟩ := h.published
  refine ⟨rfl, ?_, ?_, ?_, ?_, h.ahead⟩
  · rw [hsame.token_eq, State.token_publishScalar]
  · rw [hsame.slot_eq, State.slot_publishScalar, hslot]
  · rw [hsame.phase_eq, State.phase_publishScalar, hs.isEmpty_frames, completed]
  · rw [hsame.frames_eq, State.kinds_publishScalar, hs.kinds_eq]

namespace Reading

variable {post : Bool → State → Nat → Prop}

theorem succeeds_found {σ : Type} {x : Reading Unit} {post : Turn σ Bool → State → Nat → Prop} :
    (found x).Succeeds settings stream s pos post ↔
      x.Succeeds settings stream s pos fun _ s' pos' => post (.stop true) s' pos' := by
  unfold found
  rw [succeeds_bind]
  simp only [succeeds_pure]

/-! ## Values -/

/-- What is read where a byte announces a value of JSON, or the end of an array. -/
def announced? : Lead → Option (Reading Unit)
  | .quote mark => some (stringValue mark .plain)
  | .boolean truth => some (booleanValue truth)
  | .letterN => some nullOrConstructor
  | .minus => some (negativeValue .plain (numberValue .plain))
  | .number => some (numberValue .plain)
  | .opening container => some do
    advance 1
    openContainer container .empty
  | .closing .array => some (closeContainer .array)
  | _ => none

theorem value_announced {x : Reading Unit} (hx : announced? (Lead.ofByte b) = some x)
    (hblank : IsBlank blank) (hsolid : b < 0x80 ∧ Text.isBlankByte b = false)
    (h : Ahead stream pos (blank ++ b :: rest)) :
    ∃ s' pos', s.Same s' ∧ Ahead stream pos' (b :: rest) ∧ ∀ post : Bool → State → Nat → Prop,
      value.Succeeds settings stream s pos post ↔
        x.Succeeds settings stream s' pos' fun _ => post true := by
  have hblanks : skipBlanks.Succeeds settings stream s pos fun b? s' pos' =>
      b? = some b ∧ s.Same s' ∧ Ahead stream pos' (b :: rest) :=
    succeeds_skipBlanks hblank (isSolid_cons hsolid rest) h fun s' pos' hs ha => ⟨rfl, hs, ha⟩
  obtain ⟨_, s', pos', ⟨rfl, hs, ha⟩, hexact⟩ := hblanks.exact
  refine ⟨s', pos', hs, ha, fun post => succeeds_repeating_stop fun post => ?_⟩
  rw [succeeds_bind, hexact]
  dsimp only
  generalize Lead.ofByte b = lead at hx
  cases lead with
  | quote | boolean | letterN | minus | number | opening =>
      cases hx
      exact succeeds_found
  | closing container =>
      cases container <;> cases hx
      exact succeeds_found
  | undefined | special | slash | comma | other => cases hx

theorem succeeds_part_value (hphase : s.phase.expectsValue = true) :
    part.Succeeds settings stream s pos post ↔ value.Succeeds settings stream s pos post := by
  unfold part
  rw [succeeds_bind, succeeds_get]
  generalize s.phase = phase at hphase ⊢
  cases phase with
  | start | property => rfl
  | opened c | within c =>
      cases c with
      | object => cases hphase
      | array | constructor => rfl
  | postValue | finished | closed => cases hphase

theorem succeeds_part_member (hphase : s.phase = .opened .object ∨ s.phase = .within .object) :
    part.Succeeds settings stream s pos post ↔ member.Succeeds settings stream s pos post := by
  unfold part
  rw [succeeds_bind, succeeds_get]
  rcases hphase with hphase | hphase <;> rw [hphase]

/-! ## Separators -/

/-- The next token is read as if the reader was in this phase before `rest`. -/
def Awaits (settings : Settings) (stream : List UInt8) (phase : Phase) (kinds : List Container)
    (rest : List UInt8) (s : State) (pos : Nat) : Prop :=
  ∃ s' pos', Stands stream phase kinds rest s' pos' ∧ ∀ post : Bool → State → Nat → Prop,
    token.Succeeds settings stream s pos post ↔ part.Succeeds settings stream s' pos' post

theorem Awaits.succeeds (h : Awaits settings stream phase kinds rest s pos)
    (hpart : ∀ s' pos', Stands stream phase kinds rest s' pos' →
      part.Succeeds settings stream s' pos' post) :
    token.Succeeds settings stream s pos post := by
  obtain ⟨s', pos', hstands, hiff⟩ := h
  exact (hiff post).mpr (hpart s' pos' hstands)

theorem succeeds_token (hphase : s.phase ≠ .postValue) :
    token.Succeeds settings stream s pos post ↔ part.Succeeds settings stream s pos post := by
  unfold token
  rw [succeeds_bind, succeeds_get, if_neg hphase]

theorem awaits_part (h : Stands stream phase kinds rest s pos) (hphase : phase ≠ .postValue) :
    Awaits settings stream phase kinds rest s pos :=
  ⟨s, pos, h, fun _ => succeeds_token (h.phase_eq ▸ hphase)⟩

/-- Behind a value, a separator comes first. -/
theorem succeeds_token_separated (hphase : s.phase = .postValue) :
    token.Succeeds settings stream s pos post ↔
      (separator settings.surfaceComments).Succeeds settings stream s pos fun found s' pos' =>
        if found then post true s' pos' else part.Succeeds settings stream s' pos' post := by
  unfold token
  rw [succeeds_bind, succeeds_get, if_pos hphase, succeeds_bind, succeeds_read, succeeds_bind]
  refine ⟨fun h => h.mono ?_, fun h => h.mono ?_⟩
  · rintro (_ | _) s' pos' hr
    · exact hr
    · exact (succeeds_pure true).mp hr
  · rintro (_ | _) s' pos' hr
    · exact hr
    · exact (succeeds_pure true).mpr hr

/-- Where the separator is no token, the next part follows. -/
theorem awaits_separated (hphase : s.phase = .postValue)
    (h : (separator settings.surfaceComments).Succeeds settings stream s pos fun found s' pos' =>
      found = false ∧ Stands stream phase kinds rest s' pos') :
    Awaits settings stream phase kinds rest s pos := by
  obtain ⟨_, s', pos', ⟨rfl, hstands⟩, hexact⟩ := h.exact
  refine ⟨s', pos', hstands, fun post => ?_⟩
  rw [succeeds_token_separated hphase, hexact, if_neg Bool.false_ne_true]

/-- Behind a comma, the innermost container goes on. -/
theorem awaits_comma (hblank : IsBlank blank)
    (h : Stands stream .postValue (c :: kinds) (blank ++ 0x2C :: rest) s pos) :
    Awaits settings stream (.within c) (c :: kinds) rest s pos := by
  apply awaits_separated h.phase_eq
  apply succeeds_repeating
  rw [succeeds_bind]
  refine succeeds_skipBlanks hblank (isSolid_cons (by decide) rest) h.ahead fun s' pos' hs ha => ?_
  have hstands := h.same hs ha
  change (advance 1 >>= fun _ => update State.resumeContainer >>= fun _ =>
    pure (Turn.stop false)).Succeeds _ _ _ _ _
  rw [succeeds_bind, succeeds_advance, succeeds_bind, succeeds_update, succeeds_pure]
  refine ⟨rfl, ?_, hstands.kinds_eq, ha.tail⟩
  rw [State.resumeContainer, hstands.innermost?]

/-- Behind a whole document, what begins a value begins the next one. -/
theorem awaits_next {x : Reading Unit} (hmultiple : settings.multipleValues = true)
    (hblank : IsBlank blank) (hx : announced? (Lead.ofByte b) = some x)
    (hclosing : Lead.ofByte b ≠ .closing .array)
    (hsolid : b < 0x80 ∧ Text.isBlankByte b = false)
    (h : Stands stream .postValue [] (blank ++ b :: rest) s pos) :
    Awaits settings stream .start [] (b :: rest) s pos := by
  apply awaits_separated h.phase_eq
  apply succeeds_repeating
  rw [succeeds_bind]
  refine succeeds_skipBlanks hblank (isSolid_cons hsolid rest) h.ahead fun s' pos' hs ha => ?_
  have hstands := h.same hs ha
  have hempty : s'.frames = [] := List.map_eq_nil_iff.mp hstands.kinds_eq
  have hresumed : Stands stream .start [] (b :: rest) (s'.resumeContainer settings) pos' := by
    refine ⟨?_, hstands.kinds_eq, ha⟩
    rw [State.resumeContainer, State.innermost?, hempty]
    exact if_pos hmultiple
  have hnext : ∀ post : Turn Unit Bool → State → Nat → Prop,
      post (.stop false) (s'.resumeContainer settings) pos' →
      (do
        if (← read).multipleValues && (← get).frames.isEmpty then
          update State.resumeContainer
          return .stop false
        else unexpected .afterValue : Reading (Turn Unit Bool)).Succeeds settings stream s' pos'
        post := by
    intro post hpost
    have hgoes : (settings.multipleValues && s'.frames.isEmpty) = true := by
      rw [hmultiple, hempty]
      rfl
    rw [succeeds_bind, succeeds_read, succeeds_bind, succeeds_get, if_pos hgoes, succeeds_bind,
      succeeds_update, succeeds_pure]
    exact hpost
  dsimp only [List.head?_cons]
  generalize Lead.ofByte b = lead at hx hclosing
  cases lead with
  | quote | boolean | letterN | minus | number | opening => exact hnext _ ⟨rfl, hresumed⟩
  | closing container =>
      cases container
      · cases hx
      · exact absurd rfl hclosing
      · cases hx
  | undefined | special | slash | comma | other => cases hx

/-! ## Containers -/

/-- A container is opened if so many may be. -/
theorem succeeds_openContainer {slot : Slot} {post : Unit → State → Nat → Prop} :
    (openContainer c slot).Succeeds settings stream s pos post ↔
      (∀ limit, settings.maxDepth = some limit → s.frames.length < limit) ∧
        post () (s.publishOpening c slot) pos := by
  have hlength := s.length_publishOpening c slot
  unfold openContainer
  rw [succeeds_bind, succeeds_modify, succeeds_bind, succeeds_read]
  cases settings.maxDepth with
  | none => exact (succeeds_pure ()).trans ⟨fun h => ⟨nofun, h⟩, And.right⟩
  | some limit =>
      dsimp only
      rw [succeeds_bind, succeeds_get, hlength]
      split
      · refine ⟨fun h => absurd h (not_succeeds_fail _), fun h => ?_⟩
        have hlt := h.1 limit rfl
        omega
      · refine (succeeds_pure ()).trans ⟨fun h => ⟨?_, h⟩, And.right⟩
        rintro _ ⟨⟩
        omega

theorem stops_publishOpening (h : Stands stream phase kinds text s pos')
    (hrest : Ahead stream pos rest) (slot : Slot) :
    Stops stream (.opening c) (slot.value? stream) (.opened c) (c :: kinds) rest true
      (s.publishOpening c slot) pos := by
  refine ⟨rfl, rfl, rfl, rfl, ?_, hrest⟩
  rw [State.kinds_publishOpening, h.kinds_eq]

/-- The innermost container is closed. -/
theorem succeeds_closeContainer_iff (hinnermost : s.innermost? = some c)
    {post : Unit → State → Nat → Prop} :
    (closeContainer c).Succeeds settings stream s pos post ↔
      post () ((s.publishClosing c).completeValue settings) (pos + 1) := by
  unfold closeContainer
  rw [succeeds_bind, succeeds_advance, succeeds_bind, succeeds_get, succeeds_bind, succeeds_modify,
    if_pos hinnermost, succeeds_update]

theorem succeeds_closeContainer (hstands : Stands stream phase (c :: kinds) (b :: rest) s pos) :
    (closeContainer c).Succeeds settings stream s pos fun _ =>
      Stops stream (.closing c) none (completed settings kinds) kinds rest true := by
  have hkinds : (s.publishClosing c).frames.map Frame.kind = kinds := by
    rw [State.kinds_publishClosing, hstands.kinds_eq, List.tail_cons]
  have hempty : (s.publishClosing c).frames.isEmpty = kinds.isEmpty := by
    rw [← hkinds, List.isEmpty_map]
  rw [succeeds_closeContainer_iff hstands.innermost?]
  refine ⟨rfl, rfl, rfl, ?_, hkinds, hstands.ahead.tail⟩
  rw [State.completeValue, hempty, completed]

/-- The byte that ends a container. -/
def mark : Container → UInt8
  | .object => 0x7D
  | .array => 0x5D
  | .constructor => 0x29

theorem isSolid_mark (c : Container) (rest : List UInt8) : IsSolid (mark c :: rest) :=
  isSolid_cons (by cases c <;> decide) rest

/-- Behind its last part, a container is closed. -/
theorem succeeds_token_close (hblank : IsBlank blank)
    (h : Stands stream .postValue (c :: kinds) (blank ++ mark c :: rest) s pos) :
    token.Succeeds settings stream s pos
      (Stops stream (.closing c) none (completed settings kinds) kinds rest) := by
  rw [succeeds_token_separated h.phase_eq]
  apply succeeds_repeating
  rw [succeeds_bind]
  refine succeeds_skipBlanks hblank (isSolid_mark c rest) h.ahead fun s' pos' hs ha => ?_
  cases c <;> exact succeeds_found.mpr (succeeds_closeContainer (h.same hs ha))

/-- Where an element is due, its container may be closed instead. -/
theorem Awaits.closeElements (hc : c ≠ .object) (hphase : phase.expectsValue = true)
    (hspace : IsSpace blank)
    (h : Awaits settings stream phase (c :: kinds) (blank ++ mark c :: rest) s pos) :
    token.Succeeds settings stream s pos
      (Stops stream (.closing c) none (completed settings kinds) kinds rest) := by
  refine h.succeeds fun s₁ pos₁ h₁ => ?_
  rw [succeeds_part_value (by rw [h₁.phase_eq, hphase])]
  apply succeeds_repeating
  rw [succeeds_bind]
  refine succeeds_skipBlanks_space hspace (isSolid_mark c rest) h₁.ahead fun s' pos' hs ha => ?_
  cases c with
  | object => exact absurd rfl hc
  | array | constructor => exact succeeds_found.mpr (succeeds_closeContainer (h₁.same hs ha))

/-- In the place of a value, a comma is read as an undefined one. It is left for the separator. -/
theorem succeeds_value_elided (hspace : IsSpace blank) (h : Ahead stream pos (blank ++ 0x2C :: rest)) :
    value.Succeeds settings stream s pos fun found s' pos' => found = true ∧
      (s.publishScalar settings .undefined .empty true).Same s' ∧
        Ahead stream pos' (0x2C :: rest) := by
  apply succeeds_repeating
  rw [succeeds_bind]
  refine succeeds_skipBlanks_space hspace (isSolid_cons (by decide) rest) h fun s' pos' hs ha => ?_
  exact succeeds_found.mpr ((succeeds_update _).mpr ⟨rfl, hs.publishScalar _ _ _, ha⟩)

theorem Awaits.elided (hphase : phase.expectsValue = true) (hspace : IsSpace blank)
    (h : Awaits settings stream phase kinds (blank ++ 0x2C :: rest) s pos) :
    token.Succeeds settings stream s pos
      (Stops stream (.scalar .undefined) none (completed settings kinds) kinds (0x2C :: rest)) := by
  refine h.succeeds fun s₁ pos₁ h₁ => ?_
  rw [succeeds_part_value (by rw [h₁.phase_eq, hphase])]
  refine (succeeds_value_elided hspace h₁.ahead).mono ?_
  rintro _ s' pos' ⟨rfl, hsame, ha⟩
  have hpublished : Published settings stream .undefined none (0x2C :: rest) s₁ s' pos' :=
    ⟨⟨.empty, rfl, hsame⟩, ha⟩
  exact hpublished.stops h₁

theorem succeeds_token_closeObject (hblank : IsBlank blank)
    (h : Stands stream (.opened .object) (.object :: kinds) (blank ++ 0x7D :: rest) s pos) :
    token.Succeeds settings stream s pos
      (Stops stream (.closing .object) none (completed settings kinds) kinds rest) := by
  refine (awaits_part h nofun).succeeds fun s₁ pos₁ h₁ => ?_
  rw [succeeds_part_member (.inl h₁.phase_eq)]
  apply succeeds_repeating
  rw [succeeds_bind]
  refine succeeds_skipBlanks hblank (isSolid_mark .object rest) h₁.ahead fun s' pos' hs ha => ?_
  exact succeeds_found.mpr (succeeds_closeContainer (h₁.same hs ha))

/-! ## Tokens of values -/

variable {kind : Scalar} {value : Option Value} {x : Reading Unit}

/-- A token that is announced by its first byte is read as that byte says. -/
theorem Awaits.announced (hphase : phase.expectsValue = true) (hblank : IsBlank blank)
    (hlead : announced? (Lead.ofByte b) = some x)
    (hsolid : b < 0x80 ∧ Text.isBlankByte b = false)
    (h : Awaits settings stream phase kinds (blank ++ b :: rest) s pos) :
    ∃ s' pos', Stands stream phase kinds (b :: rest) s' pos' ∧
      ∀ post : Bool → State → Nat → Prop, token.Succeeds settings stream s pos post ↔
        x.Succeeds settings stream s' pos' fun _ => post true := by
  obtain ⟨s₁, pos₁, h₁, hpart⟩ := h
  obtain ⟨s', pos', hs, ha, hvalue⟩ := value_announced hlead hblank hsolid h₁.ahead
  refine ⟨s', pos', h₁.same hs ha, fun post => ?_⟩
  rw [hpart, succeeds_part_value (by rw [h₁.phase_eq, hphase]), hvalue]

theorem succeeds_token_value (hphase : phase.expectsValue = true) (hblank : IsBlank blank)
    (hlead : announced? (Lead.ofByte b) = some x)
    (hsolid : b < 0x80 ∧ Text.isBlankByte b = false)
    (h : Awaits settings stream phase kinds (blank ++ b :: rest) s pos)
    (hx : ∀ s' pos', Stands stream phase kinds (b :: rest) s' pos' →
      x.Succeeds settings stream s' pos' fun _ => post true) :
    token.Succeeds settings stream s pos post := by
  obtain ⟨s', pos', h', hiff⟩ := h.announced hphase hblank hlead hsolid
  exact (hiff post).mpr (hx s' pos' h')

/-- The start of a container is read if one more may be open. -/
theorem Awaits.opening (hphase : phase.expectsValue = true) (hblank : IsBlank blank)
    (hlead : Lead.ofByte b = .opening c) (hsolid : b < 0x80 ∧ Text.isBlankByte b = false)
    (h : Awaits settings stream phase kinds (blank ++ b :: rest) s pos) :
    ∃ s' pos', Stops stream (.opening c) none (.opened c) (c :: kinds) rest true s' pos' ∧
      ∀ post : Bool → State → Nat → Prop, token.Succeeds settings stream s pos post ↔
        (∀ limit, settings.maxDepth = some limit → kinds.length < limit) ∧ post true s' pos' := by
  obtain ⟨s', pos', h', hiff⟩ := h.announced hphase hblank (by rw [hlead]; rfl) hsolid
  refine ⟨_, _, stops_publishOpening h' h'.ahead.tail .empty, fun post => ?_⟩
  rw [hiff, succeeds_bind, succeeds_advance, succeeds_openContainer, ← h'.kinds_eq, List.length_map]

/-- A scalar that is announced by its first byte. -/
theorem succeeds_token_scalar {more : List UInt8} (hphase : phase.expectsValue = true)
    (hblank : IsBlank blank) (htext : text = b :: more)
    (hlead : announced? (Lead.ofByte b) = some x)
    (hsolid : b < 0x80 ∧ Text.isBlankByte b = false)
    (h : Awaits settings stream phase kinds (blank ++ (text ++ rest)) s pos)
    (hx : ∀ s' pos', Stands stream phase kinds (text ++ rest) s' pos' →
      x.Succeeds settings stream s' pos' fun _ => Published settings stream kind value rest s') :
    token.Succeeds settings stream s pos
      (Stops stream (.scalar kind) value (completed settings kinds) kinds rest) := by
  subst htext
  refine succeeds_token_value hphase hblank hlead hsolid h fun s' pos' h' => ?_
  exact (hx s' pos' h').mono fun _ s'' pos'' hp => hp.stops h'

/-! ## Names of properties -/

theorem succeeds_property {name : String} (hname : Quotes text name) (hblank : IsBlank blank)
    (hkinds : s.frames.map Frame.kind = kinds)
    (h : Ahead stream pos (text ++ (blank ++ 0x3A :: rest))) :
    property.Succeeds settings stream s pos fun _ =>
      Stops stream .propertyName (some (.string (settings.intern name))) .property kinds rest
        true := by
  cases hname with
  | mk hbody =>
      rw [List.cons_append, List.append_assoc, List.singleton_append] at h
      unfold property
      rw [succeeds_bind, succeeds_byte?, h.head?]
      change (read >>= fun settings => nameText (some 0x22) >>= fun name => _).Succeeds _ _ _ _ _
      rw [succeeds_bind, succeeds_read]
      change (quoted 0x22 >>= bodyText >>= fun name => _).Succeeds _ _ _ _ _
      rw [succeeds_bind, succeeds_bind]
      refine succeeds_quoted hbody h fun b pos₁ hb h₁ => ?_
      rw [succeeds_bodyText, hb, succeeds_bind]
      refine succeeds_skipBlanks hblank (isSolid_cons (by decide) rest) h₁ fun s' pos' hs ha => ?_
      rw [List.head?_cons, if_pos (beq_self_eq_true _), succeeds_bind, succeeds_advance,
        succeeds_modify]
      refine ⟨rfl, rfl, rfl, rfl, ?_, ha.tail⟩
      rw [← hkinds, ← hs.frames_eq]
      exact State.kinds_publishName _ s'

theorem succeeds_token_name {name : String}
    (hphase : phase = .opened .object ∨ phase = .within .object) (hname : Quotes text name)
    {blank' : List UInt8} (hblank : IsBlank blank) (hblank' : IsBlank blank')
    (h : Awaits settings stream phase kinds (blank ++ (text ++ (blank' ++ 0x3A :: rest))) s pos) :
    token.Succeeds settings stream s pos
      (Stops stream .propertyName (some (.string (settings.intern name))) .property kinds rest) := by
  obtain ⟨more, rfl⟩ : ∃ more, text = 0x22 :: more := by
    cases hname
    exact ⟨_, rfl⟩
  refine h.succeeds fun s₁ pos₁ h₁ => ?_
  rw [succeeds_part_member (by rw [h₁.phase_eq]; exact hphase)]
  apply succeeds_repeating
  rw [succeeds_bind]
  refine succeeds_skipBlanks hblank (isSolid_cons (by decide) _) h₁.ahead fun s' pos' hs ha => ?_
  exact succeeds_found.mpr
    (succeeds_property hname hblank' (h₁.same hs ha).kinds_eq ha)

/-! ## The end -/

theorem succeeds_part_end (hblank : IsBlank blank) (h : Stands stream .finished [] blank s pos) :
    part.Succeeds settings stream s pos fun found s' pos' =>
      found = false ∧ s'.token = .none ∧ s'.slot = .empty ∧
        Stands stream .finished [] [] s' pos' := by
  unfold part
  rw [succeeds_bind, succeeds_get, h.phase_eq]
  dsimp only
  rw [succeeds_bind, succeeds_read]
  apply succeeds_repeating
  rw [succeeds_bind]
  have hahead := h.ahead
  rw [← List.append_nil blank] at hahead
  refine succeeds_skipBlanks hblank isSolid_nil hahead fun s' pos' hs ha => ?_
  change (nothing >>= fun _ => pure (Turn.stop false)).Succeeds _ _ _ _ _
  rw [succeeds_bind, nothing, succeeds_modify, succeeds_pure]
  have hstands := h.same hs ha
  exact ⟨rfl, rfl, rfl, hstands.phase_eq, hstands.kinds_eq, ha⟩

/-- Where a value is due and nothing is left, there is no token. -/
theorem succeeds_token_missing (hphase : phase.expectsValue = true) (hblank : IsBlank blank)
    (h : Stands stream phase kinds blank s pos) :
    token.Succeeds settings stream s pos fun found _ _ => found = false := by
  have hpart : s.phase ≠ .postValue := by
    rw [h.phase_eq]
    rintro rfl
    cases hphase
  rw [succeeds_token hpart, succeeds_part_value (by rw [h.phase_eq, hphase])]
  apply succeeds_repeating
  rw [succeeds_bind]
  have hahead := h.ahead
  rw [← List.append_nil blank] at hahead
  refine succeeds_skipBlanks hblank isSolid_nil hahead fun s' pos' hs ha => ?_
  change (nothing >>= fun _ => pure (Turn.stop false)).Succeeds _ _ _ _ _
  rw [succeeds_bind, nothing, succeeds_modify, succeeds_pure]

/-- Behind the last value, there is no token, and there will be none. -/
theorem succeeds_token_end (hblank : IsBlank blank) (hphase : phase = .finished ∨ phase = .postValue)
    (h : Stands stream phase [] blank s pos) :
    token.Succeeds settings stream s pos fun found s' pos' =>
      found = false ∧ s'.token = .none ∧ s'.slot = .empty ∧
        Stands stream .finished [] [] s' pos' := by
  rcases hphase with rfl | rfl
  · rw [succeeds_token (by rw [h.phase_eq]; nofun)]
    exact succeeds_part_end hblank h
  · rw [succeeds_token_separated h.phase_eq]
    apply succeeds_repeating
    rw [succeeds_bind]
    have hahead := h.ahead
    rw [← List.append_nil blank] at hahead
    refine succeeds_skipBlanks hblank isSolid_nil hahead fun s' pos' hs ha => ?_
    change ((do modify fun s : State => { s with phase := .finished }; return .stop false) :
      Reading (Turn Unit Bool)).Succeeds _ _ _ _ _
    rw [succeeds_bind, succeeds_modify, succeeds_pure]
    have hstands := h.same hs ha
    exact succeeds_part_end isBlank_nil ⟨rfl, hstands.kinds_eq, ha⟩

end Reading

end JsonPull
