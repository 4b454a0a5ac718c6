import JsonPull.Proofs.Comments.Gap
import JsonPull.Proofs.Value.Tokenizer

/-! # Arrays of bytes

An array is read as bytes one token after another. A comment leaves the bytes so far as they are, an
integer is one more byte, and the end of the array publishes all of them in the place of the array. -/

namespace JsonPull

open JsonPull.Json

variable {settings : Settings} {s s₀ : State} {pos : Nat} {b : UInt8}
  {stream text before behind gap space comment rest acc data : List UInt8}

/-! ## Texts -/

/-- The integers that write a byte, in base ten, sixteen or eight. -/
inductive IsByteText : List UInt8 → UInt8 → Prop where
  | decimal {text : List UInt8} {b : UInt8} (h : IsInteger text b.toNat) : IsByteText text b
  | radix {text : List UInt8} {b : UInt8} (h : IsRadixLiteral text b.toNat) : IsByteText text b

/-- One or more bytes with commas between them, up to the end of the array. -/
inductive IsElements : List UInt8 → List UInt8 → Prop where
  | last {before text behind : List UInt8} {b : UInt8} (hbefore : Gap before)
      (htext : IsByteText text b) (hbehind : Gap behind) :
      IsElements (before ++ (text ++ (behind ++ [0x5D]))) [b]
  | comma {before text behind more data : List UInt8} {b : UInt8} (hbefore : Gap before)
      (htext : IsByteText text b) (hbehind : Gap behind) (h : IsElements more data) :
      IsElements (before ++ (text ++ (behind ++ 0x2C :: more))) (b :: data)

/-- The arrays that write bytes, with blanks and comments anywhere in them. -/
inductive IsByteArray : List UInt8 → List UInt8 → Prop where
  | empty {gap : List UInt8} (hgap : Gap gap) : IsByteArray (0x5B :: (gap ++ [0x5D])) []
  | elements {data text : List UInt8} (h : IsElements text data) : IsByteArray (0x5B :: text) data

theorem exists_isElements (b : UInt8) (data : List UInt8) : ∃ text, IsElements text (b :: data) := by
  have htext : ∀ b : UInt8, IsByteText (Text.toBytes (toString (b.toNat : Int))) b :=
    fun b => .decimal (isInteger_toString b.toNat)
  induction data generalizing b with
  | nil => exact ⟨_, .last .nil (htext b) .nil⟩
  | cons b' data ih =>
      obtain ⟨more, hmore⟩ := ih b'
      exact ⟨_, .comma .nil (htext b) .nil hmore⟩

/-- Any bytes are written by an array. -/
theorem exists_isByteArray (data : List UInt8) : ∃ text, IsByteArray text data := by
  cases data with
  | nil => exact ⟨_, .empty .nil⟩
  | cons b data =>
      obtain ⟨text, htext⟩ := exists_isElements b data
      exact ⟨_, .elements htext⟩

/-- What stands between tokens ends a number. -/
theorem Gap.terminates (h : Gap gap) (hrest : Terminates rest) : Terminates (gap ++ rest) := by
  cases h with
  | nil => exact hrest
  | blank hblank h =>
      rw [List.append_assoc]
      exact .blank hblank
  | comment hcomment h => cases hcomment <;> exact .mark (by decide)

/-! ## Within the array -/

/-- Within an array that is the next element in the place of `s₀`. -/
def State.Inside (s₀ s : State) : Prop :=
  ∃ f : Frame, f.kind = .array ∧ s.frames = f :: s₀.countElement.frames

namespace State.Inside

variable {s' : State}

theorem innermost? (h : s₀.Inside s) : s.innermost? = some .array := by
  obtain ⟨f, hkind, hframes⟩ := h
  rw [State.innermost?, hframes, List.head?_cons, Option.map_some, hkind]

theorem of_frames (h : s₀.Inside s) (hframes : s'.frames = s.frames) : s₀.Inside s' := by
  obtain ⟨f, hkind, hs⟩ := h
  exact ⟨f, hkind, hframes.trans hs⟩

/-- Behind a scalar, the array goes on. -/
theorem publishScalar {kind : Scalar} {slot : Slot} (h : s₀.Inside s)
    (hs : (s.publishScalar settings kind slot true).Same s') :
    s'.phase = .postValue ∧ s₀.Inside s' := by
  obtain ⟨f, hkind, hframes⟩ := h
  constructor
  · rw [hs.phase_eq, State.phase_publishScalar, hframes]
    rfl
  · refine ⟨f.advance, (Frame.kind_advance f).trans hkind, ?_⟩
    rw [hs.frames_eq, State.frames_publishScalar, State.countElement, hframes]

end State.Inside

namespace Reading

/-! ## The repetition -/

/-- What the token that was found adds to the bytes so far. -/
def byteItem (bytes : List UInt8) (s : State) : Reading (Turn (List UInt8) Unit) :=
  match s.token with
  | .none => fail (.unexpectedEnd .bytes)
  | .scalar .integer =>
    match s.slot with
    | .owned v =>
      match v.asByte? with
      | some b => return .again (b :: bytes)
      | none => fail (.ofBytesFault .outOfRange)
    | _ => fail (.ofBytesFault .outOfRange)
  | .closing .array => do
    update fun settings =>
      State.publishScalar settings .bytes (.owned (.bytes bytes.reverse)) false
    return .stop ()
  | .comment => return .again bytes
  | other => fail (.unexpectedToken other)

/-- One turn of the reading of an array. -/
def byteTurn (bytes : List UInt8) : Reading (Turn (List UInt8) Unit) := do
  modify State.clearSlot
  if !(← token) then nothing
  byteItem bytes (← get)

theorem byteArray_eq : byteArray = repeating byteTurn [] := rfl

/-- A repetition goes on from a later place if its first turn does. -/
theorem succeeds_repeating_later {α τ : Type} {turn : τ → Reading (Turn τ α)} {x : τ} {s' : State}
    {pos' : Nat} {post : α → State → Nat → Prop} (hpos : pos ≤ pos')
    (hturn : ∀ post : Turn τ α → State → Nat → Prop, (turn x).Succeeds settings stream s' pos' post →
      (turn x).Succeeds settings stream s pos post)
    (h : (repeating turn x).Succeeds settings stream s' pos' post) :
    (repeating turn x).Succeeds settings stream s pos post := by
  unfold repeating at h ⊢
  rw [succeeds_bind, succeeds_budget] at h ⊢
  have hmore := h.repeatAtMost (show stream.length - pos' + 1 ≤ stream.length - pos + 1 by omega)
  unfold repeatAtMost at hmore ⊢
  rw [succeeds_bind] at hmore ⊢
  exact hturn _ hmore

theorem succeeds_byteTurn {post : Turn (List UInt8) Unit → State → Nat → Prop}
    (h : token.Succeeds settings stream s.clearSlot pos fun found s' pos' =>
      found = true ∧ (byteItem acc s').Succeeds settings stream s' pos' post) :
    (byteTurn acc).Succeeds settings stream s pos post := by
  unfold byteTurn
  rw [succeeds_bind, succeeds_modify, succeeds_bind]
  refine h.mono ?_
  rintro _ s' pos' ⟨rfl, hitem⟩
  exact (succeeds_bind _ _).mpr (succeeds_get.mpr hitem)

/-- A turn that finds the same token from a later place is the same. -/
theorem byteTurn_later {s' : State} {pos' : Nat} (hslot : s'.slot = .empty)
    (htoken : ∀ post : Bool → State → Nat → Prop, token.Succeeds settings stream s' pos' post →
      token.Succeeds settings stream s.clearSlot pos post)
    (post : Turn (List UInt8) Unit → State → Nat → Prop)
    (h : (byteTurn acc).Succeeds settings stream s' pos' post) :
    (byteTurn acc).Succeeds settings stream s pos post := by
  have hclear : s'.clearSlot = s' := by
    cases s'
    cases hslot
    rfl
  unfold byteTurn at h ⊢
  rw [succeeds_bind, succeeds_modify, succeeds_bind] at h ⊢
  rw [hclear] at h
  exact htoken _ h

/-- The reading of an array goes on as it would at another place with other bytes so far. -/
def Gathers (settings : Settings) (stream acc : List UInt8) (s : State) (pos : Nat)
    (acc' : List UInt8) (s' : State) (pos' : Nat) : Prop :=
  ∀ post : Unit → State → Nat → Prop,
    (repeating byteTurn acc').Succeeds settings stream s' pos' post →
    (repeating byteTurn acc).Succeeds settings stream s pos post

theorem Gathers.trans {acc' acc'' : List UInt8} {s' s'' : State} {pos' pos'' : Nat}
    (h : Gathers settings stream acc s pos acc' s' pos')
    (h' : Gathers settings stream acc' s' pos' acc'' s'' pos'') :
    Gathers settings stream acc s pos acc'' s'' pos'' :=
  fun post hpost => h post (h' post hpost)

/-! ## Comments -/

theorem bytes_comment (settings : Settings) (acc : List UInt8)
    (hphase : s.phase = .postValue ∨ s.phase.expectsValue = true) (hspace : IsSpace space)
    (hcomment : IsComment comment rest)
    (h : Ahead stream pos (space ++ (comment ++ rest))) :
    ∃ s' pos', s.Keeps s' ∧ Ahead stream pos' rest ∧
      Gathers settings stream acc s pos acc s' pos' := by
  obtain ⟨s', pos', hcommented, hahead, hleads⟩ :=
    token_comment settings (s := s.clearSlot) hphase hspace hcomment h
  have hkeeps : s.Keeps s' := ⟨hcommented.keeps.phase_eq, hcommented.keeps.frames_eq⟩
  have hlt : pos < pos' := hcomment.lt h hahead
  refine ⟨s', pos', hkeeps, hahead, fun post hpost => ?_⟩
  by_cases hsurface : settings.surfaceComments = true
  · apply succeeds_repeating
    apply succeeds_byteTurn
    apply hleads
    rw [if_pos hsurface]
    refine ⟨rfl, ?_⟩
    have hitem : byteItem acc s' = pure (.again acc) := by
      rw [byteItem, hcommented.token_eq hsurface]
    rw [hitem, succeeds_pure]
    exact ⟨hlt, hcomment.lt_length h, hpost⟩
  · have hsame : s.clearSlot.Same s' := hcommented.same (by simpa using hsurface)
    refine succeeds_repeating_later hlt.le (byteTurn_later hsame.slot_eq fun post htoken => ?_)
      hpost
    apply hleads
    rw [if_neg hsurface]
    exact htoken

/-- Behind blanks and comments, at most blanks are left. -/
theorem bytes_gap (settings : Settings) (acc : List UInt8) (hgap : Gap gap)
    (hphase : s.phase = .postValue ∨ s.phase.expectsValue = true) (hspace : IsSpace space)
    (h : Ahead stream pos (space ++ (gap ++ rest))) :
    ∃ s' pos' space', s.Keeps s' ∧ IsSpace space' ∧ Ahead stream pos' (space' ++ rest) ∧
      Gathers settings stream acc s pos acc s' pos' := by
  induction hgap generalizing s pos space with
  | nil => exact ⟨s, pos, space, .refl s, hspace, h, fun _ hpost => hpost⟩
  | @blank c gap hblank hgap ih =>
      refine ih hphase (hspace.append (.blank hblank .nil)) ?_
      rw [List.append_nil, List.append_assoc]
      rwa [List.append_assoc] at h
  | @comment comment gap hcomment hgap ih =>
      rw [List.append_assoc] at h
      obtain ⟨s₁, pos₁, hkeeps, hahead, hleads⟩ :=
        bytes_comment settings acc hphase hspace (hcomment.append rest) h
      have hphase' : s₁.phase = .postValue ∨ s₁.phase.expectsValue = true := by
        rwa [hkeeps.phase_eq]
      obtain ⟨s', pos', space', hkeeps', hspace', hahead', hleads'⟩ := ih hphase' .nil hahead
      exact ⟨s', pos', space', hkeeps.trans hkeeps', hspace', hahead', hleads.trans hleads'⟩

/-! ## Bytes -/

theorem lexeme_byte (settings : Settings) (htext : IsByteText text b) (hrest : Terminates rest) :
    IsLexeme text rest ∧
      Lexeme.entry settings .plain text = .ok (.integer, .integer b.toNat) := by
  have hlt := b.toNat_lt
  rw [Lexeme.entry_plain]
  cases htext with
  | decimal h =>
      refine ⟨Tokenizer.isLexeme_integer h hrest, ?_⟩
      rw [Lexeme.plain_int64 h (by omega)]
      rfl
  | radix h =>
      refine ⟨Tokenizer.isLexeme_radix h hrest, ?_⟩
      have hvalue : (BitVec.ofNat 64 b.toNat).toInt = b.toNat := by
        rw [BitVec.toInt_ofNat', Int.bmod_eq_of_le] <;> omega
      rw [Lexeme.plain_radix h, if_pos (by omega), hvalue]
      rfl

theorem asByte?_toNat (b : UInt8) : Value.asByte? (.integer b.toNat) = some b := by
  have hlt := b.toNat_lt
  rw [Value.asByte?, if_pos ⟨by omega, by omega⟩, Int.toNat_natCast, UInt8.ofNat_toNat]

/-- The slot of an integer holds it. -/
theorem eq_owned {slot : Slot} {z : Int} (h : slot.value? stream = some (.integer z)) :
    slot = .owned (.integer z) := by
  cases slot with
  | empty => cases h
  | held span => cases h
  | owned v => rw [Option.some.inj h]

theorem succeeds_token_byte (hphase : s.phase.expectsValue = true) (hspace : IsSpace space)
    (htext : IsByteText text b) (hrest : Terminates rest)
    (h : Ahead stream pos (space ++ (text ++ rest))) :
    token.Succeeds settings stream s pos fun found s' pos' => found = true ∧
      Published settings stream .integer (some (.integer b.toNat)) rest s s' pos' := by
  obtain ⟨hlexeme, hentry⟩ := lexeme_byte settings htext hrest
  obtain ⟨b₀, more, x, rfl, hsolid, hx, hlands⟩ :=
    lands_number (c := .read) settings stream rfl hlexeme
  rw [Call.request, hentry] at hlands
  rw [succeeds_token_value_due hphase]
  apply Lands.succeeds
  refine lands_value hx hspace hsolid h fun s' pos' hs ha => (hlands s' pos' ha).mono ?_
  rintro _ s'' pos'' ⟨rfl, hpublished⟩
  exact ⟨true, rfl, rfl, hpublished.of_same hs⟩

/-- An integer is one more byte. -/
theorem bytes_byte (settings : Settings) (acc : List UInt8) (hphase : s.phase.expectsValue = true)
    (hspace : IsSpace space) (htext : IsByteText text b) (hrest : Terminates rest)
    (h : Ahead stream pos (space ++ (text ++ rest))) :
    ∃ s' pos', (s.publishScalar settings .integer (.owned (.integer b.toNat)) true).Same s' ∧
      Ahead stream pos' rest ∧ Gathers settings stream acc s pos (b :: acc) s' pos' := by
  have htoken : token.Succeeds settings stream s.clearSlot pos _ :=
    succeeds_token_byte hphase hspace htext hrest h
  obtain ⟨_, s', pos', ⟨rfl, ⟨slot, hslot, hsame⟩, hahead⟩, hexact⟩ := htoken.exact
  obtain rfl := eq_owned hslot
  refine ⟨s', pos', hsame, hahead, fun post hpost => ?_⟩
  have hitem : byteItem acc s' = pure (.again (b :: acc)) := by
    rw [byteItem, hsame.token_eq, hsame.slot_eq, State.token_publishScalar,
      State.slot_publishScalar]
    dsimp only
    rw [asByte?_toNat]
  obtain ⟨b₀, hb₀, -⟩ := (lexeme_byte settings htext hrest).1.first
  obtain ⟨more, rfl⟩ := List.head?_eq_some_iff.mp hb₀
  have hshorter : rest.length < (space ++ (b₀ :: more ++ rest)).length := by
    simp only [List.length_append, List.length_cons]
    omega
  have hend : Ahead stream stream.length [] := List.drop_length
  apply succeeds_repeating
  apply succeeds_byteTurn
  rw [hexact, hitem, succeeds_pure]
  exact ⟨rfl, h.lt_of_length hahead hshorter, h.lt_of_length hend (Nat.zero_lt_of_lt hshorter),
    hpost⟩

/-! ## Commas -/

/-- A comma leads to the next element. -/
theorem bytes_comma (settings : Settings) (acc : List UInt8) (hphase : s.phase = .postValue)
    (hinside : s₀.Inside s) (hspace : IsSpace space)
    (h : Ahead stream pos (space ++ 0x2C :: rest)) :
    ∃ s' pos', s'.phase = .within .array ∧ s₀.Inside s' ∧ Ahead stream pos' rest ∧
      Gathers settings stream acc s pos acc s' pos' := by
  have hseparator : (separator settings.surfaceComments).Succeeds settings stream s.clearSlot pos _ :=
    succeeds_separator_comma settings.surfaceComments hphase hspace h
  obtain ⟨_, s', pos', ⟨rfl, harrives, hahead⟩, hexact⟩ := hseparator.exact
  have hphase' : s'.phase = .within .array := by
    have hnext : s.clearSlot.nextPhase settings = (s.resumeContainer settings).phase :=
      if_pos hphase
    rw [harrives.phase_eq, hnext, State.resumeContainer, hinside.innermost?]
  have hne : s'.phase ≠ .postValue := by
    rw [hphase']
    decide
  have hshorter : rest.length < (space ++ 0x2C :: rest).length := by
    simp only [List.length_append, List.length_cons]
    omega
  refine ⟨s', pos', hphase', hinside.of_frames harrives.frames_eq, hahead, fun post hpost => ?_⟩
  refine succeeds_repeating_later (h.lt_of_length hahead hshorter).le
    (byteTurn_later harrives.slot_eq fun post htoken => ?_) hpost
  rw [succeeds_token_separated (s := s.clearSlot) hphase, hexact, if_neg Bool.false_ne_true]
  exact (succeeds_token hne).mp htoken

/-! ## The end -/

/-- A reading that skips blanks first finds the end. -/
theorem succeeds_skipping_end {f : Option UInt8 → Reading (Turn Unit Bool)}
    (hf : f (some 0x5D) = found (closeContainer .array)) (hinside : s₀.Inside s)
    (hspace : IsSpace space) (h : Ahead stream pos (space ++ 0x5D :: rest)) :
    (repeating (fun _ : Unit => skipBlanks >>= f) ()).Succeeds settings stream s pos
      fun found s' pos' => found = true ∧ s'.token = .closing .array ∧
        s'.frames = s₀.countElement.frames ∧ Ahead stream pos' rest := by
  have hsolid : IsSolid (0x5D :: rest) := isSolid_cons (by decide) rest
  apply succeeds_repeating
  rw [succeeds_bind]
  refine succeeds_skipBlanks_space hspace hsolid h fun s' pos' hs ha => ?_
  rw [List.head?_cons, hf, succeeds_found]
  obtain ⟨f, hkind, hframes⟩ := hinside.of_frames hs.frames_eq
  rw [succeeds_closeContainer_iff (State.Inside.innermost? ⟨f, hkind, hframes⟩)]
  exact ⟨rfl, rfl, congrArg List.tail hframes, ha.tail⟩

theorem succeeds_token_end_array (hphase : s.phase = .postValue ∨ s.phase.expectsValue = true)
    (hinside : s₀.Inside s) (hspace : IsSpace space)
    (h : Ahead stream pos (space ++ 0x5D :: rest)) :
    token.Succeeds settings stream s pos fun found s' pos' => found = true ∧
      s'.token = .closing .array ∧ s'.frames = s₀.countElement.frames ∧ Ahead stream pos' rest := by
  rcases hphase with hphase | hphase
  · rw [succeeds_token_separated hphase]
    refine (succeeds_skipping_end rfl hinside hspace h).mono ?_
    rintro _ s' pos' ⟨rfl, hclosed⟩
    exact ⟨rfl, hclosed⟩
  · rw [succeeds_token_value_due hphase]
    exact succeeds_skipping_end rfl hinside hspace h

/-- The end of the array publishes the bytes in its place. -/
theorem bytes_end (hphase : s.phase = .postValue ∨ s.phase.expectsValue = true)
    (hinside : s₀.Inside s) (hspace : IsSpace space)
    (h : Ahead stream pos (space ++ 0x5D :: rest)) :
    (repeating byteTurn acc).Succeeds settings stream s pos fun _ =>
      Published settings stream .bytes (some (.bytes acc.reverse)) rest s₀ := by
  apply succeeds_repeating
  apply succeeds_byteTurn
  refine (succeeds_token_end_array (s := s.clearSlot) hphase hinside hspace h).mono ?_
  rintro _ s' pos' ⟨rfl, htoken, hframes, hahead⟩
  refine ⟨rfl, ?_⟩
  have hitem : byteItem acc s' = do
      update fun settings =>
        State.publishScalar settings .bytes (.owned (.bytes acc.reverse)) false
      return .stop () := by
    rw [byteItem, htoken]
  rw [hitem, succeeds_bind, succeeds_update, succeeds_pure]
  refine ⟨⟨.owned (.bytes acc.reverse), rfl, ?_⟩, hahead⟩
  rw [← State.publishScalar_counted]
  refine State.same_publishScalar ?_ _ _ _
  rw [hframes]
  cases hopen : s₀.frames <;> simp only [State.countElement, State.completeValue, hopen]

/-! ## Elements -/

/-- An element and what stands around it. -/
theorem bytes_part (settings : Settings) (acc : List UInt8) (hphase : s.phase.expectsValue = true)
    (hinside : s₀.Inside s) (hbefore : Gap before) (htext : IsByteText text b)
    (hbehind : Gap behind) (hrest : Terminates rest)
    (h : Ahead stream pos (before ++ (text ++ (behind ++ rest)))) :
    ∃ s' pos' space, s'.phase = .postValue ∧ s₀.Inside s' ∧ IsSpace space ∧
      Ahead stream pos' (space ++ rest) ∧ Gathers settings stream acc s pos (b :: acc) s' pos' := by
  obtain ⟨s₁, pos₁, space, hkeeps, hspace, hahead, hleads⟩ :=
    bytes_gap settings acc hbefore (.inr hphase) .nil h
  have hinside₁ := hinside.of_frames hkeeps.frames_eq
  have hphase₁ : s₁.phase.expectsValue = true := hkeeps.phase_eq ▸ hphase
  obtain ⟨s₂, pos₂, hsame, hahead, hleads₂⟩ :=
    bytes_byte settings acc hphase₁ hspace htext (hbehind.terminates hrest) hahead
  obtain ⟨hphase₂, hinside₂⟩ := hinside₁.publishScalar hsame
  obtain ⟨s₃, pos₃, space, hkeeps, hspace, hahead, hleads₃⟩ :=
    bytes_gap settings (b :: acc) hbehind (.inl hphase₂) .nil hahead
  exact ⟨s₃, pos₃, space, hkeeps.phase_eq.trans hphase₂, hinside₂.of_frames hkeeps.frames_eq, hspace,
    hahead, hleads.trans (hleads₂.trans hleads₃)⟩

theorem succeeds_elements (helements : IsElements text data) (hphase : s.phase.expectsValue = true)
    (hinside : s₀.Inside s) (h : Ahead stream pos (text ++ rest)) :
    (repeating byteTurn acc).Succeeds settings stream s pos fun _ =>
      Published settings stream .bytes (some (.bytes (acc.reverse ++ data))) rest s₀ := by
  induction helements generalizing s pos acc with
  | @last before text behind b hbefore htext hbehind =>
      rw [List.append_assoc, List.append_assoc, List.append_assoc] at h
      obtain ⟨s', pos', space, hphase', hinside', hspace, hahead, hleads⟩ :=
        bytes_part settings acc hphase hinside hbefore htext hbehind (.mark (by decide)) h
      rw [← List.reverse_cons]
      exact hleads _ (bytes_end (.inl hphase') hinside' hspace hahead)
  | @comma before text behind more data b hbefore htext hbehind _ ih =>
      rw [List.append_assoc, List.append_assoc, List.append_assoc, List.cons_append] at h
      obtain ⟨s₁, pos₁, space, hphase₁, hinside₁, hspace, hahead, hleads⟩ :=
        bytes_part settings acc hphase hinside hbefore htext hbehind (.mark (by decide)) h
      obtain ⟨s₂, pos₂, hphase₂, hinside₂, hahead, hleads₂⟩ :=
        bytes_comma settings (b :: acc) hphase₁ hinside₁ hspace hahead
      have hexpects : s₂.phase.expectsValue = true := by rw [hphase₂]; rfl
      have hrest : (repeating byteTurn (b :: acc)).Succeeds settings stream s₂ pos₂ _ :=
        ih hexpects hinside₂ hahead
      rw [List.reverse_cons, List.append_assoc, List.singleton_append] at hrest
      exact hleads.trans hleads₂ _ hrest

/-- An array of bytes is consumed as a whole, and published as a scalar is. -/
theorem succeeds_byteArray (harray : IsByteArray text data)
    (hdepth : ∀ limit, settings.maxDepth = some limit → s.frames.length < limit)
    (h : Ahead stream pos (text ++ rest)) :
    (do advance 1; openContainer .array .empty; byteArray : Reading Unit).Succeeds settings stream s
      pos fun _ => Published settings stream .bytes (some (.bytes data)) rest s := by
  have hinside : s.Inside (s.publishOpening .array .empty) := ⟨.fresh .array, rfl, rfl⟩
  rw [succeeds_bind, succeeds_advance, succeeds_bind, succeeds_openContainer, byteArray_eq]
  refine ⟨hdepth, ?_⟩
  cases harray with
  | empty hgap =>
      rw [List.cons_append, List.append_assoc] at h
      obtain ⟨s', pos', space, hkeeps, hspace, hahead, hleads⟩ :=
        bytes_gap settings [] (s := s.publishOpening .array .empty) hgap (.inr rfl) .nil h.tail
      refine hleads _ (bytes_end (.inr ?_) (hinside.of_frames hkeeps.frames_eq) hspace hahead)
      rw [hkeeps.phase_eq]
      rfl
  | elements helements => exact succeeds_elements helements rfl hinside h.tail

end Reading

end JsonPull
