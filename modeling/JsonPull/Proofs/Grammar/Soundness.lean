import JsonPull.Proofs.Grammar.Word
import JsonPull.Proofs.Tokenizer.Call

/-! # The tokens of successful calls are words

Whatever the input is, the tokens so far can be continued to a text, and the phase and the open
containers of the reader are those of this word. -/

namespace JsonPull.Grammar

/-- The tokens that belong to values. -/
def produced (tokens : List Token) : List Token :=
  tokens.filter fun t => t != .none && t != .comment

/-- The open containers after a token. -/
def reopen (cs : List Container) : Token → List Container
  | .opening c => c :: cs
  | .closing _ => cs.tail
  | _ => cs

/-- The containers that tokens leave open, the innermost first. -/
def unclosed (tokens : List Token) : List Container :=
  tokens.foldl reopen []

/-- The phases that a reader may be in within open containers. -/
def Agrees (multiple : Bool) (cs : List Container) : Phase → Prop
  | .start => cs = []
  | .property => cs.head? = some .object
  | .opened c => cs.head? = some c
  | .within c => cs.head? = some c
  | .postValue => cs ≠ [] ∨ multiple = true
  | .finished => True
  | .closed => False

/-- The tokens so far are those that a phase within open containers calls for. -/
def Reached (multiple : Bool) (cs : List Container) (ts : List Token) : Phase → Prop
  | .property => Begun multiple cs true ts
  | .finished => Behind multiple cs ts
  | _ => Begun multiple cs false ts

variable {settings : Settings} {s s' : State} {ts : List Token}

/-- The kinds of the open containers. -/
abbrev kinds (s : State) : List Container := s.frames.map Frame.kind

/-- The state of a reader that has produced the tokens `ts`. -/
structure Spells (settings : Settings) (s : State) (ts : List Token) : Prop where
  agrees : Agrees settings.multipleValues (kinds s) s.phase
  reached : Reached settings.multipleValues (kinds s) ts s.phase
  unclosed_eq : unclosed ts = kinds s
  depth_le : ∀ limit, settings.maxDepth = some limit → s.frames.length ≤ limit

theorem Spells.finish (h : Spells settings s ts) :
    ∃ rest, IsText settings.multipleValues (ts ++ rest) := by
  have hreached := h.reached
  cases hphase : s.phase <;> rw [hphase] at hreached <;>
    first
      | exact Begun.finish hreached
      | exact Behind.finish hreached

theorem Spells.of_same (h : Spells settings s ts) (hs : s.Same s') : Spells settings s' ts := by
  obtain ⟨ha, hr, hu, hd⟩ := h
  refine ⟨?_, ?_, ?_, ?_⟩ <;> simp only [kinds, hs.frames_eq, hs.phase_eq] <;> assumption

/-- A value may come next. -/
theorem Spells.ready (h : Spells settings s ts) (hphase : s.phase.expectsValue = true) :
    ∃ named, Begun settings.multipleValues (kinds s) named ts ∧
      ((kinds s).head? = some .object → named = true) := by
  have hagrees := h.agrees
  have hreached := h.reached
  cases hp : s.phase with
  | start =>
      rw [hp] at hagrees hreached
      refine ⟨false, hreached, ?_⟩
      rw [show kinds s = [] from hagrees]
      nofun
  | property =>
      rw [hp] at hreached
      exact ⟨true, hreached, fun _ => rfl⟩
  | opened c =>
      rw [hp] at hagrees hreached hphase
      refine ⟨false, hreached, ?_⟩
      rw [show (kinds s).head? = some c from hagrees]
      rintro ⟨⟩
      cases hphase
  | within c =>
      rw [hp] at hagrees hreached hphase
      refine ⟨false, hreached, ?_⟩
      rw [show (kinds s).head? = some c from hagrees]
      rintro ⟨⟩
      cases hphase
  | postValue => simp [hp, Phase.expectsValue] at hphase
  | finished => simp [hp, Phase.expectsValue] at hphase
  | closed => simp [hp, Phase.expectsValue] at hphase

theorem unclosed_snoc (ts : List Token) (t : Token) :
    unclosed (ts ++ [t]) = reopen (unclosed ts) t := by
  simp [unclosed]

/-- Behind a value the phase is that of a complete text or of a separator. -/
theorem spells_complete {s₁ : State} (hbehind : Behind settings.multipleValues (kinds s₁) ts)
    (hunclosed : unclosed ts = kinds s₁)
    (hdepth : ∀ limit, settings.maxDepth = some limit → s₁.frames.length ≤ limit)
    (hphase : s₁.phase =
      if s₁.frames.isEmpty && !settings.multipleValues then .finished else .postValue) :
    Spells settings s₁ ts := by
  by_cases hdone : (s₁.frames.isEmpty && !settings.multipleValues) = true
  · rw [if_pos hdone] at hphase
    refine ⟨?_, ?_, hunclosed, hdepth⟩
    · rw [hphase]
      trivial
    · rw [hphase]
      exact hbehind
  · rw [if_neg hdone] at hphase
    have hopen : s₁.frames ≠ [] ∨ settings.multipleValues = true := by
      by_cases hframes : s₁.frames = []
      · right
        simpa [hframes] using hdone
      · exact .inl hframes
    refine ⟨?_, ?_, hunclosed, hdepth⟩
    · rw [hphase]
      exact hopen.imp_left fun hframes => by simpa [kinds] using hframes
    · rw [hphase]
      rcases hbehind with hbegun | ⟨hnil, hsingle, -⟩
      · exact hbegun
      · have hframes : s₁.frames = [] := List.map_eq_nil_iff.mp hnil
        simp [hframes, hsingle] at hopen

/-- Where the innermost container may be closed, no property waits for its value. -/
theorem Spells.begun {c : Container} {cs : List Container} (h : Spells settings s ts)
    (hkinds : kinds s = c :: cs) (hphase : c = .object → s.phase ≠ .property) :
    Begun settings.multipleValues (c :: cs) false ts := by
  have hagrees := h.agrees
  have hreached := h.reached
  rw [hkinds] at hagrees hreached
  cases hp : s.phase with
  | start =>
      rw [hp] at hagrees
      cases hagrees
  | property =>
      rw [hp] at hagrees
      cases hagrees
      exact absurd hp (hphase rfl)
  | finished =>
      rw [hp] at hreached
      rcases hreached with hbegun | ⟨hnil, -⟩
      · exact hbegun
      · cases hnil
  | closed =>
      rw [hp] at hagrees
      exact hagrees.elim
  | opened c' =>
      rw [hp] at hreached
      exact hreached
  | within c' =>
      rw [hp] at hreached
      exact hreached
  | postValue =>
      rw [hp] at hreached
      exact hreached

/-! ## Publishing -/

theorem head?_kinds (s : State) : (kinds s).head? = s.innermost? := List.head?_map

theorem Spells.publishScalar (h : Spells settings s ts) (hphase : s.phase.expectsValue = true)
    (kind : Scalar) (slot : Slot) :
    Spells settings (s.publishScalar settings kind slot true) (ts ++ [.scalar kind]) := by
  obtain ⟨named, hbegun, hready⟩ := h.ready hphase
  have hkinds : kinds (s.publishScalar settings kind slot true) = kinds s :=
    State.kinds_publishScalar kind slot s
  refine spells_complete ?_ ?_ ?_ ?_
  · rw [hkinds]
    exact hbegun.push hready (.scalar kind)
  · rw [hkinds, ← h.unclosed_eq]
    exact unclosed_snoc ts (.scalar kind)
  · rw [State.frames_publishScalar, State.length_countElement]
    exact h.depth_le
  · rw [State.phase_publishScalar, State.frames_publishScalar, State.isEmpty_countElement]

theorem Spells.publishOpening (h : Spells settings s ts) (hphase : s.phase.expectsValue = true)
    (hdepth : ∀ limit, settings.maxDepth = some limit → s.frames.length < limit) (c : Container)
    (slot : Slot) : Spells settings (s.publishOpening c slot) (ts ++ [.opening c]) := by
  obtain ⟨named, hbegun, hready⟩ := h.ready hphase
  have hkinds : kinds (s.publishOpening c slot) = c :: kinds s :=
    State.kinds_publishOpening c slot s
  refine ⟨?_, ?_, ?_, ?_⟩
  · rw [hkinds]
    exact rfl
  · rw [hkinds]
    exact hbegun.open hready c
  · rw [hkinds, ← h.unclosed_eq]
    exact unclosed_snoc ts (.opening c)
  · intro limit hlimit
    have hlt := hdepth limit hlimit
    rw [State.length_publishOpening]
    omega

theorem Spells.publishClosing {c : Container} (h : Spells settings s ts)
    (hphase : c = .object → s.phase ≠ .property) (hkind : s.innermost? = some c) :
    Spells settings ((s.publishClosing c).completeValue settings) (ts ++ [.closing c]) := by
  have hcons : kinds s = c :: (kinds s).tail :=
    List.eq_cons_of_mem_head? ((head?_kinds s).trans hkind)
  have htail : kinds ((s.publishClosing c).completeValue settings) = (kinds s).tail :=
    State.kinds_publishClosing c s
  refine spells_complete ?_ ?_ ?_ rfl
  · rw [htail]
    exact (h.begun hcons hphase).close
  · rw [unclosed_snoc, h.unclosed_eq, htail]
    rfl
  · intro limit hlimit
    exact s.frames.tail_sublist.length_le.trans (h.depth_le limit hlimit)

theorem Spells.publishName (h : Spells settings s ts)
    (hphase : s.phase = .opened .object ∨ s.phase = .within .object) (name : String) :
    Spells settings (s.publishName name) (ts ++ [.propertyName]) := by
  have hkinds : kinds (s.publishName name) = kinds s := State.kinds_publishName name s
  have hhead : (kinds s).head? = some .object := by
    have hagrees := h.agrees
    rcases hphase with hp | hp <;> rw [hp] at hagrees <;> exact hagrees
  have hcons : kinds s = .object :: (kinds s).tail := List.eq_cons_of_mem_head? hhead
  refine ⟨?_, ?_, ?_, ?_⟩
  · rw [hkinds]
    exact hhead
  · rw [hkinds, hcons]
    refine (h.begun hcons fun _ => ?_).name
    rcases hphase with hp | hp <;> simp [hp]
  · rw [hkinds, ← h.unclosed_eq]
    exact unclosed_snoc ts .propertyName
  · rw [State.length_publishName]
    exact h.depth_le

/-! ## Steps -/

/-- A step spells one more token, unless it is a comment or nothing. -/
theorem Spells.step (h : Spells settings s ts) (hstep : State.Step settings s s') :
    Spells settings s' (ts ++ produced [s'.token]) := by
  cases hstep with
  | scalar kind slot hphase hsame =>
      rw [hsame.token_eq, State.token_publishScalar]
      exact (h.publishScalar hphase kind slot).of_same hsame
  | opening c slot hphase hdepth hsame =>
      rw [hsame.token_eq]
      exact (h.publishOpening hphase hdepth c slot).of_same hsame
  | closing c hphase hkind hsame =>
      rw [hsame.token_eq]
      exact (h.publishClosing hphase hkind).of_same hsame
  | name name hphase hsame =>
      rw [hsame.token_eq]
      exact (h.publishName hphase name).of_same hsame
  | comment slot hsame =>
      have htoken : s'.token = .comment := hsame.token_eq
      have hspells : Spells settings (s.publishComment slot) ts :=
        ⟨h.agrees, h.reached, h.unclosed_eq, h.depth_le⟩
      simpa [produced, htoken] using hspells.of_same hsame
  | nothing hsame =>
      have htoken : s'.token = .none := hsame.token_eq
      have hspells : Spells settings s.publishNothing ts :=
        ⟨h.agrees, h.reached, h.unclosed_eq, h.depth_le⟩
      simpa [produced, htoken] using hspells.of_same hsame
  | closed hphase hsame =>
      have hagrees := h.agrees
      rw [hphase] at hagrees
      exact hagrees.elim

/-- Behind a separator the same tokens were produced. -/
theorem Spells.resume (h : Spells settings s ts) (hphase : s.phase = .postValue) :
    Spells settings (s.resumeContainer settings) ts := by
  have hagrees := h.agrees
  have hreached := h.reached
  rw [hphase] at hagrees hreached
  have hinner : s.innermost? = (kinds s).head? := (head?_kinds s).symm
  cases hkinds : kinds s with
  | nil =>
      have hmultiple : settings.multipleValues = true :=
        hagrees.resolve_left fun hne => hne hkinds
      have hp : (s.resumeContainer settings).phase = .start := by
        simp [State.resumeContainer, hinner, hkinds, hmultiple]
      refine ⟨?_, ?_, h.unclosed_eq, h.depth_le⟩ <;> rw [hp]
      · exact hkinds
      · exact hreached
  | cons c cs =>
      have hp : (s.resumeContainer settings).phase = .within c := by
        simp [State.resumeContainer, hinner, hkinds]
      refine ⟨?_, ?_, h.unclosed_eq, h.depth_le⟩ <;> rw [hp]
      · change (kinds s).head? = some c
        rw [hkinds, List.head?_cons]
      · exact hreached

/-- A call spells what its step does; what comes before the step spells nothing. -/
theorem Spells.call (h : Spells settings s ts) (hcall : State.Call settings s s') :
    Spells settings s' (ts ++ produced [s'.token]) := by
  cases hcall with
  | direct hstep => exact h.step hstep
  | resumed hphase hstep => exact (h.resume hphase).step hstep
  | ended hphase hstep =>
      have hreached := h.reached
      rw [hphase] at hreached
      have hended : Spells settings { s with phase := .finished } ts :=
        ⟨trivial, .inl hreached, h.unclosed_eq, h.depth_le⟩
      exact hended.step hstep

/-! ## Successful calls -/

/-- Makes calls as long as they succeed. Answers the tokens that the reader stood on after each. -/
def follow : List Call → Tokenizer → Option (List Token × Tokenizer)
  | [], t => some ([], t)
  | c :: cs, t =>
    match t.call c with
    | (.ok _, t) => (follow cs t).map fun (tokens, last) => (t.token :: tokens, last)
    | (.error _, _) => none

/-- What every successful call keeps, any number of them keep. -/
theorem follow_keeps {holds : Tokenizer → Prop}
    (hcall : ∀ t c a, holds t → (t.call c).1 = .ok a → holds (t.call c).2) {calls : List Call}
    {t last : Tokenizer} {tokens : List Token} (h : holds t)
    (hfollow : follow calls t = some (tokens, last)) : holds last := by
  induction calls generalizing t tokens with
  | nil =>
      cases hfollow
      exact h
  | cons c cs ih =>
      have hnext := fun a => hcall t c a h
      unfold follow at hfollow
      generalize t.call c = outcome at hfollow hnext
      obtain ⟨⟨e⟩ | a, t'⟩ := outcome
      · cases hfollow
      · obtain ⟨⟨rest, last'⟩, hrest, heq⟩ := Option.map_eq_some_iff.mp hfollow
        cases heq
        exact ih (hnext a rfl) hrest

theorem produced_cons (t : Token) (tokens : List Token) :
    produced (t :: tokens) = produced [t] ++ produced tokens := by
  simp only [produced, ← List.filter_append, List.cons_append, List.nil_append]

theorem spells_follow {calls : List Call} {t last : Tokenizer} {tokens : List Token}
    {stream delivered : List UInt8} {d : Reach stream.length}
    (hfits : t.feed.Fits stream delivered d) (h : Spells t.options.settings t.state ts)
    (hfollow : follow calls t = some (tokens, last)) :
    Spells t.options.settings last.state (ts ++ produced tokens) := by
  induction calls generalizing t tokens ts delivered d with
  | nil =>
      cases hfollow
      simpa [produced] using h
  | cons c cs ih =>
      obtain ⟨delivered', d', hcalled⟩ := Tokenizer.called c hfits
      have hstep := hcalled.step
      have hfits' := hcalled.moves.fits
      have hoptions := Tokenizer.options_call c t
      unfold follow at hfollow
      generalize t.call c = outcome at hfollow hstep hfits' hoptions
      obtain ⟨⟨e⟩ | a, t'⟩ := outcome
      · cases hfollow
      · obtain ⟨⟨rest, last'⟩, hrest, heq⟩ := Option.map_eq_some_iff.mp hfollow
        cases heq
        have hclear : Spells t.options.settings t.state.clearSlot ts :=
          ⟨h.agrees, h.reached, h.unclosed_eq, h.depth_le⟩
        have hcall := hclear.call (hstep a rfl)
        dsimp only at hoptions
        rw [← hoptions] at hcall ⊢
        have hlast := ih hfits' hcall hrest
        rw [produced_cons, ← List.append_assoc]
        exact hlast

/-- However many calls succeed on whatever input: the tokens so far begin a text, the containers of
the reader are those that its tokens left open, no more than allowed, and its phase fits them. -/
theorem follow_spells_text (options : Options) (source : Source) (pool : Pool) (heeds : Bool)
    (calls : List Call) {tokens : List Token} {t : Tokenizer}
    (h : follow calls (Tokenizer.ofSource options source pool heeds) = some (tokens, t)) :
    (∃ rest, IsText options.multipleValues (produced tokens ++ rest)) ∧
      kinds t.state = unclosed (produced tokens) ∧
      (∀ limit, options.maxDepth = some limit → t.state.frames.length ≤ limit) ∧
      Agrees options.multipleValues (kinds t.state) t.phase := by
  have hstart : Spells options.settings {} [] := by
    refine ⟨rfl, .top ?_, rfl, fun _ _ => Nat.zero_le _⟩
    cases options.settings.multipleValues with
    | true => exact .nil
    | false => rfl
  have hspells := spells_follow (Tokenizer.fits_ofSource options source pool heeds) hstart h
  exact ⟨hspells.finish, hspells.unclosed_eq.symm, hspells.depth_le, hspells.agrees⟩

/-- Three calls on the text `[[]`, the last of which asks for an integer. -/
theorem follow_open_array_spells_text :
    ∃ t, follow [.read, .read, .readAs .int32]
        (Tokenizer.ofSource { initialCapacity := 2 } (Source.ofBytes ⟨#[0x5B, 0x5B, 0x5D]⟩) {}
          false) = some ([.opening .array, .opening .array, .closing .array], t) ∧
      (∃ rest, IsText false ([.opening .array, .opening .array, .closing .array] ++ rest)) ∧
      kinds t.state = [.array] := by
  refine ⟨_, rfl, ?_⟩
  have h := follow_spells_text { initialCapacity := 2 } (Source.ofBytes ⟨#[0x5B, 0x5B, 0x5D]⟩) {}
    false [.read, .read, .readAs .int32] rfl
  exact ⟨h.1, h.2.1⟩

end JsonPull.Grammar
