import JsonPull.Proofs.Resume.Tokenizer
import JsonPull.Proofs.Tokenizer.Typing
import JsonPull.Proofs.Value.Call

/-! # Special numbers that are refused

The words for infinities and for what is no number are values where a call takes them. Where it does
not, it fails behind the word, but unlike a number the word is not counted as an element and no
separator is awaited behind it. -/

namespace JsonPull

open JsonPull.Json

variable {settings : Settings} {stream rest more blank : List UInt8} {s : State} {pos : Nat}
  {literal : Literal} {c : Call}

namespace Literal

/-- The words that stand for numbers. -/
def isSpecial : Literal → Bool
  | nan | infinity | negativeInfinity => Bool.true
  | _ => Bool.false

/-- What a request makes of a word for a number, if it takes it. -/
def entry? (settings : Settings) (request : Request) (literal : Literal) : Option (Scalar × Value) :=
  if (request = .plain ∨ request = .double) ∧ settings.floats = .double then
    some (.float, .float literal.number)
  else if request = .string then some (.string, .string literal.text)
  else none

end Literal

/-! ## Readings -/

namespace Reading

/-- How the reading of a word for a number ends, which stands before `pos'`. A word that is not taken
leaves the state as it was. -/
def Settles (settings : Settings) (literal : Literal) (s : State) (last : Nat) :
    Option (Scalar × Value) → Except ReadError Unit → State → Nat → Prop
  | some (kind, v), r, s', pos' =>
    r = .ok () ∧ s' = s.publishScalar settings kind (.owned v) true ∧ pos' = last
  | none, r, s', pos' =>
    (∃ e, r = .error e ∧ e.kind = .ofNumberFault (.specialValue literal)) ∧ s' = s ∧ pos' = last

theorem lands_specialValue (request : Request) (hne : literal.bytes ≠ [])
    (hrest : EndsWord s.phase rest) (h : Ahead stream pos (literal.bytes ++ rest)) :
    (specialValue literal request).Lands settings stream s pos
      (Settles settings literal s (pos + literal.bytes.length)
        (literal.entry? settings request)) := by
  have hdoubles : ((request == .plain || request == .double) && settings.floats == .double) = true ↔
      (request = .plain ∨ request = .double) ∧ settings.floats = .double := by
    rw [Bool.and_eq_true, Bool.or_eq_true, beq_iff_eq, beq_iff_eq, beq_iff_eq]
  have hstring : (request == .string) = true ↔ request = .string := beq_iff_eq
  unfold specialValue Literal.entry?
  rw [lands_bind_iff fun _ => succeeds_requireWord rfl hne hrest h,
    lands_bind_iff fun _ => succeeds_read]
  dsimp only
  simp only [hdoubles, hstring]
  split
  · exact Succeeds.lands ((succeeds_update _).mpr ⟨rfl, rfl, rfl⟩)
  · split
    · exact Succeeds.lands ((succeeds_update _).mpr ⟨rfl, rfl, rfl⟩)
    · exact lands_fail _ fun e he => ⟨⟨e, rfl, he⟩, rfl, rfl⟩

/-- The first byte of a word for a number announces a reading that ends as the word is taken. -/
theorem lands_special (c : Call) (hspecial : literal.isSpecial = true) :
    ∃ b more x, literal.bytes = b :: more ∧ Solid b ∧ scalar? c (Lead.ofByte b) = some x ∧
      ∀ settings stream s pos rest, EndsWord s.phase rest →
        Ahead stream pos (literal.bytes ++ rest) → x.Lands settings stream s pos
          (Settles settings literal s (pos + literal.bytes.length)
            (literal.entry? settings c.request)) := by
  have hnegative : ∀ {request : Request} {number : Reading Unit} {settings stream s pos rest},
      EndsWord s.phase rest → Ahead stream pos (Literal.negativeInfinity.bytes ++ rest) →
      (negativeValue request number).Lands settings stream s pos
        (Settles settings .negativeInfinity s (pos + Literal.negativeInfinity.bytes.length)
          (Literal.negativeInfinity.entry? settings request)) := by
    intro request number settings stream s pos rest hrest h
    have hletter : stream[pos + 1]? = some 0x49 := h.getElem? 1
    unfold negativeValue
    rw [lands_bind_iff fun _ => succeeds_byte? _ _, hletter, if_pos (beq_self_eq_true _)]
    exact lands_specialValue request (by decide) hrest h
  cases literal with
  | nan =>
      refine ⟨0x4E, [0x61, 0x4E], specialValue .nan c.request, by decide, ⟨by decide, rfl⟩, ?_, ?_⟩
      · cases c <;> rfl
      · exact fun _ _ _ _ _ hrest h => lands_specialValue _ (by decide) hrest h
  | infinity =>
      refine ⟨0x49, [0x6E, 0x66, 0x69, 0x6E, 0x69, 0x74, 0x79], specialValue .infinity c.request,
        by decide, ⟨by decide, rfl⟩, ?_, ?_⟩
      · cases c <;> rfl
      · exact fun _ _ _ _ _ hrest h => lands_specialValue _ (by decide) hrest h
  | negativeInfinity =>
      cases c with
      | read =>
          exact ⟨0x2D, [0x49, 0x6E, 0x66, 0x69, 0x6E, 0x69, 0x74, 0x79], _, by decide,
            ⟨by decide, rfl⟩, rfl, fun _ _ _ _ _ hrest h => hnegative hrest h⟩
      | readAs form =>
          exact ⟨0x2D, [0x49, 0x6E, 0x66, 0x69, 0x6E, 0x69, 0x74, 0x79], _, by decide,
            ⟨by decide, rfl⟩, rfl, fun _ _ _ _ _ hrest h => hnegative hrest h⟩
  | true | false | null | undefined | new => cases hspecial

/-- In the place of a value, a comma is read as an undefined one, and stays. -/
theorem succeeds_token_elided (hphase : s.phase.expectsValue = true) (hblank : IsBlank blank)
    (h : Ahead stream pos (blank ++ 0x2C :: more)) :
    token.Succeeds settings stream s pos fun found s' pos' => found = true ∧
      (s.publishScalar settings .undefined .empty true).Same s' ∧
        Ahead stream pos' (0x2C :: more) := by
  rw [succeeds_token (ne_postValue_of_expectsValue hphase), succeeds_part_value hphase]
  exact succeeds_value_elided hblank.isSpace h

end Reading

/-! ## Calls -/

namespace Tokenizer

variable {t : Tokenizer}

/-- A tokenizer that has counted a value of another one as an element, and waits for what follows
it. -/
structure Completes (t t' : Tokenizer) : Prop where
  frames_eq : t'.state.frames = t.state.frames.modifyHead Frame.advance
  phase_eq : t'.phase =
    if t.state.frames ≠ [] ∨ t.options.multipleValues = true then .postValue else .finished

/-- A tokenizer that still waits for the value that another one is about to read. -/
structure Awaits (t t' : Tokenizer) : Prop where
  token_eq : t'.token = t.token
  frames_eq : t'.state.frames = t.state.frames
  phase_eq : t'.phase = t.nextPhase

theorem completes_publishScalar {t' : Tokenizer} {s : State} {kind : Scalar} {slot : Slot}
    (hframes : s.frames = t.state.frames)
    (h : (s.publishScalar t.options.settings kind slot true).Same t'.state) : t.Completes t' := by
  have hsettings : t.options.settings.multipleValues = t.options.multipleValues := rfl
  constructor
  · rw [h.frames_eq, State.frames_publishScalar]
    cases hcons : t.state.frames <;> simp [State.countElement, hframes, hcons]
  · refine h.phase_eq.trans ?_
    rw [State.phase_publishScalar, hframes, hsettings]
    cases hcons : t.state.frames <;> cases hmultiple : t.options.multipleValues <;> simp

/-- What a call makes of a word for a number, on a source that keeps its promises. -/
theorem Upright.settles (h : t.Upright stream) (hsettled : Settled (t.call c).1)
    (hspecial : literal.isSpecial = true) (hexpects : t.nextPhase.expectsValue = true)
    (hrest : EndsWord t.nextPhase rest) (hfaces : t.Faces stream (literal.bytes ++ rest)) :
    ∃ s last u, Arrives t.options.settings t.state.clearSlot s ∧ Ahead stream last rest ∧
      Reading.Settles t.options.settings literal s last
        (literal.entry? t.options.settings c.request) u (t.call c).2.state
        (t.call c).2.feed.window.cursor ∧
      (t.call c).1 = u.map fun _ => c.answer (t.call c).2.value? c.done := by
  obtain ⟨b, more, x, hword, hsolid, hx, hlands⟩ := Reading.lands_special c hspecial
  rw [hword] at hfaces
  have hsettles : ∀ s' pos', Arrives t.options.settings t.state.clearSlot s' →
      Ahead stream pos' (b :: more ++ rest) → x.Lands t.options.settings stream s' pos'
        fun r s'' pos'' => ∃ s last, Arrives t.options.settings t.state.clearSlot s ∧
          Ahead stream last rest ∧ Reading.Settles t.options.settings literal s last
            (literal.entry? t.options.settings c.request) r s'' pos'' := by
    intro s' pos' harrives hahead
    have hphase : EndsWord s'.phase rest := harrives.phase_eq ▸ hrest
    rw [← hword] at hahead
    exact (hlands _ stream s' pos' rest hphase hahead).mono fun r _ _ hr =>
      ⟨s', _, harrives, hahead.skip, hr⟩
  obtain ⟨u, ⟨s, last, harrives, hahead, hsettles⟩, hresult, -⟩ := Tokenizer.call_lands
    (h.call_whole hsettled) (h.call c).view hx hsolid hexpects hfaces hsettles
  exact ⟨s, last, u, harrives, hahead, hsettles, hresult⟩

/-- Before a comma in the place of a value, the next read finds an undefined value. -/
theorem Upright.read_elided {blank more : List UInt8} (h : t.Upright stream)
    (hsettled : Settled (t.call .read).1) (hphase : t.phase.expectsValue = true)
    (hblank : IsBlank blank)
    (hahead : Ahead stream t.feed.window.cursor (blank ++ 0x2C :: more)) :
    (t.call .read).1 = .ok (.found true) ∧ (t.call .read).2.token = .scalar .undefined ∧
      t.Completes (t.call .read).2 ∧
      Ahead stream (t.call .read).2.feed.window.cursor (0x2C :: more) := by
  have hwhole := h.call_whole hsettled
  have helided : Reading.token.Succeeds t.options.settings stream
      t.whole.state.clearSlot t.whole.cursor _ :=
    Reading.succeeds_token_elided hphase hblank hahead
  obtain ⟨found, r', hcall, rfl, hsame, hrest⟩ := Whole.call_of_succeeds helided
  rw [hcall] at hwhole
  have hresult : (t.call .read).1 = .ok (.found true) := congrArg (·.1) hwhole
  have hstate : (t.call .read).2.state = r'.state := congrArg (fun r => r.2.state) hwhole
  have hcursor : (t.call .read).2.feed.window.cursor = r'.cursor :=
    congrArg (fun r => r.2.cursor) hwhole
  rw [← hstate] at hsame
  refine ⟨hresult, ?_, completes_publishScalar rfl hsame, hcursor ▸ hrest⟩
  exact hsame.token_eq.trans (State.token_publishScalar ..)

/-- A word for a number is counted as an element only where it is taken. A call that does not take it
fails because of its format, behind the word, and the tokenizer still waits for the value at that
place: its phase, its containers and the index of the element are those from before the word. So
behind an element that was refused, its comma is read as an element of its own. -/
theorem special_counted_only_if_taken (options : Options) {source : Source} (hfair : source.Fair)
    (pool : Pool) (heeds : Bool) (calls : List Call) {tokens : List Token} {t : Tokenizer}
    (h : Grammar.follow calls (ofSource options source pool heeds) = some (tokens, t))
    (hexpects : t.nextPhase.expectsValue = true) {literal : Literal}
    (hspecial : literal.isSpecial = true) {rest : List UInt8} (hrest : EndsWord t.nextPhase rest)
    (hfaces : t.Faces source.bytes (literal.bytes ++ rest)) (c : Call)
    (hsettled : Settled (t.call c).1) :
    (∀ kind v, literal.entry? t.options.settings c.request = some (kind, v) →
      (∃ answer, (t.call c).1 = .ok answer) ∧ (t.call c).2.token = .scalar kind ∧
        t.Completes (t.call c).2) ∧
    (literal.entry? t.options.settings c.request = none →
      (∃ e, (t.call c).1 = .error e ∧ e.kind = .ofNumberFault (.specialValue literal)) ∧
        t.Awaits (t.call c).2 ∧ source.bytes.drop (t.call c).2.feed.window.cursor = rest ∧
        ∀ blank more, IsBlank blank → rest = blank ++ 0x2C :: more →
          Settled ((t.call c).2.call .read).1 →
          ((t.call c).2.call .read).1 = .ok (.found true) ∧
            ((t.call c).2.call .read).2.token = .scalar .undefined ∧
            (t.call c).2.Completes ((t.call c).2.call .read).2) := by
  have hupright : t.Upright source.bytes := Grammar.follow_keeps (fun _ c _ hu _ => hu.call c)
    (upright_ofSource options hfair pool heeds) h
  obtain ⟨s, last, u, harrives, hahead, hsettles, hresult⟩ :=
    hupright.settles hsettled hspecial hexpects hrest hfaces
  constructor
  · intro kind v hentry
    rw [hentry] at hsettles
    obtain ⟨rfl, hstate, -⟩ := hsettles
    have htoken : (t.call c).2.state.token = .scalar kind := by
      rw [hstate, State.token_publishScalar]
    have hsame : (s.publishScalar t.options.settings kind (.owned v) true).Same
        (t.call c).2.state := by
      rw [hstate]
      exact .refl _
    exact ⟨⟨_, hresult⟩, htoken, completes_publishScalar harrives.frames_eq hsame⟩
  · intro hentry
    rw [hentry] at hsettles
    obtain ⟨⟨e, rfl, hkind⟩, hstate, hcursor⟩ := hsettles
    have hawaits : t.Awaits (t.call c).2 := by
      refine ⟨?_, ?_, ?_⟩
      · exact (congrArg State.token hstate).trans harrives.token_eq
      · exact (congrArg State.frames hstate).trans harrives.frames_eq
      · exact (congrArg State.phase hstate).trans harrives.phase_eq
    rw [← hcursor] at hahead
    refine ⟨⟨e, hresult, hkind⟩, hawaits, hahead, ?_⟩
    rintro blank more hblank rfl hnext
    have hphase : (t.call c).2.phase.expectsValue = true := hawaits.phase_eq ▸ hexpects
    obtain ⟨hfound, htoken, hcompletes, -⟩ :=
      (hupright.call c).read_elided hnext hphase hblank hahead
    exact ⟨hfound, htoken, hcompletes⟩

/-- With decimal numbers, `-Infinity` is refused as the first element of an array, and the comma behind
it is read as an element. -/
theorem special_counted_only_if_taken_refused :
    let options : Options := { floats := .decimal, initialCapacity := 1 }
    let source : Source :=
      { script := [.bytes ⟨#[0x5B, 0x20, 0x2D, 0x49, 0x6E, 0x66]⟩ 0,
          .bytes ⟨#[0x69, 0x6E, 0x69, 0x74, 0x79, 0x20, 0x2C, 0x32, 0x5D]⟩ 0], limit := some 3 }
    let start := ofSource options source {} false
    let rest : List UInt8 := [0x20, 0x2C, 0x32, 0x5D]
    ∃ t, source.Fair ∧ Grammar.follow [.read] start = some ([.opening .array], t) ∧
      t.nextPhase.expectsValue = true ∧ EndsWord t.nextPhase rest ∧
      t.Faces source.bytes (Literal.negativeInfinity.bytes ++ rest) ∧
      (∃ e, (t.call .read).1 = .error e ∧
        e.kind = .ofNumberFault (.specialValue .negativeInfinity)) ∧
      t.Awaits (t.call .read).2 ∧
      ((t.call .read).2.call .read).2.token = .scalar .undefined := by
  intro options source start rest
  have hfair : source.Fair := (by decide : source.Steady).fair
  have hopened : (start.call .read).1 = .ok (.found true) := by decide +kernel
  have htoken : (start.call .read).2.token = .opening .array := by decide +kernel
  have hfollow : Grammar.follow [.read] start =
      some ([.opening .array], (start.call .read).2) := by
    rw [← htoken]
    exact follow_one (pair_eq hopened)
  have hphase : (start.call .read).2.state.phase ≠ .postValue := by decide +kernel
  have hexpects : (start.call .read).2.nextPhase.expectsValue = true := by decide +kernel
  have hspace : IsBlank [0x20] := fun b hb => .inl (List.mem_singleton.mp hb)
  have hahead : source.bytes.drop (start.call .read).2.feed.window.cursor =
      [0x20] ++ (Literal.negativeInfinity.bytes ++ rest) := by decide +kernel
  have hfaces : (start.call .read).2.Faces source.bytes
      (Literal.negativeInfinity.bytes ++ rest) := ⟨_, .blanks hphase hspace, hahead⟩
  have hrest : EndsWord (start.call .read).2.nextPhase rest := .blank (c := ' ') (by decide)
  have hfailed : ((start.call .read).2.call .read).1 = .error
      { kind := .ofNumberFault (.specialValue .negativeInfinity), path := "", line := 1,
        position := 11 } := by decide +kernel
  have hnext : (((start.call .read).2.call .read).2.call .read).1 = .ok (.found true) := by
    decide +kernel
  have hsettled : Settled ((start.call .read).2.call .read).1 := by
    rw [hfailed]
    rintro _ ⟨⟩
    rfl
  have hoptions : (start.call .read).2.options = options := options_call _ _
  have hentry : Literal.negativeInfinity.entry? (start.call .read).2.options.settings
      Call.read.request = none := by
    rw [hoptions]
    rfl
  obtain ⟨hrefused, hawaits, -, hcomma⟩ := (special_counted_only_if_taken options hfair {} false _
    hfollow hexpects rfl hrest hfaces .read hsettled).2 hentry
  obtain ⟨-, hundefined, -⟩ := hcomma [0x20] [0x32, 0x5D] hspace rfl (hnext ▸ settled_ok _)
  exact ⟨_, hfair, hfollow, hexpects, hrest, hfaces, hrefused, hawaits, hundefined⟩

/-- In the text `[NaN,1]`, an integer is asked for in the place of the first element. The call fails
because of the format, but the first element is not counted, and what is read next is neither of the
two elements. -/
theorem special_refused_read_again :
    let source := Source.ofBytes ⟨#[0x5B, 0x4E, 0x61, 0x4E, 0x2C, 0x31, 0x5D]⟩
    let start := ofSource { initialCapacity := 8 } source {} false
    ∃ t, Grammar.follow [.read] start = some ([.opening .array], t) ∧
      t.nextPhase.expectsValue = true ∧ EndsWord t.nextPhase [0x2C, 0x31, 0x5D] ∧
      t.Faces source.bytes (Literal.nan.bytes ++ [0x2C, 0x31, 0x5D]) ∧
      (t.call (.readAs .int32)).1 = .error
        { kind := .numberFormat "Cannot read NaN value.", path := "", line := 1, position := 4 } ∧
      ¬ t.Completes (t.call (.readAs .int32)).2 ∧
      ((t.call (.readAs .int32)).2.call .read).2.token = .scalar .undefined := by
  intro source start
  have hopened : (start.call .read).1 = .ok (.found true) := by decide +kernel
  have htoken : (start.call .read).2.token = .opening .array := by decide +kernel
  have hfollow : Grammar.follow [.read] start =
      some ([.opening .array], (start.call .read).2) := by
    rw [← htoken]
    exact follow_one (pair_eq hopened)
  have hphase : (start.call .read).2.state.phase ≠ .postValue := by decide +kernel
  have hexpects : (start.call .read).2.nextPhase.expectsValue = true := by decide +kernel
  have hahead : source.bytes.drop (start.call .read).2.feed.window.cursor =
      [] ++ (Literal.nan.bytes ++ [0x2C, 0x31, 0x5D]) := by decide +kernel
  have huncounted : ((start.call .read).2.call (.readAs .int32)).2.state.frames ≠
      (start.call .read).2.state.frames.modifyHead Frame.advance := by decide +kernel
  have hfaces : (start.call .read).2.Faces source.bytes
      (Literal.nan.bytes ++ [0x2C, 0x31, 0x5D]) := ⟨[], .blanks hphase isBlank_nil, hahead⟩
  have hrest : EndsWord (start.call .read).2.nextPhase [0x2C, 0x31, 0x5D] := .mark (by decide)
  have hfailed : ((start.call .read).2.call (.readAs .int32)).1 = .error
      { kind := .numberFormat "Cannot read NaN value.", path := "", line := 1, position := 4 } := by
    decide +kernel
  have hundefined : (((start.call .read).2.call (.readAs .int32)).2.call .read).2.token =
      .scalar .undefined := by decide +kernel
  exact ⟨_, hfollow, hexpects, hrest, hfaces, hfailed,
    fun hcompletes => huncounted hcompletes.frames_eq, hundefined⟩

end Tokenizer

end JsonPull
