import JsonPull.Proofs.Json.Complete
import JsonPull.Proofs.Reading.Outcome
import JsonPull.Proofs.Tokenizer.Place

/-! # Documents one after another

Behind a whole document no container is open, and nothing is left of its tokens. So the next one is
read as if it was alone, and what stands behind a blank never reaches back over it. -/

namespace JsonPull

open JsonPull.Json JsonPull.Outline

/-- What is shown of a token, and where it stands. -/
structure Sighting where
  token : Token
  value? : Option Value
  path : String
  depth : Nat
deriving DecidableEq

/-- A token where these steps lead. -/
def Sighting.of (e : Entry) (place : List Frame) : Sighting where
  token := e.1
  value? := e.2
  path := Frame.path place
  depth := place.length

def View.sighting (v : View) : Sighting where
  token := v.token
  value? := v.value?
  path := v.path
  depth := v.depth

variable {settings : Settings} {stream blank text rest : List UInt8} {phase : Phase}
  {kinds : List Container}

namespace Json

/-- Texts in a row, with blanks between them. -/
inductive Joined : List (List UInt8) → List UInt8 → Prop where
  | nil : Joined [] []
  | last (text : List UInt8) : Joined [text] text
  | next {text text' blank rest : List UInt8} {texts : List (List UInt8)} (hblank : IsBlank blank)
      (hne : blank ≠ []) (h : Joined (text' :: texts) rest) :
      Joined (text :: text' :: texts) (text ++ (blank ++ rest))

/-- Tokens behind `before` with the places that they have if these are the steps to the first of all. -/
def placed (outer : List Frame) (before : List Entry) : List Entry → List Sighting
  | [] => []
  | e :: entries =>
    .of e (outer ++ place (before ++ [e])) :: placed outer (before ++ [e]) entries

/-- Tokens with the places that they have where these containers are open, the innermost first. -/
def standing (frames : List Frame) : List Entry → List Sighting
  | [] => []
  | e :: entries => .of e (around e.1 (push frames e)) :: standing (push frames e) entries

theorem standing_append (frames : List Frame) (entries entries' : List Entry) :
    standing frames (entries ++ entries') =
      standing frames entries ++ standing (entries.foldl push frames) entries' := by
  induction entries generalizing frames with
  | nil => rfl
  | cons e entries ih => exact congrArg (List.cons _) (ih (push frames e))

/-- Tokens leave the containers around them as they are, as long as their own are open. -/
theorem standing_stack {frames : List Frame} {before entries : List Entry}
    (h : frames = [] ∨ ∀ first, first <+: entries → first ≠ entries → stack (before ++ first) ≠ []) :
    standing (stack before ++ frames) entries = placed frames.reverse before entries := by
  induction entries generalizing before with
  | nil => rfl
  | cons e entries ih =>
      have hpush : push (stack before ++ frames) e = stack (before ++ [e]) ++ frames ∧
          around e.1 (stack (before ++ [e]) ++ frames) =
            frames.reverse ++ around e.1 (stack (before ++ [e])) := by
        rcases h with rfl | h
        · simp [stack_snoc]
        · obtain ⟨f, fs, hstack⟩ : ∃ f fs, stack before = f :: fs := by
            have hne := h [] List.nil_prefix (List.cons_ne_nil _ _).symm
            rw [List.append_nil] at hne
            exact List.exists_cons_of_ne_nil hne
          obtain ⟨token, value⟩ := e
          rw [stack_snoc, hstack]
          cases token <;> simp [push, around, Token.isStart]
      have hnext : frames = [] ∨ ∀ first, first <+: entries → first ≠ entries →
          stack (before ++ [e] ++ first) ≠ [] := by
        refine h.imp_right fun h first hfirst hne => ?_
        rw [List.append_assoc]
        exact h (e :: first) ((List.prefix_cons_inj e).mpr hfirst) (by simpa using hne)
      rw [standing, placed, hpush.1, hpush.2, ← place_snoc, ih hnext]

theorem standing_nil (entries : List Entry) : standing [] entries = placed [] [] entries :=
  @standing_stack [] [] entries (.inl rfl)

end Json

namespace Whole

variable {r r' : Whole} {tokens : List Entry} {seen seen' : List Sighting}

/-- Reads show these tokens one after another, and then find no more. -/
def Yields (settings : Settings) (stream : List UInt8) : Whole → List Sighting → Prop
  | r, [] => (r.call settings stream .read).1 = .ok (.found false)
  | r, x :: seen =>
    (r.call settings stream .read).1 = .ok (.found true) ∧
      ((r.call settings stream .read).2.view stream).sighting = x ∧
      (r.call settings stream .read).2.Yields settings stream seen

/-- Reads show these tokens one after another. -/
def Shows (settings : Settings) (stream : List UInt8) : Whole → List Sighting → Whole → Prop
  | r, [], r' => r = r'
  | r, x :: seen, r' => ∃ r₁, r.call settings stream .read = (.ok (.found true), r₁) ∧
      (r₁.view stream).sighting = x ∧ r₁.Shows settings stream seen r'

theorem Shows.yields (h : r.Shows settings stream seen r') (h' : r'.Yields settings stream seen') :
    r.Yields settings stream (seen ++ seen') := by
  induction seen generalizing r with
  | nil =>
      cases h
      exact h'
  | cons x seen ih =>
      obtain ⟨r₁, hcall, hview, hrest⟩ := h
      rw [List.cons_append, Yields, hcall]
      exact ⟨rfl, hview, ih hrest⟩

theorem Yields.unique (h : r.Yields settings stream seen) (h' : r.Yields settings stream seen') :
    seen = seen' := by
  induction seen generalizing r seen' with
  | nil =>
      cases seen' with
      | nil => rfl
      | cons x seen' => cases h.symm.trans h'.1
  | cons x seen ih =>
      cases seen' with
      | nil => cases h.1.symm.trans h'
      | cons x' seen' =>
          obtain ⟨-, rfl, hrest⟩ := h
          obtain ⟨-, rfl, hrest'⟩ := h'
          rw [ih hrest hrest']

theorem Yields.completes (h : r.Yields settings stream seen) : r.Completes settings stream := by
  induction seen generalizing r with
  | nil => exact ⟨[], r, _, rfl, Prod.ext h rfl⟩
  | cons x seen ih =>
      obtain ⟨hcall, -, hrest⟩ := h
      obtain ⟨tokens, r', r'', hproduces, hend⟩ := ih hrest
      exact ⟨(_, _) :: tokens, r', r'', ⟨_, Prod.ext hcall rfl, rfl, rfl, hproduces⟩, hend⟩

/-- A read that succeeds is a step of the reader. -/
theorem call_step {found : Bool} (hcursor : r.cursor ≤ stream.length)
    (h : r.call settings stream .read = (.ok (.found found), r')) :
    State.Call settings r.state.clearSlot r'.state ∧ r'.cursor ≤ stream.length := by
  have hgives := (Tokenizer.ensures_next r.state (Reach.fetched r.cursor hcursor) settings).gives
  rw [call_eq] at h
  unfold Whole.run at h
  generalize hrun : ((Call.read.program.run settings).run.run r.state).runWith (tape stream)
    r.cursor = outcome at h
  obtain ⟨⟨e | b, s'⟩, pos'⟩ := outcome
  · cases h
  · cases h
    obtain ⟨d, ⟨hcall, -⟩, hpos⟩ := hgives.run _ s' pos' hrun
    exact ⟨hcall, hpos ▸ d.pos_le.trans d.seen_le⟩

/-- Tokens stand where the open containers and they themselves tell. -/
theorem Produces.shows (h : r.Produces settings stream tokens r') (hcursor : r.cursor ≤ stream.length)
    (hopen : r.state.phase ≠ .closed)
    (hvisible : ∀ token ∈ tokens, token.1 ≠ .comment ∧ token.1 ≠ .none) :
    r'.cursor ≤ stream.length ∧ r.Shows settings stream (standing r.state.frames tokens) r' := by
  induction tokens generalizing r with
  | nil =>
      cases h
      exact ⟨hcursor, rfl⟩
  | cons token tokens ih =>
      obtain ⟨token, value⟩ := token
      obtain ⟨r₁, hcall, rfl, rfl, hrest⟩ := h
      obtain ⟨⟨hcomment, hnone⟩, hvisible⟩ := List.forall_mem_cons.mp hvisible
      obtain ⟨hstep, hcursor₁⟩ := call_step hcursor hcall
      have hvalue : ∀ v, r₁.state.slot = .owned v → r₁.value? stream = some v := by
        intro v hslot
        rw [value?, hslot]
        rfl
      obtain ⟨hpush, hopen₁, hplace⟩ := hstep.pushes hopen hvalue
      obtain ⟨hpath, hdepth⟩ := hplace hcomment hnone
      obtain ⟨hcursor', hshows⟩ := ih hrest hcursor₁ hopen₁ hvisible
      have hpush : r₁.state.frames = push r.state.frames (r₁.state.token, r₁.value? stream) := hpush
      rw [hpush] at hpath hdepth hshows
      refine ⟨hcursor', r₁, hcall, ?_, hshows⟩
      rw [View.sighting, view, Sighting.of]
      dsimp only
      rw [hpath, hdepth]

/-- Where a document has ended or none has begun, there is no token in blanks. -/
theorem yields_nil (hblank : IsBlank blank)
    (hphase : phase = .start ∨ phase = .finished ∨ phase = .postValue)
    (h : Stands stream phase [] blank r.state r.cursor) : r.Yields settings stream [] := by
  have hnone : Reading.token.Succeeds settings stream r.state.clearSlot r.cursor
      fun found _ _ => found = false := by
    rcases hphase with rfl | hphase
    · exact Reading.succeeds_token_missing rfl hblank h.clearSlot
    · exact (Reading.succeeds_token_end hblank hphase h.clearSlot).mono fun _ _ _ hend => hend.1
  obtain ⟨found, r', hcall, rfl⟩ := call_of_succeeds hnone
  exact congrArg (·.1) hcall

end Whole

namespace Json

variable {tokens : List Entry} {seen : List Sighting} {r : Whole}

/-- A text that gives these tokens, whether or not other values may follow. -/
inductive Recited (settings : Settings) : List UInt8 → List Entry → Prop where
  | mk {before text after : List UInt8} {tokens : List Entry} {depth : Nat}
      (hbefore : IsBlank before) (h : Derives .value text)
      (hrecites : Recites settings .value tokens depth text) (hdepth : Allows settings depth)
      (hafter : IsBlank after) : Recited settings (before ++ (text ++ after)) tokens

theorem IsNumber.begins (h : IsNumber text) :
    ∃ b more x, text = b :: more ∧ Reading.announced? (Lead.ofByte b) = some x ∧
      Lead.ofByte b ≠ .closing .array ∧ (b < 0x80 ∧ Text.isBlankByte b = false) := by
  obtain ⟨b, more, hb, rfl | rfl⟩ := begin_number h
  · obtain ⟨hlead, hsolid, -⟩ := digit_cases hb
    exact ⟨b, more, _, rfl, by rw [hlead]; rfl, by rw [hlead]; nofun, hsolid⟩
  · exact ⟨0x2D, b :: more, _, rfl, rfl, by decide, by decide⟩

/-- A value begins with a byte that announces it. -/
theorem value_begins (h : Derives .value text) :
    ∃ b more x, text = b :: more ∧ Reading.announced? (Lead.ofByte b) = some x ∧
      Lead.ofByte b ≠ .closing .array ∧ (b < 0x80 ∧ Text.isBlankByte b = false) := by
  cases h with
  | number h => exact h.begins
  | string h =>
      cases h
      exact ⟨0x22, _, _, rfl, rfl, by decide, by decide⟩
  | null => exact ⟨0x6E, _, _, rfl, rfl, by decide, by decide⟩
  | true => exact ⟨0x74, _, _, rfl, rfl, by decide, by decide⟩
  | false => exact ⟨0x66, _, _, rfl, rfl, by decide, by decide⟩
  | emptyArray | array => exact ⟨0x5B, _, _, rfl, rfl, by decide, by decide⟩
  | emptyObject | object => exact ⟨0x7B, _, _, rfl, rfl, by decide, by decide⟩

/-- Where a document may begin, it is awaited. -/
theorem awaits_document (h : Derives .value text) (hblank : IsBlank blank)
    (hphase : phase = .start ∨ phase = .postValue ∧ settings.multipleValues = true)
    (hstands : Stands stream phase [] (blank ++ (text ++ rest)) r.state r.cursor) :
    ∃ blank', IsBlank blank' ∧ Reading.Awaits settings stream .start [] (blank' ++ (text ++ rest))
      r.state.clearSlot r.cursor := by
  obtain rfl | ⟨rfl, hmultiple⟩ := hphase
  · exact ⟨blank, hblank, Reading.awaits_part hstands.clearSlot nofun⟩
  · obtain ⟨b, more, x, rfl, hx, hclosing, hsolid⟩ := value_begins h
    exact ⟨[], isBlank_nil,
      Reading.awaits_next hmultiple hblank hx hclosing hsolid hstands.clearSlot⟩

/-- A document is read from where it may begin, and leaves the reader behind a value. -/
theorem Recited.shows (h : Recited settings text tokens)
    (hphase : phase = .start ∨ phase = .postValue ∧ settings.multipleValues = true)
    (hblank : IsBlank blank) (hend : IsEnd rest)
    (hstands : Stands stream phase [] (blank ++ (text ++ rest)) r.state r.cursor)
    (hcursor : r.cursor ≤ stream.length) :
    ∃ (r' : Whole) (blank' : List UInt8), IsBlank blank' ∧
      Stands stream (completed settings []) [] (blank' ++ rest) r'.state r'.cursor ∧
      r'.cursor ≤ stream.length ∧ r.Shows settings stream (placed [] [] tokens) r' := by
  obtain ⟨hbefore, h, hrecites, hdepth, hafter⟩ := h
  rename_i before text after depth
  simp only [List.append_assoc] at hstands
  rw [← List.append_assoc] at hstands
  obtain ⟨blank', hblank', hawaits⟩ :=
    awaits_document h (hblank.append hbefore) hphase hstands
  have hfits : Shape.value.Fits .start [] := rfl
  have hallows : Allows settings (([] : List Container).length + depth) := by
    rwa [List.length_nil, Nat.zero_add]
  obtain ⟨r', hproduces, hstands'⟩ := hrecites.reads settings.multipleValues stream hfits hblank'
    ((hafter.isEnd_append hend).endsWord _) hallows hawaits
  have hopen : r.state.phase ≠ .closed := by
    rw [hstands.phase_eq]
    rcases hphase with rfl | ⟨rfl, -⟩ <;> nofun
  have hframes : r.state.frames = [] := List.map_eq_nil_iff.mp hstands.kinds_eq
  obtain ⟨hcursor', hshows⟩ := hproduces.shows hcursor hopen hrecites.visible
  rw [hframes, standing_nil] at hshows
  exact ⟨r', after, hafter, hstands', hcursor', hshows⟩

/-- A text that is read to its end alone gives what it was seen to give. -/
theorem IsJson.recited {multipleValues : Bool} (hjson : IsJson text)
    (h : Whole.Yields { settings with multipleValues } text {} seen) :
    ∃ tokens, Recited settings text tokens ∧ seen = placed [] [] tokens := by
  obtain ⟨hbefore, hvalue, hafter⟩ := hjson
  rename_i before text after
  have hstands : Stands (before ++ (text ++ after)) .start [] (before ++ (text ++ after)) {} 0 :=
    ⟨rfl, rfl, rfl⟩
  have htells : Tells { settings with multipleValues } (before ++ (text ++ after)) .value text :=
    hvalue.tells
  have hfits : Shape.value.Fits .start [] := rfl
  obtain ⟨tokens, depth, hrecites, hdepth⟩ := htells hfits hbefore
    (by rw [← List.append_nil after]; exact (hafter.isEnd_append isEnd_nil).endsWord _)
    (fun limit _ => Nat.zero_le limit) (Reading.awaits_part hstands.clearSlot nofun) h.completes
  rw [List.length_nil, Nat.zero_add] at hdepth
  refine ⟨tokens, .mk hbefore hvalue ⟨hrecites.reads, hrecites.nests, hrecites.visible⟩ hdepth hafter,
    ?_⟩
  have hrecited : Recited { settings with multipleValues } (before ++ (text ++ after)) tokens :=
    .mk hbefore hvalue hrecites hdepth hafter
  have hstart : Stands (before ++ (text ++ after)) .start []
      ([] ++ ((before ++ (text ++ after)) ++ [])) {} 0 := by
    rwa [List.nil_append, List.append_nil]
  have hcursor : ({} : Whole).cursor ≤ (before ++ (text ++ after)).length := Nat.zero_le _
  obtain ⟨r', blank', hblank', hstands', -, hshows⟩ :=
    hrecited.shows (.inl rfl) isBlank_nil isEnd_nil hstart hcursor
  rw [List.append_nil] at hstands'
  have hend := hshows.yields (Whole.yields_nil hblank' (.inr (completed_outermost _)) hstands')
  rw [List.append_nil] at hend
  exact h.unique hend

/-- Documents in a row are read as if each was alone. -/
theorem yields_documents {texts : List (List UInt8)} {documents : List (List Entry)}
    {joined : List UInt8} (hmultiple : settings.multipleValues = true) (hjoined : Joined texts joined)
    (hdocuments : List.Forall₂ (Recited settings) texts documents)
    (hphase : phase = .start ∨ phase = .postValue) (hblank : IsBlank blank)
    (hstands : Stands stream phase [] (blank ++ joined) r.state r.cursor)
    (hcursor : r.cursor ≤ stream.length) :
    r.Yields settings stream (documents.map (placed [] [])).flatten := by
  have hbegin : ∀ {phase : Phase}, phase = .start ∨ phase = .postValue →
      phase = .start ∨ phase = .postValue ∧ settings.multipleValues = true :=
    fun hphase => hphase.imp_right fun hphase => ⟨hphase, hmultiple⟩
  have hcompleted : completed settings [] = .postValue := by
    rw [completed, hmultiple]
    rfl
  induction hjoined generalizing r phase blank documents with
  | nil =>
      cases hdocuments
      rw [List.append_nil] at hstands
      exact Whole.yields_nil hblank (hphase.imp_right .inr) hstands
  | last text =>
      obtain ⟨tokens, _, hrecited, hnone, rfl⟩ := List.forall₂_cons_left_iff.mp hdocuments
      cases hnone
      rw [← List.append_nil text] at hstands
      obtain ⟨r', blank', hblank', hstands', -, hshows⟩ :=
        hrecited.shows (hbegin hphase) hblank isEnd_nil hstands hcursor
      rw [List.append_nil] at hstands'
      exact hshows.yields (Whole.yields_nil hblank' (.inr (completed_outermost settings)) hstands')
  | next hblank₁ hne hjoined ih =>
      obtain ⟨tokens, documents, hrecited, hrest, rfl⟩ :=
        List.forall₂_cons_left_iff.mp hdocuments
      obtain ⟨r', blank', hblank', hstands', hcursor', hshows⟩ := hrecited.shows (hbegin hphase)
        hblank (hblank₁.isEnd_of_ne_nil hne _) hstands hcursor
      rw [hcompleted, ← List.append_assoc] at hstands'
      exact hshows.yields (ih hrest (.inr rfl) (hblank'.append hblank₁) hstands' hcursor')

end Json

namespace Tokenizer

/-- Reads show these tokens one after another, and then find no more. -/
def Yields : Tokenizer → List Sighting → Prop
  | t, [] => t.read.1 = .ok false
  | t, x :: seen => t.read.1 = .ok true ∧ t.read.2.view.sighting = x ∧ t.read.2.Yields seen

instance decidableYields : (seen : List Sighting) → (t : Tokenizer) → Decidable (t.Yields seen)
  | [], t => inferInstanceAs (Decidable (t.read.1 = .ok false))
  | x :: seen, t =>
    have := decidableYields seen t.read.2
    inferInstanceAs (Decidable (t.read.1 = .ok true ∧ t.read.2.view.sighting = x ∧
      t.read.2.Yields seen))

/-- A text is read as these tokens when some source delivers it. -/
def Renders (options : Options) (text : List UInt8) (seen : List Sighting) : Prop :=
  ∃ (source : Source) (pool : Pool) (heeds : Bool), source.Steady ∧ source.bytes = text ∧
    (ofSource options source pool heeds).Yields seen

theorem Sound.yields_iff {t : Tokenizer} (h : t.Sound stream) (seen : List Sighting) :
    t.Yields seen ↔ t.whole.Yields t.options.settings stream seen := by
  have hread : ∀ {t : Tokenizer} {b : Bool}, t.Sound stream → (t.read.1 = .ok b ↔
      (t.whole.call t.options.settings stream .read).1 = .ok (.found b)) := by
    intro t b h
    rw [← (h.call .read).1, show (t.call .read).1 = t.read.1.map .found from rfl]
    cases t.read.1 <;> simp [Except.map]
  induction seen generalizing t with
  | nil => exact hread h
  | cons x seen ih =>
      obtain ⟨hcall, hsound⟩ : _ ∧ t.read.2.Sound stream := h.call .read
      have hnext : (t.whole.call t.options.settings stream .read).2 = t.read.2.whole :=
        (congrArg (·.2) hcall).symm
      have hoptions : t.read.2.options = t.options := options_call .read t
      have hrest : t.read.2.Yields seen ↔
          t.read.2.whole.Yields t.read.2.options.settings stream seen := ih hsound
      rw [Yields, Whole.Yields, hread h, hnext, hsound.view, hrest, hoptions]

/-- Texts of JSON that are each read to their end alone give, in a row with blanks between them, the
tokens of each in turn, and then no more. -/
theorem yields_joined {options : Options} {texts : List (List UInt8)}
    {seen : List (List Sighting)} {source : Source} (hjson : ∀ text ∈ texts, IsJson text)
    (halone : List.Forall₂ (Renders { options with multipleValues := false }) texts seen)
    (hjoined : Joined texts source.bytes) (hsource : source.Steady) (pool : Pool) (heeds : Bool) :
    (ofSource { options with multipleValues := true } source pool heeds).Yields seen.flatten := by
  have hrecited : ∃ documents : List (List Entry), List.Forall₂
      (Recited { options with multipleValues := true }.settings) texts documents ∧
        seen = documents.map (placed [] []) := by
    clear hjoined
    induction halone with
    | nil => exact ⟨[], .nil, rfl⟩
    | @cons text seen texts rest hrenders halone ih =>
        obtain ⟨htext, htexts⟩ := List.forall_mem_cons.mp hjson
        obtain ⟨documents, hdocuments, rfl⟩ := ih htexts
        obtain ⟨source, pool, heeds, hsteady, rfl, hyields⟩ := hrenders
        have hwhole : Whole.Yields
            { { options with multipleValues := true }.settings with multipleValues := false }
            source.bytes {} seen :=
          (Sound.yields_iff (sound_ofSource _ hsteady pool heeds) seen).mp hyields
        obtain ⟨tokens, htokens, rfl⟩ := IsJson.recited htext hwhole
        exact ⟨tokens :: documents, .cons htokens hdocuments, rfl⟩
  obtain ⟨documents, hdocuments, rfl⟩ := hrecited
  rw [Sound.yields_iff (sound_ofSource _ hsource pool heeds)]
  have hstands : Stands source.bytes .start [] ([] ++ source.bytes) {} 0 := ⟨rfl, rfl, rfl⟩
  exact yields_documents rfl hjoined hdocuments (.inl rfl) isBlank_nil hstands (Nat.zero_le _)

/-- The texts `[1]` and `{"a":[]}` in two lines, which come byte by byte. -/
theorem yields_joined_lines :
    let texts : List (List UInt8) := [[0x5B, 0x31, 0x5D],
      [0x7B, 0x22, 0x61, 0x22, 0x3A, 0x5B, 0x5D, 0x7D]]
    let array : List Sighting := [⟨.opening .array, none, "", 0⟩,
      ⟨.scalar .integer, some (.integer 1), "[0]", 1⟩, ⟨.closing .array, none, "", 0⟩]
    let object : List Sighting := [⟨.opening .object, none, "", 0⟩,
      ⟨.propertyName, some (.string "a"), "a", 1⟩, ⟨.opening .array, none, "a", 1⟩,
      ⟨.closing .array, none, "a", 1⟩, ⟨.closing .object, none, "", 0⟩]
    let options : Options := { initialCapacity := 2 }
    let source : Source :=
      { script := [.bytes ⟨#[0x5B, 0x31, 0x5D, 0x0A, 0x7B, 0x22, 0x61, 0x22, 0x3A, 0x5B, 0x5D,
          0x7D]⟩ 0], limit := some 1 }
    (∀ text ∈ texts, IsJson text) ∧
      List.Forall₂ (Renders { options with multipleValues := false }) texts [array, object] ∧
      Joined texts source.bytes ∧ source.Steady ∧
      (ofSource { options with multipleValues := true } source {} false).Yields
        [array, object].flatten := by
  intro texts array object options source
  have hfeed : IsBlank [0x0A] := by
    intro b hb
    exact .inr (.inr (.inl (List.mem_singleton.mp hb)))
  have hone : IsNumber [0x31] := by
    have hwhole : IsWhole [0x31] := by
      refine ⟨⟨List.cons_ne_nil _ _, fun b hb => ?_⟩, fun h => absurd (Option.some.inj h) (by decide)⟩
      rw [List.mem_singleton.mp hb]
      decide
    exact .mk (.inl rfl) hwhole .none .none
  have hname : IsStringText [0x22, 0x61, 0x22] :=
    .mk (@IsBodyText.raw 'a' [] (by decide) (by decide) (by decide) .nil)
  have harray : IsJson [0x5B, 0x31, 0x5D] :=
    .mk isBlank_nil (.array (.lastItem isBlank_nil (.number hone)) isBlank_nil) isBlank_nil
  have hmembers : Derives .members [0x22, 0x61, 0x22, 0x3A, 0x5B, 0x5D] :=
    .lastMember isBlank_nil (.member hname isBlank_nil isBlank_nil (.emptyArray isBlank_nil))
  have hobject : IsJson [0x7B, 0x22, 0x61, 0x22, 0x3A, 0x5B, 0x5D, 0x7D] :=
    .mk isBlank_nil (.object hmembers isBlank_nil) isBlank_nil
  have hjson : ∀ text ∈ texts, IsJson text :=
    List.forall_mem_cons.mpr ⟨harray, List.forall_mem_cons.mpr ⟨hobject, nofun⟩⟩
  have halone : List.Forall₂ (Renders { options with multipleValues := false }) texts
      [array, object] := by
    refine .cons ⟨Source.ofBytes ⟨#[0x5B, 0x31, 0x5D]⟩, {}, false, by decide, rfl, ?_⟩
      (.cons ⟨Source.ofBytes ⟨#[0x7B, 0x22, 0x61, 0x22, 0x3A, 0x5B, 0x5D, 0x7D]⟩, {}, false,
        by decide, rfl, ?_⟩ .nil)
    · decide +kernel
    · decide +kernel
  have hjoined : Joined texts source.bytes := .next hfeed (List.cons_ne_nil _ _) (.last _)
  have hsteady : source.Steady := by decide
  exact ⟨hjson, halone, hjoined, hsteady, yields_joined hjson halone hjoined hsteady {} false⟩

end Tokenizer

end JsonPull
