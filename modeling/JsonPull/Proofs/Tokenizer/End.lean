import JsonPull.Proofs.Stream.End
import JsonPull.Proofs.Tokenizer.Coherence

/-! # The end of the input

A read finds no token only where the source has ended, nothing is left unread and no separator is
due. There the tokenizer stays as it is: every call finds the same end again, whatever was open, and
none asks the source for more. -/

namespace JsonPull

open State Reading

/-! ## Coming to the end -/

namespace Tokenizer

variable {t : Tokenizer} {retain : Retain}

theorem leads_byte? (t : Tokenizer) (ahead : Nat) :
    t.Leads (byte? ahead retain) fun b t' => b = none → t'.feed.Lacks ahead := by
  have hrun : (t.run (ask (.byte ahead retain))).2.feed = (t.feed.byte? ahead retain).2 := rfl
  have hask : t.Leads (ask (.byte ahead retain)) fun answer t' =>
      answer = .ok none → t'.feed.Lacks ahead := by
    rintro _ ⟨⟩ hnone
    rw [hrun]
    exact Feed.lacks_of_byte? hnone
  refine hask.bind fun answer t' h => ?_
  split
  · exact leads_pure fun hb => h (hb ▸ rfl)
  · exact leads_fail _ _
  · exact leads_fail _ _

/-- Blanks are skipped up to a byte, or up to where nothing is left. -/
theorem leads_skipBlanks (t : Tokenizer) :
    t.Leads skipBlanks fun b t' =>
      (b = none → t'.feed.Lacks 0) ∧ t'.state.phase = t.state.phase := by
  have hlacks : t.Leads skipBlanks fun b t' => b = none → t'.feed.Lacks 0 := by
    refine leads_repeating (fun _ _ => True) (fun _ t₁ _ => ?_) trivial
    refine (leads_byte? t₁ 0).bind fun b t₂ hb => ?_
    split
    · exact leads_pure fun _ => hb rfl
    · exact (leads_true _ _).bind fun _ _ _ => leads_pure trivial
    · exact (leads_true _ _).bind fun _ _ _ => leads_pure trivial
    · refine (leads_true _ _).bind fun r t₃ _ => ?_
      split
      · exact (leads_true _ _).bind fun _ _ _ => leads_pure trivial
      · exact leads_pure nofun
  exact fun b hb => ⟨hlacks b hb, (Calm.leads straight_skipBlanks.calm t b hb).phase_eq⟩

/-- A token is due, or the end: neither a separator, nor has the tokenizer been closed. -/
def Due (t : Tokenizer) : Prop := t.phase ≠ .postValue ∧ t.phase ≠ .closed

theorem Due.of_phase {t' : Tokenizer} (h : t.Due) (hphase : t'.state.phase = t.state.phase) :
    t'.Due := by
  unfold Due phase
  rw [hphase]
  exact h

/-- What a read leaves that has found no token. -/
structure Found (t : Tokenizer) : Prop where
  due : t.Due
  lacks : t.feed.Lacks 0
  token_eq : t.state.token = .none
  slot_eq : t.state.slot = .empty

/-- Where a turn of a part leads: a comment was passed, a token was found, or the end. -/
abbrev PartTurned : Turn Unit Bool → Tokenizer → Prop :=
  Turned (fun _ t => t.Due) fun b t => b = false → t.Found

theorem leads_found (t : Tokenizer) (x : Reading Unit) : t.Leads (found x) PartTurned :=
  (leads_true t x).bind fun _ _ _ => leads_pure nofun

/-- A comment leaves the phase, unless it is a token. -/
theorem leads_passComment (t : Tokenizer) (surface : Bool) :
    t.Leads (passComment surface)
      (Turned (fun _ t' => t'.state.phase = t.state.phase) fun b _ => b = true) := by
  cases surface with
  | true => exact (leads_true t _).bind fun _ _ _ => leads_pure rfl
  | false => exact (Calm.leads straight_comment_false.calm t).bind fun _ _ hs => leads_pure hs.phase_eq

theorem leads_passComment_due (surface : Bool) (h : t.Due) :
    t.Leads (passComment surface) PartTurned := by
  refine (leads_passComment t surface).mono ?_
  rintro (_ | b) t' hr
  · exact h.of_phase hr
  · exact fun hb => Bool.noConfusion (hb.symm.trans hr)

theorem leads_nothing (h : t.Due) (hlacks : t.feed.Lacks 0) :
    t.Leads (do
      nothing
      return .stop false : Reading (Turn Unit Bool)) PartTurned := by
  have hnothing : t.Leads nothing fun _ t' => t'.Found := leads_modify ⟨h, hlacks, rfl, rfl⟩
  exact hnothing.bind fun _ _ hfound => leads_pure fun _ => hfound

/-- The turns of a part begin with the byte after the blanks. -/
theorem leads_turns {turn : Option UInt8 → Reading (Turn Unit Bool)} (h : t.Due)
    (hturn : ∀ b (t : Tokenizer), t.Due → (b = none → t.feed.Lacks 0) →
      t.Leads (turn b) PartTurned) :
    t.Leads (repeating (fun _ => skipBlanks >>= turn) ()) fun b t' => b = false → t'.Found := by
  refine leads_repeating (fun _ t => t.Due) (fun _ t₁ h₁ => ?_) h
  refine (leads_skipBlanks t₁).bind fun b t₂ h₂ => ?_
  exact hturn b t₂ (h₁.of_phase h₂.2) h₂.1

theorem leads_value (h : t.Due) : t.Leads value fun b t' => b = false → t'.Found := by
  refine leads_turns h fun b t h hlacks => ?_
  cases b with
  | none => exact leads_nothing h (hlacks rfl)
  | some b =>
      dsimp only
      split
      case h_8 => exact leads_read_bind (leads_passComment_due _ h)
      all_goals exact leads_found _ _

theorem leads_member (h : t.Due) : t.Leads member fun b t' => b = false → t'.Found := by
  refine leads_turns h fun b t h hlacks => ?_
  split
  · exact leads_nothing h (hlacks rfl)
  · exact leads_found _ _
  · exact leads_read_bind (leads_passComment_due _ h)
  · exact leads_found _ _

theorem leads_epilogue (surface : Bool) (h : t.Due) :
    t.Leads (epilogue surface) fun b t' => b = false → t'.Found := by
  refine leads_turns h fun b t h hlacks => ?_
  split
  · exact leads_nothing h (hlacks rfl)
  · exact leads_passComment_due _ h
  · exact (leads_true t foundAtCursor).bind fun _ _ _ => leads_fail _ _

theorem leads_part (h : t.Due) : t.Leads part fun b t' => b = false → t'.Found := by
  refine leads_get_bind ?_
  split
  · exact leads_value h
  · exact leads_value h
  · exact leads_member h
  · exact leads_member h
  · exact leads_value h
  · exact leads_value h
  · exact leads_read_bind (leads_epilogue _ h)
  · exact absurd ‹_› h.2
  · exact absurd ‹_› h.1

theorem due_resumeContainer (t : Tokenizer) :
    ({ t with state := t.state.resumeContainer t.options.settings } : Tokenizer).Due :=
  ⟨phase_resumeContainer _ _, resumeContainer_ne_closed _ _⟩

/-- Behind a value the separator is read, or what ends the input. -/
theorem leads_separator (surface : Bool) (h : t.phase = .postValue) :
    t.Leads (separator surface) fun b t' => b = false → t'.Due := by
  refine leads_repeating (fun _ t => t.phase = .postValue) (fun _ t₁ h₁ => ?_) h
  refine (leads_skipBlanks t₁).bind fun b t₂ h₂ => ?_
  have hresume : ∀ t : Tokenizer, t.Leads (update State.resumeContainer) fun _ t' => t'.Due :=
    fun t => leads_update (due_resumeContainer t)
  cases b with
  | none =>
      have hfinished : t₂.Leads (modify fun s => { s with phase := .finished }) fun _ t' => t'.Due :=
        leads_modify ⟨Phase.noConfusion, Phase.noConfusion⟩
      exact hfinished.bind fun _ _ hdue => leads_pure fun _ => hdue
  | some b =>
      dsimp only
      split
      · exact (leads_true _ _).bind fun _ _ _ => leads_pure nofun
      · refine (leads_passComment t₂ surface).mono ?_
        rintro (_ | b) t' hr
        · exact (hr.trans h₂.2).trans h₁
        · exact fun hb => Bool.noConfusion (hb.symm.trans hr)
      · refine (leads_true _ (advance 1)).bind fun _ t₃ _ => ?_
        exact (hresume t₃).bind fun _ _ hdue => leads_pure fun _ => hdue
      · refine leads_read_bind (leads_get_bind ?_)
        split
        · exact (hresume t₂).bind fun _ _ hdue => leads_pure fun _ => hdue
        · exact (leads_true _ foundAtCursor).bind fun _ _ _ => leads_fail _ _

theorem leads_token (h : t.phase ≠ .closed) : t.Leads Reading.token fun b t' => b = false → t'.Found := by
  refine leads_get_bind ?_
  split
  · rename_i hphase
    refine leads_read_bind ((leads_separator _ hphase).bind fun b t₁ h₁ => ?_)
    cases b with
    | true => exact leads_pure nofun
    | false => exact leads_part (h₁ rfl)
  · exact leads_part ⟨‹_›, h⟩

/-- Where a read of an open tokenizer finds no token. -/
theorem found_of_read (h : t.phase ≠ .closed) (hread : t.read.1 = .ok false) : t.read.2.Found := by
  have hclear : t.Leads (modify State.clearSlot) fun _ t' => t'.phase ≠ .closed := leads_modify h
  exact (hclear.bind fun _ _ h' => leads_token h') false hread rfl

/-! ## At the end -/

/-- Nothing is left to be read, and nothing is to be said of it. -/
structure Drained (t : Tokenizer) : Prop where
  atEnd : t.feed.AtEnd
  phase_ne : t.phase ≠ .postValue
  token_eq : t.state.token = .none
  slot_eq : t.state.slot = .empty

namespace Drained

theorem clearSlot (h : t.Drained) : { t with state := t.state.clearSlot } = t := by
  obtain ⟨options, ⟨lines, phase, token, slot, quote, frames⟩, feed⟩ := t
  obtain rfl : slot = .empty := h.slot_eq
  rfl

theorem run_nothing (h : t.Drained) : t.run nothing = (.ok (), t) := by
  obtain ⟨options, ⟨lines, phase, token, slot, quote, frames⟩, feed⟩ := t
  obtain rfl : token = .none := h.token_eq
  obtain rfl : slot = .empty := h.slot_eq
  rfl

theorem run_byte? (h : t.Drained) (ahead : Nat) (retain : Retain) :
    t.run (byte? ahead retain) = (.ok none, t) := by
  have hbyte := h.atEnd.byte? ahead retain
  rw [Tokenizer.run_byte? (congrArg Prod.fst hbyte), hbyte]

theorem run_skipBlanks (h : t.Drained) : t.run skipBlanks = (.ok none, t) := by
  refine run_repeating_stop ?_
  rw [run_bind, h.run_byte?]
  rfl

/-- A part that ends where nothing follows the blanks. -/
theorem run_turns {turn : Option UInt8 → Reading (Turn Unit Bool)} (h : t.Drained)
    (hturn : turn none = do
      nothing
      return .stop false) :
    t.run (repeating (fun _ => skipBlanks >>= turn) ()) = (.ok false, t) := by
  refine run_repeating_stop ?_
  rw [run_bind, h.run_skipBlanks]
  dsimp only
  rw [hturn, run_bind, h.run_nothing]
  rfl

theorem run_token (h : t.Drained) : t.run Reading.token = (.ok false, t) := by
  have hpart : t.run Reading.token = t.run part := by
    rw [Reading.token, run_get_bind]
    exact congrArg t.run (if_neg h.phase_ne)
  rw [hpart, part, run_get_bind]
  split
  · exact h.run_turns rfl
  · exact h.run_turns rfl
  · exact h.run_turns rfl
  · exact h.run_turns rfl
  · exact h.run_turns rfl
  · exact h.run_turns rfl
  · rw [run_read_bind]
    exact h.run_turns rfl
  · rfl
  · exact absurd ‹_› h.phase_ne

theorem run_requested (h : t.Drained) (request : Request) (hphase : ¬t.state.inObject) :
    t.run (requested request) = (.ok (), t) := by
  have hpart : t.run (requested request) = t.run (requestedPart request) := by
    rw [requested, run_get_bind]
    exact congrArg t.run (if_neg h.phase_ne)
  rw [hpart, requestedPart, run_get_bind]
  dsimp only
  split
  · refine run_repeating_stop ?_
    dsimp only
    rw [run_bind, h.run_skipBlanks]
    dsimp only
    rw [← bind_pure_comp, run_bind, h.run_nothing]
    rfl
  · rename_i hexpects
    split
    · rw [run_bind, Reading.epilogue, h.run_turns rfl]
      rfl
    · rfl
    · rename_i hfinished hclosed
      exfalso
      have hpost := h.phase_ne
      unfold phase at hpost
      unfold State.inObject at hphase
      cases hp : t.state.phase <;> simp_all [Phase.expectsValue]

/-- In an object no value is due, so a value cannot be asked for. -/
theorem run_requested_inObject (h : t.Drained) (request : Request) (hphase : t.state.inObject) :
    t.run (requested request) = (.error {
      kind := .unexpectedPhase t.phase
      path := t.path
      line := t.line
      position := t.position }, t) := by
  have hpart : t.run (requested request) = t.run (requestedPart request) := by
    rw [requested, run_get_bind]
    exact congrArg t.run (if_neg h.phase_ne)
  have hfail : t.run (requestedPart request) = t.run (fail (.unexpectedPhase t.state.phase)) := by
    rw [requestedPart, run_get_bind]
    rcases hphase with hp | hp <;> rw [hp] <;> rfl
  rw [hpart, hfail]
  rfl

/-! ### Calls -/

theorem read (h : t.Drained) : t.read = (.ok false, t) := by
  have hclear : t.read = { t with state := t.state.clearSlot }.run Reading.token := rfl
  rw [hclear, h.clearSlot, h.run_token]

theorem call_read (h : t.Drained) : t.call .read = (.ok (.found false), t) := by
  rw [call, h.read]
  rfl

theorem run_requesting (request : Request) (h : t.Drained) :
    t.run (requesting request) = t.run (requested request) := by
  have hclear : t.run (requesting request) =
      { t with state := t.state.clearSlot }.run (requested request) := rfl
  rw [hclear, h.clearSlot]

theorem value?_eq (h : t.Drained) : t.value? = none := by
  rw [value?, h.slot_eq]

theorem call_readAs (h : t.Drained) (form : Form) (hphase : ¬t.state.inObject) :
    t.call (.readAs form) = (.ok (form.answer none), t) := by
  rw [call, readForm_eq, h.run_requesting, h.run_requested _ hphase]
  have hanswer : form.answer t.value? = form.answer none := by rw [h.value?_eq]
  exact congrArg (fun answer => (Except.ok answer, t)) hanswer

theorem call_readAs_inObject (h : t.Drained) (form : Form) (hphase : t.state.inObject) :
    t.call (.readAs form) = (.error {
      kind := .unexpectedPhase t.phase
      path := t.path
      line := t.line
      position := t.position }, t) := by
  rw [call, readForm_eq, h.run_requesting, h.run_requested_inObject _ hphase]
  rfl

theorem call_eq (h : t.Drained) (c : Call) : (t.call c).2 = t := by
  cases c with
  | read => rw [h.call_read]
  | readAs form =>
      by_cases hphase : t.state.inObject
      · rw [h.call_readAs_inObject form hphase]
      · rw [h.call_readAs form hphase]

end Drained

/-! ## Operations at the end -/

theorem drained_close (t : Tokenizer) (h : t.phase ≠ .closed) : t.close.Drained := by
  unfold close
  rw [if_neg h]
  refine ⟨?_, Phase.noConfusion, rfl, rfl⟩
  dsimp only
  split
  · exact ⟨rfl, le_rfl⟩
  · exact t.feed.atEnd_release

/-- Equal in what is told of the place in the text. -/
structure SamePlace (t t' : Tokenizer) : Prop where
  line_eq : t'.line = t.line
  position_eq : t'.position = t.position
  path_eq : t'.path = t.path
  frames_eq : t'.state.frames = t.state.frames

theorem Drained.after (h : t.Drained) (op : Operation) :
    (t.after op).Drained ∧ (∀ fetch, .fetched fetch ∉ t.operationEvents op) ∧
      (op ≠ .close → t.SamePlace (t.after op)) := by
  have hswitch : ∀ cancelled heedsCancel,
      ({ t with feed := { t.feed with cancelled, heedsCancel } } : Tokenizer).Drained :=
    fun _ _ => ⟨⟨h.atEnd.ended, h.atEnd.used_le⟩, h.phase_ne, h.token_eq, h.slot_eq⟩
  cases op with
  | call c =>
      have hafter : t.after (.call c) = t := h.call_eq c
      rw [hafter]
      refine ⟨h, fun fetch => ?_, fun _ => ⟨rfl, rfl, rfl, rfl⟩⟩
      cases c <;> exact Feed.scanEvents_ended _ h.atEnd.ended fetch
  | heed b => exact ⟨hswitch _ _, fun _ => List.not_mem_nil, fun _ => ⟨rfl, rfl, rfl, rfl⟩⟩
  | cancel => exact ⟨hswitch _ _, fun _ => List.not_mem_nil, fun _ => ⟨rfl, rfl, rfl, rfl⟩⟩
  | uncancel => exact ⟨hswitch _ _, fun _ => List.not_mem_nil, fun _ => ⟨rfl, rfl, rfl, rfl⟩⟩
  | close =>
      refine ⟨?_, fun _ => List.not_mem_nil, fun hop => absurd rfl hop⟩
      by_cases hclosed : t.phase = .closed
      · have hafter : t.after .close = t := if_pos hclosed
        rwa [hafter]
      · exact drained_close t hclosed

theorem Drained.afterAll (h : t.Drained) (later : List Operation) :
    (t.afterAll later).Drained ∧ (∀ fetch, .fetched fetch ∉ t.events later) ∧
      (.close ∉ later → t.SamePlace (t.afterAll later)) := by
  induction later generalizing t with
  | nil => exact ⟨h, fun _ => List.not_mem_nil, fun _ => ⟨rfl, rfl, rfl, rfl⟩⟩
  | cons op later ih =>
      obtain ⟨hdrained, hquiet, hplace⟩ := h.after op
      obtain ⟨hdrained', hquiet', hplace'⟩ := ih hdrained
      refine ⟨hdrained', fun fetch => ?_, fun hclose => ?_⟩
      · rw [events, List.mem_append, not_or]
        exact ⟨hquiet fetch, hquiet' fetch⟩
      · obtain ⟨hop, hrest⟩ := not_or.mp (mt List.mem_cons.mpr hclose)
        have h₁ := hplace fun heq => hop heq.symm
        have h₂ := hplace' hrest
        exact ⟨h₂.line_eq.trans h₁.line_eq, h₂.position_eq.trans h₁.position_eq,
          h₂.path_eq.trans h₁.path_eq, h₂.frames_eq.trans h₁.frames_eq⟩

end Tokenizer

/-! ## Open tokenizers

Only closing ends the use of a tokenizer. -/

namespace State

variable {settings : Settings} {s s' : State} {e : ReadError}

theorem phase_countElement (s : State) : s.countElement.phase = s.phase := by
  unfold countElement
  split <;> rfl

theorem phase_completeValue (settings : Settings) (s : State) :
    (s.completeValue settings).phase ≠ .closed := by
  unfold completeValue
  dsimp only
  split <;> nofun

theorem Change.phase_ne_closed (h : Change settings s s') (hs : s.phase ≠ .closed) :
    s'.phase ≠ .closed := by
  cases h with
  | lines | quote | cleared | comment | nothing => exact hs
  | opening | name | ended => exact Phase.noConfusion
  | closing => exact phase_completeValue settings _
  | counted =>
      rw [phase_countElement]
      exact phase_completeValue settings s
  | scalar kind slot counted =>
      unfold publishScalar
      dsimp only
      split
      · rw [phase_countElement]
        exact phase_completeValue settings _
      · exact phase_completeValue settings _
  | resumed => exact resumeContainer_ne_closed settings s

theorem Changes.phase_ne_closed (h : Changes settings s s') (hs : s.phase ≠ .closed) :
    s'.phase ≠ .closed := by
  induction h with
  | refl => exact hs
  | tail _ hchange ih => exact hchange.phase_ne_closed ih

theorem Broken.phase_ne_closed (h : Broken settings s e s') (hs : s.phase ≠ .closed) :
    s'.phase ≠ .closed := by
  cases h with
  | kept h => exact h.phase_ne_closed hs
  | mismatched c h => exact h.phase_ne_closed hs

end State

namespace Tokenizer

variable {t : Tokenizer}

theorem call_phase_ne_closed (c : Call) (h : t.phase ≠ .closed) : (t.call c).2.phase ≠ .closed := by
  have hevolves := call_evolves c t
  cases hr : (t.call c).1 with
  | error e =>
      rw [hr] at hevolves
      exact hevolves.phase_ne_closed h
  | ok a =>
      rw [hr] at hevolves
      exact hevolves.phase_ne_closed h

/-- An open tokenizer is at some place of its stream; a closed one is at the end. -/
inductive Standing (stream : List UInt8) (t : Tokenizer) : Prop where
  | reading (delivered : List UInt8) (d : Reach stream.length) (hphase : t.phase ≠ .closed)
      (hfits : t.feed.Fits stream delivered d)
  | closed (hphase : t.phase = .closed) (hdrained : t.Drained)

theorem Standing.after {stream : List UInt8} (h : t.Standing stream) (op : Operation) :
    (t.after op).Standing stream := by
  cases h with
  | closed hphase hdrained => exact .closed (after_closed op hphase).1 (hdrained.after op).1
  | reading delivered d hphase hfits =>
      by_cases hop : op = .close
      · rw [hop]
        exact .closed (phase_close t) (drained_close t hphase)
      · obtain ⟨delivered', d', hmoves⟩ := moves_after hfits hop
        refine .reading delivered' d' ?_ hmoves.fits
        cases op with
        | call c => exact call_phase_ne_closed c hphase
        | close => exact absurd rfl hop
        | heed | cancel | uncancel => exact hphase

theorem standing_afterAll (options : Options) (source : Source) (pool : Pool) (heeds : Bool)
    (ops : List Operation) :
    ((ofSource options source pool heeds).afterAll ops).Standing source.bytes := by
  have hloop : ∀ {t : Tokenizer}, t.Standing source.bytes → (t.afterAll ops).Standing source.bytes := by
    induction ops with
    | nil => exact id
    | cons op ops ih => exact fun h => ih (h.after op)
  exact hloop (.reading [] _ Phase.noConfusion (fits_ofSource options source pool heeds))

/-- A read that finds no token leaves nothing to be read. -/
theorem Standing.drained {stream : List UInt8} (h : t.Standing stream) (hread : t.read.1 = .ok false) :
    t.read.2.Drained := by
  cases h with
  | closed hphase hdrained =>
      have hcall : (t.call .read).2 = t := hdrained.call_eq .read
      have hafter : t.read.2 = t := hcall
      rwa [hafter]
  | reading delivered d hphase hfits =>
      have hfound := found_of_read hphase hread
      obtain ⟨delivered', d', hcalled⟩ := called .read hfits
      have hholds : t.read.2.feed.window.Holds delivered' := hcalled.moves.fits.follows.holds
      exact ⟨hfound.lacks.atEnd hholds, hfound.due.1, hfound.token_eq, hfound.slot_eq⟩

/-! ## All runs -/

/-- Once a read has found no token, the end is all that is ever found again. Reads and typed reads
leave the tokenizer as it is; only in an object, where no value is due, do typed reads fail. Nothing
is asked of the source, and the place in the text stays until the tokenizer is closed. -/
theorem end_absorbs (options : Options) (source : Source) (pool : Pool) (heeds : Bool)
    (ops : List Operation) :
    let t := (ofSource options source pool heeds).afterAll ops
    t.read.1 = .ok false → ∀ later : List Operation,
      let u := t.read.2.afterAll later
      u.token = .none ∧ u.value? = none ∧ u.call .read = (.ok (.found false), u) ∧
      (∀ form, ¬u.state.inObject → u.call (.readAs form) = (.ok (form.answer none), u)) ∧
      (∀ form, u.state.inObject → u.call (.readAs form) = (.error {
        kind := .unexpectedPhase u.phase
        path := u.path
        line := u.line
        position := u.position }, u)) ∧
      (∀ fetch, .fetched fetch ∉ t.read.2.events later) ∧
      (.close ∉ later → u.line = t.read.2.line ∧ u.position = t.read.2.position ∧
        u.path = t.read.2.path ∧ u.state.frames = t.read.2.state.frames) := by
  intro t hread later u
  have hdrained := (standing_afterAll options source pool heeds ops).drained hread
  obtain ⟨hafter, hquiet, hplace⟩ := hdrained.afterAll later
  refine ⟨hafter.token_eq, hafter.value?_eq, hafter.call_read, ?_, ?_, hquiet, fun hclose => ?_⟩
  · exact fun form hphase => hafter.call_readAs form hphase
  · exact fun form hphase => hafter.call_readAs_inObject form hphase
  · have hsame := hplace hclose
    exact ⟨hsame.line_eq, hsame.position_eq, hsame.path_eq, hsame.frames_eq⟩

/-- The text `{`, of which a value was asked for too early. -/
theorem end_absorbs_open_object :
    let ops : List Operation := [.call .read, .call (.readAs .int32)]
    let t := (ofSource { initialCapacity := 2 } (Source.ofBytes ⟨#[0x7B]⟩) {} false).afterAll ops
    t.read.1 = .ok false ∧ t.read.2.state.inObject ∧
      ∀ later, (t.read.2.afterAll later).call .read =
        (.ok (.found false), t.read.2.afterAll later) := by
  refine ⟨by decide +kernel, .inl (by decide +kernel), fun later => ?_⟩
  exact (end_absorbs _ _ _ _ _ (by decide +kernel) later).2.2.1

end Tokenizer

end JsonPull
