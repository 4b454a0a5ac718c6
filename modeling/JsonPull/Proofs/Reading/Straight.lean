import JsonPull.Proofs.Reading.Change

/-! # Readings that go straight

No part of a reading catches a failure. So what the parts have in common, all readings have: where a
byte could not be fetched, a reading asks for no other byte and fails with that fault, and it fails
with a fault for no other reason. The state changes as the parts change it. -/

namespace JsonPull

/-- The failure that a fault leads to. -/
def ErrorKind.ofFault : FetchFault → ErrorKind
  | .cancelled => .cancelled
  | .io message => .io message

/-- The fault in place of a result. -/
def faultOf? {α : Type} : Except FetchFault α → Option FetchFault
  | .error fault => some fault
  | .ok _ => none

/-- Why a byte could not be fetched. -/
def Query.fault? : (q : Query) → q.Answer → Option FetchFault
  | byte _ _, answer => faultOf? answer
  | _, _ => none

/-- Whether a question is about a byte, for which bytes may have to be fetched. -/
def Query.asksByte : Query → Bool
  | byte _ _ => true
  | _ => false

/-! ## Scans -/

namespace Scan

variable {α β : Type} {kind : ErrorKind}

/-- Whatever is answered, a scan asks for no byte and fails in this way. -/
def Fails (kind : ErrorKind) : Scan (Except ReadError α × State) → Prop
  | done r => ∃ e, r.1 = .error e ∧ e.kind = kind
  | ask q next => q.asksByte = false ∧ ∀ a, (next a).Fails kind

/-- At the first fault, a scan fails with it. Without a fault it does not fail with one. -/
def Obeys : Scan (Except ReadError α × State) → Prop
  | done r => ∀ e, r.1 = .error e → e.kind.isFault = false
  | ask q next => ∀ a, (∀ fault, q.fault? a = some fault → (next a).Fails (.ofFault fault)) ∧
      (q.fault? a = none → (next a).Obeys)

section Bind

variable {scan : Scan (Except ReadError β × State)}
  {f : Except ReadError β × State → Scan (Except ReadError α × State)}

theorem Fails.bind (h : scan.Fails kind)
    (hfail : ∀ e s, f (.error e, s) = done (.error e, s)) : (scan.bind f).Fails kind := by
  induction scan with
  | done r =>
      obtain ⟨r, s⟩ := r
      obtain ⟨e, rfl, he⟩ := h
      rw [bind_done, hfail]
      exact ⟨e, rfl, he⟩
  | ask q next ih => exact ⟨h.1, fun a => ih a (h.2 a)⟩

theorem Obeys.bind (h : scan.Obeys) (hfail : ∀ e s, f (.error e, s) = done (.error e, s))
    (hf : ∀ b s, (f (.ok b, s)).Obeys) : (scan.bind f).Obeys := by
  induction scan with
  | done r =>
      obtain ⟨e | b, s⟩ := r
      · rw [bind_done, hfail]
        rintro _ ⟨⟩
        exact h e rfl
      · exact hf b s
  | ask q next ih =>
      exact fun a => ⟨fun fault hfault => ((h a).1 fault hfault).bind hfail,
        fun hnone => ih a ((h a).2 hnone)⟩

end Bind

theorem obeys_ask {q : Query} {next : q.Answer → Scan (Except ReadError α × State)}
    (hq : q.asksByte = false) (h : ∀ a, (next a).Obeys) : (ask q next).Obeys := by
  intro a
  have hnone : q.fault? a = none := by
    cases q with
    | byte => cases hq
    | _ => rfl
  refine ⟨?_, fun _ => h a⟩
  rw [hnone]
  exact nofun

end Scan

/-! ## Manners -/

/-- How a reading may change the state. -/
inductive Manner where
  /-- It only counts lines. -/
  | calm
  /-- It makes changes. -/
  | evolving
  /-- It may also leave a container that is not the innermost one. -/
  | free

namespace Manner

open State

variable {manner : Manner} {settings : Settings} {s s₁ s₂ : State} {e : ReadError}

/-- What a success leaves. -/
def Moves : Manner → Settings → State → State → Prop
  | calm, _, s, s' => s.Lined s'
  | evolving, settings, s, s' => Changes settings s s'
  | free, _, _, _ => True

/-- What a failure leaves. -/
def Breaks : Manner → Settings → State → ReadError → State → Prop
  | calm, _, s, e, s' => s.Lined s' ∧ e.kind.isMismatch = false ∧ e.path = s'.path
  | evolving, settings, s, e, s' => Broken settings s e s'
  | free, _, _, _, _ => True

theorem moves_self : manner.Moves settings s s := by
  cases manner with
  | calm => exact Lined.refl s
  | evolving => exact Relation.ReflTransGen.refl
  | free => trivial

theorem Moves.trans (h : manner.Moves settings s s₁) (h' : manner.Moves settings s₁ s₂) :
    manner.Moves settings s s₂ := by
  cases manner with
  | calm => exact Lined.trans h h'
  | evolving => exact Relation.ReflTransGen.trans h h'
  | free => trivial

theorem Moves.of_lined (h : s.Lined s₁) : manner.Moves settings s s₁ := by
  cases manner with
  | calm => exact h
  | evolving => exact h.changes
  | free => trivial

theorem Breaks.of_moves (h : manner.Moves settings s s₁) (h' : manner.Breaks settings s₁ e s₂) :
    manner.Breaks settings s e s₂ := by
  cases manner with
  | calm => exact ⟨Lined.trans h h'.1, h'.2⟩
  | evolving => exact Broken.of_changes h h'
  | free => trivial

theorem breaks_self (hkind : e.kind.isMismatch = false) (hpath : e.path = s.path) :
    manner.Breaks settings s e s := by
  cases manner with
  | calm => exact ⟨Lined.refl s, hkind, hpath⟩
  | evolving => exact .kept .refl hkind hpath
  | free => trivial

end Manner

open State

namespace Reading

variable {α β τ : Type} {manner : Manner} {settings : Settings} {s : State} {retain : Retain}

/-- A reading that fails at the first fault and for no other reason with a fault, and changes the
state in some manner. -/
structure Straight (manner : Manner) (x : Reading α) : Prop where
  obeys : ∀ settings s, ((x.run settings).run.run s).Obeys
  leaves : ∀ settings s, x.Leaves settings s (fun _ s' => manner.Moves settings s s')
    (manner.Breaks settings s)

namespace Straight

theorem bind {x : Reading β} {f : β → Reading α} (hx : x.Straight manner)
    (hf : ∀ b, (f b).Straight manner) : (x >>= f).Straight manner := by
  refine ⟨fun settings s => ?_, fun settings s => (hx.leaves settings s).bind fun b s₁ h₁ => ?_⟩
  · rw [run_bind]
    exact (hx.obeys settings s).bind (fun _ _ => rfl) fun b s₁ => (hf b).obeys settings s₁
  · exact ((hf b).leaves settings s₁).mono (fun _ _ h => h₁.trans h) fun _ _ h => h.of_moves h₁

theorem pure (a : α) : (Pure.pure a : Reading α).Straight manner :=
  ⟨fun _ _ => nofun, fun _ _ => .pure Manner.moves_self⟩

theorem map {x : Reading β} (hx : x.Straight manner) (f : β → α) : (f <$> x).Straight manner := by
  rw [← bind_pure_comp]
  exact hx.bind fun b => pure (f b)

theorem ask (q : Query) (hq : q.asksByte = false) : (Reading.ask q).Straight manner :=
  ⟨fun _ _ => Scan.obeys_ask hq fun _ => nofun, fun _ _ => .ask fun _ => Manner.moves_self⟩

theorem fail {kind : ErrorKind} (hkind : kind.isFault = false) (hclose : kind.isMismatch = false) :
    (Reading.fail kind : Reading α).Straight manner := by
  refine ⟨fun _ s => Scan.obeys_ask rfl fun offset => ?_, fun _ _ => .fail fun _ =>
    Manner.breaks_self hclose rfl⟩
  rintro _ ⟨⟩
  exact hkind

theorem throw {e : ReadError} (hkind : e.kind.isFault = false) :
    (MonadExcept.throw e : Reading α).Straight .free := by
  refine ⟨fun _ _ => ?_, fun _ _ => .throw trivial⟩
  rintro _ ⟨⟩
  exact hkind

theorem fail_free {kind : ErrorKind} (hkind : kind.isFault = false) :
    (Reading.fail kind : Reading α).Straight .free := by
  refine ⟨fun _ s => Scan.obeys_ask rfl fun offset => ?_, fun _ _ => .fail fun _ => trivial⟩
  rintro _ ⟨⟩
  exact hkind

theorem modify {f : State → State} (h : ∀ settings s, manner.Moves settings s (f s)) :
    (MonadState.modifyGet fun s => ((), f s) : Reading Unit).Straight manner :=
  ⟨fun _ _ => nofun, fun settings s => .modify (h settings s)⟩

theorem update {f : Settings → State → State}
    (h : ∀ settings s, manner.Moves settings s (f settings s)) :
    (Reading.update f).Straight manner :=
  ⟨fun _ _ => nofun, fun settings s => .update (h settings s)⟩

theorem change {f : State → State} (h : ∀ settings s, Change settings s (f s)) :
    (MonadState.modifyGet fun s => ((), f s) : Reading Unit).Straight .evolving :=
  modify fun settings s => .single (h settings s)

theorem modify_free {f : State → State} :
    (MonadState.modifyGet fun s => ((), f s) : Reading Unit).Straight .free :=
  modify fun _ _ => trivial

theorem update_free {f : Settings → State → State} : (Reading.update f).Straight .free :=
  update fun _ _ => trivial

theorem get_bind {f : State → Reading α} (h : ∀ s, (f s).Straight manner) :
    (get >>= f).Straight manner :=
  ⟨fun settings s => (h s).obeys settings s, fun settings s => .get_bind ((h s).leaves settings s)⟩

theorem read_bind {f : Settings → Reading α} (h : ∀ settings, (f settings).Straight manner) :
    (read >>= f).Straight manner :=
  ⟨fun settings s => (h settings).obeys settings s,
    fun settings s => .read_bind ((h settings).leaves settings s)⟩

/-- Where a byte could not be fetched, there is nothing left but to fail. -/
theorem byte? (ahead : Nat) : (Reading.byte? ahead retain).Straight manner := by
  have hfault : ∀ kind settings (s : State), ((Reading.fail kind : Reading (Option UInt8)).run
      settings |>.run.run s).Fails kind := fun _ _ _ => ⟨rfl, fun _ => ⟨_, rfl, rfl⟩⟩
  refine ⟨fun settings s answer => ?_, fun settings s => ?_⟩
  · cases answer with
    | error fault =>
        refine ⟨?_, nofun⟩
        rintro _ ⟨⟩
        cases fault with
        | cancelled => exact hfault .cancelled settings s
        | io message => exact hfault (.io message) settings s
    | ok b => exact ⟨nofun, fun _ => nofun⟩
  · have hask : (Reading.ask (.byte ahead retain)).Leaves settings s
        (fun _ s' => s' = s) (manner.Breaks settings s) := .ask fun _ => rfl
    refine hask.bind ?_
    rintro answer _ rfl
    split
    · exact .pure Manner.moves_self
    · exact .fail fun _ => Manner.breaks_self rfl rfl
    · exact .fail fun _ => Manner.breaks_self rfl rfl

theorem repeating {turn : τ → Reading (Turn τ α)} (h : ∀ x, (turn x).Straight manner) (x : τ) :
    (Reading.repeating turn x).Straight manner := by
  refine (ask .budget rfl).bind fun n => ?_
  refine repeatAtMost_induction (fun _ y => y.Straight manner) (fun _ _ => fail rfl rfl) ?_ (n + 1) x
  refine fun x next ih => (h x).bind fun r => ?_
  cases r with
  | again x' => exact ih x'
  | stop a => exact pure a

theorem calm {x : Reading α} (h : x.Straight .calm) : x.Calm := ⟨h.leaves⟩

theorem evolves {x : Reading α} (h : x.Straight .evolving) : x.Evolves := ⟨h.leaves⟩

/-- What is known to make changes only goes straight in that manner. -/
theorem of_evolves {x : Reading α} (h : x.Straight .free) (hx : x.Evolves) :
    x.Straight .evolving := ⟨h.obeys, hx.leaves⟩

/-- What is done in some manner is done freely. -/
theorem free {x : Reading α} (h : x.Straight manner) : x.Straight .free :=
  ⟨h.obeys, fun settings s => (h.leaves settings s).mono (fun _ _ _ => trivial) fun _ _ _ => trivial⟩

end Straight

/-! ## Steps -/

theorem straight_cursor : cursor.Straight manner := .ask .cursor rfl

theorem straight_advance (count : Nat) : (advance count).Straight manner := .ask (.advance count) rfl

theorem straight_stillHeld (bytes? : Option (List UInt8)) : (stillHeld bytes?).Straight manner := by
  cases bytes? with
  | none => exact .fail rfl rfl
  | some bytes => exact .pure bytes

theorem straight_bytesOf (span : Span) : (bytesOf span).Straight manner :=
  (Straight.ask _ rfl).bind fun _ => straight_stillHeld _

theorem straight_textOf (span : Span) : (textOf span).Straight manner :=
  (Straight.ask _ rfl).bind fun _ => (straight_stillHeld _).bind fun _ => .pure _

theorem straight_hold (first last : Nat) : (hold first last).Straight manner :=
  (Straight.ask _ rfl).bind fun _ => .pure _

theorem straight_bytes? (ahead count : Nat) : (bytes? ahead count retain).Straight manner := by
  refine (Straight.byte? _).bind fun b => ?_
  split
  · exact straight_cursor.bind fun _ => (straight_bytesOf _).bind fun _ => .pure _
  · exact .pure _

theorem straight_charAt? (ahead : Nat) : (charAt? ahead retain).Straight manner := by
  refine (Straight.byte? ahead).bind fun b => ?_
  split
  · exact .pure _
  · dsimp only
    split
    · exact .pure _
    split
    · exact .pure _
    refine (straight_bytes? _ _).bind fun bytes => ?_
    split
    · exact .pure _
    · split <;> exact .pure _

theorem straight_foundAtCursor : foundAtCursor.Straight manner := by
  refine (straight_charAt? 0).bind fun r => ?_
  split <;> exact .pure _

theorem straight_unexpected (site : CharSite) : (unexpected site : Reading α).Straight manner :=
  straight_foundAtCursor.bind fun _ => .fail rfl rfl

theorem straight_unexpectedConsumed (site : CharSite) : (unexpectedConsumed site : Reading α).Straight manner :=
  straight_foundAtCursor.bind fun _ => (straight_advance _).bind fun _ => .fail rfl rfl

/-! ### Blanks and comments -/

theorem straight_startLine : startLine.Straight manner := by
  exact straight_cursor.bind fun _ => .modify fun _ _ => .of_lined rfl

theorem straight_takeReturn : (takeReturn retain).Straight manner := by
  refine (straight_advance 1).bind fun _ => (Straight.byte? 0).bind fun b => ?_
  dsimp only
  split
  · exact (straight_advance 1).bind fun _ => straight_startLine.bind fun _ => .pure _
  · exact straight_startLine.bind fun _ => .pure _

theorem straight_takeFeed : takeFeed.Straight manner :=
  (straight_advance 1).bind fun _ => straight_startLine

theorem straight_blankLength? : (blankLength? retain).Straight manner := by
  refine (Straight.byte? 0).bind fun b => ?_
  split
  · exact .pure _
  · split
    · exact .pure _
    · refine (straight_charAt? 0).bind fun r => ?_
      split <;> exact .pure _

theorem straight_skipBlanks : skipBlanks.Straight manner := by
  refine .repeating (fun _ => (Straight.byte? 0).bind fun b => ?_) ()
  split
  · exact .pure _
  · exact straight_takeReturn.bind fun _ => .pure _
  · exact straight_takeFeed.bind fun _ => .pure _
  · refine straight_blankLength?.bind fun r => ?_
    split
    · exact (straight_advance _).bind fun _ => .pure _
    · exact .pure _

theorem straight_lineCommentBody : lineCommentBody.Straight manner := by
  refine .repeating (fun _ => (Straight.byte? 0).bind fun b => ?_) ()
  split
  · exact straight_cursor.bind fun _ => .pure _
  · exact straight_cursor.bind fun _ => .pure _
  · exact straight_cursor.bind fun _ => .pure _
  · exact (straight_advance 1).bind fun _ => .pure _

theorem straight_blockCommentBody : blockCommentBody.Straight manner := by
  refine .repeating (fun _ => (Straight.byte? 0).bind fun b => ?_) ()
  split
  · exact .fail rfl rfl
  · refine (straight_advance 1).bind fun _ => (Straight.byte? 0).bind fun b => ?_
    split
    · exact (Straight.ask _ rfl).bind fun last => (straight_advance 1).bind fun _ => .pure _
    · exact .pure _
  · exact straight_takeReturn.bind fun _ => .pure _
  · exact straight_takeFeed.bind fun _ => .pure _
  · exact (straight_advance 1).bind fun _ => .pure _

/-! ### Words -/

theorem straight_matchBytes (matched : Nat) (rest : List UInt8) : (matchBytes matched rest).Straight manner := by
  induction rest generalizing matched with
  | nil => exact (straight_advance matched).bind fun _ => .pure _
  | cons expected rest ih =>
      refine (Straight.byte? matched).bind fun b => ?_
      split
      · exact ih (matched + 1)
      · exact (straight_advance matched).bind fun _ => .pure _

theorem straight_consumeRest (n : Nat) : (consumeRest n).Straight manner := by
  induction n with
  | zero => exact .pure ()
  | succ n ih =>
      refine (Straight.byte? 0).bind fun b => ?_
      split
      · exact (straight_advance 1).bind fun _ => ih
      · exact .pure ()

theorem straight_matchWord (literal : Literal) : (matchWord literal).Straight manner := by
  refine (Straight.byte? _).bind fun b => ?_
  split
  · exact (straight_consumeRest _).bind fun _ => .fail rfl rfl
  · exact straight_matchBytes _ _

theorem straight_atSeparator : atSeparator.Straight manner := by
  refine (Straight.byte? 0).bind fun b => ?_
  split
  · exact .pure _
  · exact .pure _
  · exact .pure _
  · exact .pure _
  · exact (Straight.byte? 1).bind fun _ => .pure _
  · exact .get_bind fun _ => .pure _
  · exact straight_blankLength?.bind fun _ => .pure _

theorem straight_separateWord (literal : Literal) : (separateWord literal).Straight manner := by
  refine (straight_matchWord literal).bind fun matched => ?_
  split
  · exact straight_atSeparator
  · exact .pure _

theorem straight_requireWord (literal : Literal) : (requireWord literal).Straight manner := by
  refine (straight_separateWord literal).bind fun matched => ?_
  split
  · exact .fail rfl rfl
  · exact .pure _

/-! ### Strings, names and numbers -/

theorem straight_escapeUnit : escapeUnit.Straight manner := by
  refine (straight_bytes? 0 3).bind fun digits => ?_
  split
  · exact .fail rfl rfl
  · split
    · exact (straight_advance 4).bind fun _ => .pure _
    · exact .fail rfl rfl

theorem straight_surrogates (high : Nat) : (surrogates high).Straight manner := by
  refine .repeating (fun (chars, high) => ?_) _
  refine (Straight.byte? 1).bind fun second => (Straight.byte? 0).bind fun first => ?_
  split
  · refine (straight_advance 2).bind fun _ => straight_escapeUnit.bind fun unit => ?_
    split
    · exact .pure _
    · split <;> exact .pure _
  · exact .pure _

theorem straight_unicodeEscape : unicodeEscape.Straight manner := by
  refine straight_escapeUnit.bind fun unit => ?_
  split
  · exact straight_surrogates unit
  · exact .pure _

theorem straight_escapeLetter (quote : UInt8) : (escapeLetter quote).Straight manner := by
  refine (straight_advance 1).bind fun _ => (straight_charAt? 0).bind fun letter => ?_
  split
  · exact .fail rfl rfl
  · exact .pure _

theorem straight_escape (letter : Char × Nat) : (escape letter).Straight manner := by
  refine (straight_advance _).bind fun _ => ?_
  split
  · exact straight_unicodeEscape
  · split
    · exact .pure _
    · exact .fail rfl rfl

theorem straight_bodyTurn (quote : UInt8) (first : Nat) (p : Partial) :
    (bodyTurn quote first p).Straight manner := by
  refine (Straight.byte? 0).bind fun b => ?_
  split
  · exact .fail rfl rfl
  · refine straight_cursor.bind fun last => (straight_escapeLetter quote).bind fun letter => ?_
    exact (straight_bytesOf _).bind fun raw => (straight_escape letter).bind fun chars =>
      straight_cursor.bind fun _ => .pure _
  · exact straight_takeReturn.bind fun _ => .pure _
  · exact straight_takeFeed.bind fun _ => .pure _
  · split
    · refine straight_cursor.bind fun last => (straight_advance 1).bind fun _ => ?_
      split
      · exact (straight_bytesOf _).bind fun _ => .pure _
      · exact (straight_hold _ _).bind fun _ => .pure _
    · exact (straight_advance 1).bind fun _ => .pure _

theorem straight_quoted (quote : UInt8) : (quoted quote).Straight manner :=
  (straight_advance 1).bind fun _ => (Straight.ask .settle rfl).bind fun _ =>
    straight_cursor.bind fun first => .repeating (straight_bodyTurn quote first) _

theorem straight_bodyText (b : Body) : (bodyText b).Straight manner := by
  cases b with
  | held span => exact straight_textOf span
  | decoded text => exact .pure text

theorem straight_bareName : bareName.Straight manner := by
  refine straight_cursor.bind fun first => .repeating (fun _ => (straight_charAt? 0).bind fun r => ?_) ()
  split
  · exact .fail rfl rfl
  · split
    · exact (straight_advance _).bind fun _ => .pure _
    · split
      · exact straight_cursor.bind fun _ => (straight_hold _ _).bind fun _ => .pure _
      · exact .fail rfl rfl

theorem straight_nameText (quote : Option UInt8) : (nameText quote).Straight manner := by
  cases quote with
  | some mark => exact (straight_quoted mark).bind fun b => straight_bodyText b
  | none =>
      refine (straight_charAt? 0).bind fun r => ?_
      split
      · split
        · exact (Straight.ask .settle rfl).bind fun _ => straight_bareName.bind fun span => straight_textOf span
        · exact straight_unexpected _
      · exact straight_unexpected _

theorem straight_constructorName : constructorName.Straight manner := by
  refine .repeating (fun _ => (straight_charAt? 0).bind fun r => ?_) ()
  split
  · exact .fail rfl rfl
  · split
    · exact (straight_advance _).bind fun _ => .pure _
    refine straight_cursor.bind fun last => ?_
    split
    · exact .pure _
    split
    · exact straight_takeReturn.bind fun _ => .pure _
    split
    · exact straight_takeFeed.bind fun _ => .pure _
    split
    · exact (straight_advance _).bind fun _ => .pure _
    · exact .fail rfl rfl

theorem straight_lexemeBytes : lexemeBytes.Straight manner := by
  refine .repeating (fun _ => (Straight.byte? 0).bind fun b => ?_) ()
  split
  · exact .pure _
  · split
    · exact (straight_advance 1).bind fun _ => .pure _
    · exact .pure _

theorem straight_currentText : currentText.Straight manner := by
  refine .get_bind fun s => ?_
  split
  · exact straight_textOf _
  · exact .pure _
  · exact .pure _

end Reading

end JsonPull
