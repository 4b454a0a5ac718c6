import JsonPull.Proofs.Advance.Token
import JsonPull.Proofs.Faults.Between
import JsonPull.Proofs.Json.Parts
import JsonPull.Proofs.Lines.Token
import JsonPull.Proofs.Resume.Scalar

/-! # Behind a value that cannot be converted

A number or a string is read to its end, and the element is counted, before it is converted. So a
reading whose conversion fails ends where a reading that succeeds ends. -/

namespace JsonPull

/-- A failure to convert what was read. -/
def ErrorKind.isConversion : ErrorKind → Bool
  | numberFormat _ | invalidBytes _ => true
  | _ => false

/-- A success, or a failure only to convert what was read. -/
def Scanned {α : Type} (result : Except ReadError α) : Prop :=
  ∀ e, result = .error e → e.kind.isConversion = true

theorem scanned_map {α β : Type} {f : α → β} {result : Except ReadError α}
    (h : Scanned (result.map f)) : Scanned result := by
  rintro e rfl
  exact h e rfl

/-- Behind a value that was read from the state `s`: it is counted as one element, and what comes
next depends on whether a container is open. -/
structure Behind (settings : Settings) (stream : List UInt8) (s s' : State) (pos' : Nat) : Prop where
  counted : Counted stream s'.lines pos'
  frames_eq : s'.frames = s.countElement.frames
  phase_eq : s'.phase = (s.completeValue settings).phase

theorem Ahead.get {stream rest : List UInt8} {pos : Nat} {b : UInt8}
    (h : Ahead stream pos (b :: rest)) : stream[pos]? = some b := by
  have hhead := h.head?
  rwa [Nat.add_zero] at hhead

namespace Reading

open State

variable {α β : Type} {settings : Settings} {stream scalar rest body : List UInt8} {s : State}
  {pos : Nat} {quote b : UInt8}

/-- A reading that is completed ends behind the scalar at the cursor. -/
def Overcomes (x : Reading α) (settings : Settings) (stream : List UInt8) (s : State) (pos : Nat)
    (scalar : List UInt8) : Prop :=
  x.Lands settings stream s pos fun r s' pos' =>
    Scanned r → pos' = pos + scalar.length ∧ Behind settings stream s s' pos'

theorem behind_finished {s₁ s' : State} (hsame : s.Same s₁) (hcounted : Counted stream s₁.lines pos)
    (halike : (s₁.completeValue settings).countElement.Alike s') :
    Behind settings stream s s' pos := by
  have hframes := hsame.frames_eq
  refine ⟨?_, ?_, ?_⟩
  · rw [halike.lines_eq]
    cases h : s₁.frames <;> simpa [completeValue, countElement, h] using hcounted
  · rw [halike.frames_eq]
    cases h : s.frames <;> simp [completeValue, countElement, hframes, h]
  · rw [halike.phase_eq]
    cases h : s.frames <;> simp [completeValue, countElement, hframes, h]

/-! ## Scanning and publishing -/

/-- The bytes of a scalar are passed. Then it is counted, and what is left only publishes. -/
theorem overcomes_scan {x : Reading β} {f : β → Reading α}
    (hscan : x.Succeeds settings stream s pos fun _ s' pos' =>
      s.Same s' ∧ pos' = pos + scalar.length)
    (hcounts : x.Counts settings stream s pos) (hf : ∀ b, (f b).Rests) :
    (do let b ← x; finishValue; f b : Reading α).Overcomes settings stream s pos scalar := by
  obtain ⟨b, s₁, pos₁, hrun, hsame, rfl⟩ := hscan.run
  have hcounted := hcounts.run _ _ _ hrun
  have hexact : x.Succeeds settings stream s pos fun b' s' pos' =>
      b' = b ∧ s' = s₁ ∧ pos' = pos + scalar.length := ⟨b, s₁, _, hrun, rfl, rfl, rfl⟩
  refine hexact.lands_bind ?_
  rintro _ s₁ _ ⟨rfl, rfl, rfl⟩
  have hfinish : finishValue.Succeeds settings stream s₁ (pos + scalar.length) fun _ s' pos' =>
      s' = (s₁.completeValue settings).countElement ∧ pos' = pos + scalar.length :=
    succeeds_finishValue.mpr ⟨rfl, rfl⟩
  refine hfinish.lands_bind ?_
  rintro _ _ _ ⟨rfl, rfl⟩
  refine ((hf _).lands (complete_finished settings s₁)).mono ?_
  rintro r s' _ ⟨rfl, halike⟩ -
  exact ⟨rfl, behind_finished hsame hcounted halike⟩

theorem Overcomes.of_succeeds {x : Reading β} {f : β → Reading α} {b : β}
    (hx : x.Succeeds settings stream s pos fun b' s' pos' => b' = b ∧ s' = s ∧ pos' = pos)
    (h : (f b).Overcomes settings stream s pos scalar) :
    (x >>= f).Overcomes settings stream s pos scalar := by
  refine hx.lands_bind ?_
  rintro _ _ _ ⟨rfl, rfl, rfl⟩
  exact h

/-- A failure that is none of a conversion says nothing of where it leaves the reader. -/
theorem lands_incomplete {kind : ErrorKind} (hkind : kind.isConversion = false)
    {post : State → Nat → Prop} :
    (fail kind : Reading α).Lands settings stream s pos fun r s' pos' =>
      Scanned r → post s' pos' := by
  refine lands_fail kind fun e he hscanned => ?_
  have hconversion := hscanned e rfl
  rw [he, hkind] at hconversion
  cases hconversion

/-! ## Strings -/

theorem overcomes_string (request : Request) {f : Unit → Reading α} (hf : ∀ u, (f u).Rests)
    (hquote : quote = 0x22 ∨ quote = 0x27) (hbody : Closes quote body)
    (hcounted : Counted stream s.lines pos)
    (h : Ahead stream pos (quote :: (body ++ rest))) :
    (stringValue quote request >>= f).Overcomes settings stream s pos (quote :: body) := by
  have hplain : (quote ≠ 0x5C ∧ quote ≠ 0x0D ∧ quote ≠ 0x0A) ∧ isBreak quote = false := by
    rcases hquote with rfl | rfl <;> decide
  unfold stringValue
  simp only [bind_assoc]
  refine overcomes_scan (succeeds_quoted_closes hplain.1 hbody h)
    (counts_quoted quote hcounted h.get hplain.2) fun b => ?_
  have hrests := (rests_publishString quote request b).bind hf
  simpa only [bind_assoc] using hrests

/-! ## Numbers -/

theorem overcomes_number (request : Request) {f : Unit → Reading α} (hf : ∀ u, (f u).Rests)
    (hbytes : ∀ b ∈ scalar, Lexeme.isByte b = true) (hrest : Terminates rest)
    (hcounted : Counted stream s.lines pos) (h : Ahead stream pos (scalar ++ rest)) :
    (numberValue request >>= f).Overcomes settings stream s pos scalar := by
  have hlexeme : lexeme.Succeeds settings stream s pos fun _ s' pos' =>
      s.Same s' ∧ pos' = pos + scalar.length := by
    refine (succeeds_lexeme hbytes hrest h).mono ?_
    rintro _ s' pos' ⟨rfl, rfl⟩
    exact ⟨.refl s', rfl⟩
  unfold numberValue
  simp only [bind_assoc]
  refine .of_succeeds (b := ()) (succeeds_settle.mpr ⟨rfl, rfl, rfl⟩) ?_
  refine .of_succeeds (b := pos) (succeeds_cursor.mpr ⟨rfl, rfl, rfl⟩) ?_
  refine overcomes_scan hlexeme (counts_lexeme hcounted) fun _ => ?_
  have hrests := (rests_publishNumber pos request).bind hf
  simp only [bind_assoc] at hrests
  exact hrests

theorem overcomes_numberValue (request : Request)
    (hbytes : ∀ b ∈ scalar, Lexeme.isByte b = true) (hrest : Terminates rest)
    (hcounted : Counted stream s.lines pos) (h : Ahead stream pos (scalar ++ rest)) :
    (numberValue request).Overcomes settings stream s pos scalar := by
  rw [← bind_pure (numberValue request)]
  exact overcomes_number request rests_pure hbytes hrest hcounted h

theorem overcomes_unexpected {b : UInt8} (hascii : b < 0x80)
    (h : Ahead stream pos (b :: rest)) :
    (unexpectedConsumed .value : Reading α).Overcomes settings stream s pos scalar := by
  have hfound : foundAtCursor.Succeeds settings stream s pos fun _ s' pos' =>
      s' = s ∧ pos' = pos := by
    unfold foundAtCursor
    rw [succeeds_bind, succeeds_charAt? hascii h]
    exact (succeeds_pure _).mpr ⟨rfl, rfl⟩
  unfold unexpectedConsumed
  refine hfound.lands_bind ?_
  rintro ⟨found, length⟩ s pos ⟨rfl, rfl⟩
  have hadvance : (advance length).Succeeds settings stream s pos fun _ _ _ => True :=
    (succeeds_advance length).mpr trivial
  exact hadvance.lands_bind fun _ _ _ _ => lands_incomplete rfl

/-- In whatever form a number is asked for. Bytes and dates are no form of a number. -/
theorem overcomes_requestedNumber (request : Request) {more : List UInt8} (hascii : b < 0x80)
    (hbytes : ∀ b' ∈ b :: more, Lexeme.isByte b' = true) (hrest : Terminates rest)
    (hcounted : Counted stream s.lines pos) (h : Ahead stream pos (b :: more ++ rest)) :
    (requestedNumber request).Overcomes settings stream s pos (b :: more) := by
  unfold requestedNumber
  split
  · exact overcomes_unexpected hascii h
  · exact overcomes_unexpected hascii h
  · exact overcomes_unexpected hascii h
  · exact overcomes_number .plain (fun _ => rests_get.bind fun _ => rests_publishScalar _ _) hbytes
      hrest hcounted h
  · exact overcomes_numberValue request hbytes hrest hcounted h

/-- Behind the minus sign of a number, no word begins. -/
theorem ne_letter_behind_minus {more : List UInt8} (hbytes : ∀ b ∈ more, Lexeme.isByte b = true)
    (hrest : Terminates rest) (h : Ahead stream pos (0x2D :: (more ++ rest))) :
    stream[pos + 1]? ≠ some 0x49 := by
  rw [h.getElem?]
  cases more with
  | nil =>
      intro hb
      have hhead : rest.head? = some 0x49 := by simpa [List.head?_eq_getElem?] using hb
      exact absurd (hrest.head _ hhead) (by decide)
  | cons b more =>
      rintro ⟨⟩
      exact absurd (hbytes 0x49 (by simp)) (by decide)

/-- What begins with a minus sign is a number, unless a letter follows that begins a word. -/
theorem overcomes_negativeValue (request : Request) {number : Reading Unit} {more : List UInt8}
    (hbytes : ∀ b ∈ 0x2D :: more, Lexeme.isByte b = true) (hrest : Terminates rest)
    (h : Ahead stream pos (0x2D :: more ++ rest))
    (hnumber : number.Overcomes settings stream s pos (0x2D :: more)) :
    (negativeValue request number).Overcomes settings stream s pos (0x2D :: more) := by
  have hletter : stream[pos + 1]? ≠ some 0x49 :=
    ne_letter_behind_minus (fun b hb => hbytes b (List.mem_cons_of_mem _ hb)) hrest h
  unfold negativeValue
  refine .of_succeeds (b := stream[pos + 1]?) ((succeeds_byte? 1 .all).mpr ⟨rfl, rfl, rfl⟩) ?_
  rw [if_neg (by simpa using hletter)]
  exact hnumber

/-! ## Values -/

/-- What a turn leaves that stops behind a value, or fails. -/
@[reducible] def Turned (scalar : List UInt8) (settings : Settings) (stream : List UInt8) (s : State)
    (pos : Nat) (r : Except ReadError (Turn Unit α)) (s' : State) (pos' : Nat) : Prop :=
  (∀ e, r = .error e → Scanned (.error e : Except ReadError α) →
    pos' = pos + scalar.length ∧ Behind settings stream s s' pos') ∧
  ∀ t, r = .ok t → ∃ a, t = .stop a ∧ (Scanned (.ok a) →
    pos' = pos + scalar.length ∧ Behind settings stream s s' pos')

theorem Overcomes.stop {x : Reading β} (h : x.Overcomes settings stream s pos scalar) (f : β → α) :
    (do let b ← x; return .stop (f b) : Reading (Turn Unit α)).Lands settings stream s pos
      (Turned scalar settings stream s pos) := by
  refine Lands.bind h ?_ ?_
  · intro e s' pos' hpost
    refine ⟨?_, nofun⟩
    rintro _ ⟨⟩ hscanned
    exact hpost fun e' he => hscanned e' (by simpa using he)
  · intro b s' pos' hpost
    refine Succeeds.lands ((succeeds_pure _).mpr ⟨nofun, ?_⟩)
    rintro _ ⟨⟩
    exact ⟨f b, rfl, fun _ => hpost nofun⟩

/-- A repetition whose first turn sees a byte that is no blank. -/
theorem overcomes_repeating {f : Option UInt8 → Reading (Turn Unit α)}
    (hget : stream[pos]? = some b) (hsolid : Solid b)
    (h : (f (some b)).Lands settings stream s pos (Turned scalar settings stream s pos)) :
    (repeating (fun _ : Unit => skipBlanks >>= f) ()).Overcomes settings stream s pos scalar := by
  have hblanks : skipBlanks.Succeeds settings stream s pos fun b? s' pos' =>
      b? = some b ∧ s' = s ∧ pos' = pos := succeeds_skipBlanks_solid hget hsolid ⟨rfl, rfl, rfl⟩
  refine lands_repeating (hblanks.lands_bind ?_)
  rintro _ _ _ ⟨rfl, rfl, rfl⟩
  exact h

theorem overcomes_value {x : Reading Unit} (hx : announced? (Lead.ofByte b) = some x)
    (hget : stream[pos]? = some b) (hsolid : Solid b)
    (h : x.Overcomes settings stream s pos scalar) :
    value.Overcomes settings stream s pos scalar := by
  refine overcomes_repeating hget hsolid ?_
  dsimp only
  have hstop := h.stop fun _ => true
  generalize Lead.ofByte b = lead at hx
  cases lead with
  | quote | boolean | letterN | minus | number | opening =>
      cases hx
      exact hstop
  | closing container =>
      cases container <;> cases hx
      exact hstop
  | undefined | special | slash | comma | other => cases hx

/-- What is read on request where a byte announces a number or a string. -/
def requestedScalar? (request : Request) : Lead → Option (Reading Unit)
  | .quote mark => some do
    stringValue mark request
    convertText request
  | .minus => some (negativeValue request (requestedNumber request))
  | .number => some (requestedNumber request)
  | _ => none

theorem overcomes_requestedValue {request : Request} {x : Reading Unit}
    (hx : requestedScalar? request (Lead.ofByte b) = some x) (hget : stream[pos]? = some b)
    (hsolid : Solid b) (h : x.Overcomes settings stream s pos scalar) :
    (requestedValue request).Overcomes settings stream s pos scalar := by
  refine overcomes_repeating hget hsolid ?_
  dsimp only
  have hstop := h.stop id
  rw [bind_pure_comp] at hstop
  generalize Lead.ofByte b = lead at hx
  cases lead with
  | quote | minus | number =>
      cases hx
      exact hstop
  | boolean | letterN | undefined | special | slash | opening | closing | comma | other => cases hx

theorem lead_number (h : Number.isDigit b = true ∨ b = 0x2E) :
    Lead.ofByte b = .number ∧ Solid b := by
  rcases h with h | rfl
  · have hdigit : 0x30 ≤ b ∧ b ≤ 0x39 := by simpa [Number.isDigit] using h
    obtain ⟨hlead, hsolid, -⟩ := Json.digit_cases hdigit
    exact ⟨hlead, hsolid⟩
  · exact ⟨rfl, by decide, rfl⟩

theorem lead_quote (h : quote = 0x22 ∨ quote = 0x27) :
    Lead.ofByte quote = .quote quote ∧ Solid quote := by
  rcases h with rfl | rfl <;> exact ⟨rfl, by decide, rfl⟩

/-- What a scalar begins with announces a reading that overcomes it. -/
theorem overcomes_scalar (h : IsScalar scalar rest) (hahead : Ahead stream pos (scalar ++ rest))
    (hcounted : Counted stream s.lines pos) :
    value.Overcomes settings stream s pos scalar ∧
      ∀ request, (requestedValue request).Overcomes settings stream s pos scalar := by
  cases h with
  | @number b more rest hfirst hbytes hrest =>
      have hplain : (numberValue .plain).Overcomes settings stream s pos (b :: more) :=
        overcomes_numberValue .plain hbytes hrest hcounted hahead
      have hrequested : ∀ request, b < 0x80 →
          (requestedNumber request).Overcomes settings stream s pos (b :: more) :=
        fun request hascii => overcomes_requestedNumber request hascii hbytes hrest hcounted hahead
      by_cases hminus : b = 0x2D
      · subst hminus
        constructor
        · refine overcomes_value rfl hahead.get ⟨by decide, rfl⟩ ?_
          exact overcomes_negativeValue _ hbytes hrest hahead hplain
        · intro request
          refine overcomes_requestedValue rfl hahead.get ⟨by decide, rfl⟩ ?_
          exact overcomes_negativeValue _ hbytes hrest hahead (hrequested request (by decide))
      · obtain ⟨hlead, hsolid⟩ : Lead.ofByte b = .number ∧ Solid b := lead_number (by tauto)
        constructor
        · exact overcomes_value (by rw [hlead]; rfl) hahead.get hsolid hplain
        · intro request
          exact overcomes_requestedValue (by rw [hlead]; rfl) hahead.get hsolid
            (hrequested request hsolid.1)
  | @quoted quote body rest hquote hbody =>
      obtain ⟨hlead, hsolid⟩ := lead_quote hquote
      constructor
      · have hstring : (stringValue quote .plain >>= pure).Overcomes settings stream s pos
            (quote :: body) := overcomes_string .plain rests_pure hquote hbody hcounted hahead
        rw [bind_pure] at hstring
        exact overcomes_value (by rw [hlead]; rfl) hahead.get hsolid hstring
      · intro request
        refine overcomes_requestedValue (by rw [hlead]; rfl) hahead.get hsolid ?_
        exact overcomes_string request (fun _ => rests_convertText request) hquote hbody hcounted
          hahead

/-! ## Whole calls -/

theorem Overcomes.of_run {x y : Reading α} (h : x.Overcomes settings stream s pos scalar)
    (hrun : (y.run settings).run.run s = (x.run settings).run.run s) :
    y.Overcomes settings stream s pos scalar := by
  refine ⟨fun r s' pos' hy => h.run r s' pos' ?_⟩
  rwa [hrun] at hy

theorem ne_postValue_of_expectsValue (hphase : s.phase.expectsValue = true) :
    s.phase ≠ .postValue := by
  intro heq
  simp [heq, Phase.expectsValue] at hphase

theorem overcomes_token (hphase : s.phase.expectsValue = true) (h : IsScalar scalar rest)
    (hahead : Ahead stream pos (scalar ++ rest)) (hcounted : Counted stream s.lines pos) :
    token.Overcomes settings stream s pos scalar := by
  refine (overcomes_scalar h hahead hcounted).1.of_run ?_
  rw [run_token_part (ne_postValue_of_expectsValue hphase), run_part_value hphase]

theorem overcomes_requested (request : Request) (hphase : s.phase.expectsValue = true)
    (h : IsScalar scalar rest) (hahead : Ahead stream pos (scalar ++ rest))
    (hcounted : Counted stream s.lines pos) :
    (requested request).Overcomes settings stream s pos scalar := by
  refine ((overcomes_scalar h hahead hcounted).2 request).of_run ?_
  unfold requested requestedPart
  rw [run_get_bind, if_neg (ne_postValue_of_expectsValue hphase), run_get_bind]
  dsimp only
  rw [if_pos hphase]

end Reading

end JsonPull
