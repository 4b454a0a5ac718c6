import JsonPull.Proofs.Json.Layout
import JsonPull.Proofs.Resume.Token
import JsonPull.Proofs.Tokenizer.Whole

/-! # The place of the next value

Before a value there may be blanks, and behind another value its comma. A call passes them and then
reads what the first byte of the value announces. -/

namespace JsonPull

open JsonPull.Json

variable {settings : Settings} {stream before blank rest : List UInt8} {s : State} {pos : Nat}
  {b : UInt8}

/-- The phase in which the next part is read. Behind a value, the innermost container goes on. -/
def State.nextPhase (settings : Settings) (s : State) : Phase :=
  if s.phase = .postValue then (s.resumeContainer settings).phase else s.phase

/-- What a reader passes before the next part: blanks, and behind a value a comma. Behind a value at
top level, another one may follow without a comma. -/
inductive Approach (settings : Settings) (s : State) : List UInt8 → Prop where
  | blanks {blank : List UInt8} (hphase : s.phase ≠ .postValue) (hblank : IsBlank blank) :
      Approach settings s blank
  | comma {blank blank' : List UInt8} (hphase : s.phase = .postValue) (hblank : IsBlank blank)
      (hblank' : IsBlank blank') : Approach settings s (blank ++ 0x2C :: blank')
  | another {blank : List UInt8} (hphase : s.phase = .postValue) (htop : s.frames = [])
      (hmultiple : settings.multipleValues = true) (hblank : IsBlank blank) :
      Approach settings s blank

theorem Approach.clearSlot (h : Approach settings s before) :
    Approach settings s.clearSlot before := by
  cases h with
  | blanks hphase hblank => exact .blanks hphase hblank
  | comma hphase hblank hblank' => exact .comma hphase hblank hblank'
  | another hphase htop hmultiple hblank => exact .another hphase htop hmultiple hblank

/-- A reader that has passed what stands before the next part. -/
structure Arrives (settings : Settings) (s s' : State) : Prop where
  phase_eq : s'.phase = s.nextPhase settings
  token_eq : s'.token = s.token
  slot_eq : s'.slot = s.slot
  frames_eq : s'.frames = s.frames

/-- Where the open containers are the same, so is the state behind a scalar. -/
theorem State.same_publishScalar {s' : State} (hframes : s'.frames = s.frames) (kind : Scalar)
    (slot : Slot) (counted : Bool) : (s.publishScalar settings kind slot counted).Same
      (s'.publishScalar settings kind slot counted) := by
  cases counted <;> refine ⟨?_, ?_, ?_, ?_⟩ <;>
    simp only [State.publishScalar, State.completeValue, State.countElement, hframes, if_true,
      Bool.false_eq_true, if_false] <;> split <;> rfl

namespace Arrives

variable {s' s'' : State}

theorem same (h : Arrives settings s s') (hs : s'.Same s'') : Arrives settings s s'' :=
  ⟨hs.phase_eq.trans h.phase_eq, hs.token_eq.trans h.token_eq, hs.slot_eq.trans h.slot_eq,
    hs.frames_eq.trans h.frames_eq⟩

theorem of_same (hphase : s.phase ≠ .postValue) (hs : s.Same s') : Arrives settings s s' := by
  refine ⟨?_, hs.token_eq, hs.slot_eq, hs.frames_eq⟩
  rw [hs.phase_eq, State.nextPhase, if_neg hphase]

theorem resumed (hphase : s.phase = .postValue) (hs : s.Same s') :
    Arrives settings s (s'.resumeContainer settings) := by
  have hresumed : (s.resumeContainer settings).Same (s'.resumeContainer settings) :=
    hs.resumeContainer
  refine ⟨?_, hresumed.token_eq, hresumed.slot_eq, hresumed.frames_eq⟩
  rw [hresumed.phase_eq, State.nextPhase, if_pos hphase]

/-- A scalar is published over the phase, so that it does not matter what was passed before. -/
theorem publishScalar (h : Arrives settings s s') (kind : Scalar) (slot : Slot) (counted : Bool) :
    (s.publishScalar settings kind slot counted).Same
      (s'.publishScalar settings kind slot counted) :=
  State.same_publishScalar h.frames_eq kind slot counted

theorem publishName (h : Arrives settings s s') (name : String) :
    (s.publishName name).Same (s'.publishName name) := by
  have hframes := h.frames_eq
  refine ⟨rfl, rfl, rfl, ?_⟩
  simp only [State.publishName, hframes]

end Arrives

namespace Reading

variable {α : Type} {last : Except ReadError α → State → Nat → Prop}

/-! ## Repetitions that skip blanks first -/

/-- Where a turn ends that fails or stops. -/
@[reducible] def Stopped (last : Except ReadError α → State → Nat → Prop)
    (r : Except ReadError (Turn Unit α)) (s : State) (pos : Nat) : Prop :=
  (∀ e, r = .error e → last (.error e) s pos) ∧
    ∀ t, r = .ok t → ∃ a, t = .stop a ∧ last (.ok a) s pos

theorem lands_skipping {f : Option UInt8 → Reading (Turn Unit α)} (hblank : IsSpace blank)
    (hsolid : Solid b) (h : Ahead stream pos (blank ++ b :: rest))
    (hf : ∀ s' pos', s.Same s' → Ahead stream pos' (b :: rest) →
      (f (some b)).Lands settings stream s' pos' (Stopped last)) :
    (repeating (fun _ : Unit => skipBlanks >>= f) ()).Lands settings stream s pos last := by
  have hblanks : skipBlanks.Succeeds settings stream s pos fun b? s' pos' =>
      b? = some b ∧ s.Same s' ∧ Ahead stream pos' (b :: rest) :=
    succeeds_skipBlanks_space hblank (isSolid_cons hsolid rest) h fun _ _ hs ha => ⟨rfl, hs, ha⟩
  refine lands_repeating (hblanks.lands_bind ?_)
  rintro _ s' pos' ⟨rfl, hs, ha⟩
  exact hf s' pos' hs ha

theorem Lands.stopped {x : Reading Unit} (a : α)
    (h : x.Lands settings stream s pos fun r => last (r.map fun _ => a)) :
    (do x; return .stop a : Reading (Turn Unit α)).Lands settings stream s pos (Stopped last) := by
  refine h.bind ?_ fun _ s' pos' hlast => Succeeds.lands ((succeeds_pure _).mpr ⟨nofun, ?_⟩)
  · intro e s' pos' hlast
    exact ⟨fun _ he => Except.error.inj he ▸ hlast, nofun⟩
  · rintro _ ⟨⟩
    exact ⟨a, rfl, hlast⟩

/-! ## Separators -/

theorem succeeds_separator_comma (surface : Bool) (hphase : s.phase = .postValue)
    (hblank : IsSpace blank) (h : Ahead stream pos (blank ++ 0x2C :: rest)) :
    (separator surface).Succeeds settings stream s pos fun found s' pos' =>
      found = false ∧ Arrives settings s s' ∧ Ahead stream pos' rest := by
  refine succeeds_repeating ?_
  rw [succeeds_bind]
  refine succeeds_skipBlanks_space hblank (isSolid_cons (by decide) rest) h fun s' pos' hs ha => ?_
  exact succeeds_takeComma.mpr ⟨rfl, .resumed hphase hs, ha.tail⟩

theorem succeeds_separator_another (surface : Bool) (hphase : s.phase = .postValue)
    (htop : s.frames = []) (hmultiple : settings.multipleValues = true) (hblank : IsBlank blank)
    (hsolid : Solid b) (hstart : StartsValue b) (h : Ahead stream pos (blank ++ b :: rest)) :
    (separator surface).Succeeds settings stream s pos fun found s' pos' =>
      found = false ∧ Arrives settings s s' ∧ Ahead stream pos' (b :: rest) := by
  refine succeeds_repeating ?_
  rw [succeeds_bind]
  refine succeeds_skipBlanks hblank (isSolid_cons hsolid rest) h fun s' pos' hs ha => ?_
  have hgoes : (settings.multipleValues && s'.frames.isEmpty) = true := by
    rw [hmultiple, hs.frames_eq, htop]
    rfl
  dsimp only [List.head?_cons]
  split
  · rename_i hlead
    exact absurd hlead (hstart.1 _)
  · rename_i hlead
    exact absurd hlead hstart.2.1
  · rename_i hlead
    exact absurd hlead hstart.2.2
  · rw [succeeds_bind, succeeds_read, succeeds_bind, succeeds_get, if_pos hgoes, succeeds_bind,
      succeeds_update, succeeds_pure]
    exact ⟨rfl, .resumed hphase hs, ha⟩

/-- What is read behind a separator that is no token of its own. -/
theorem lands_separated {x : Reading α} {y : Bool → Reading α} (hphase : s.phase = .postValue)
    {surface : Bool} (hy : y false = x) (happroach : Approach settings s before) (hsolid : Solid b)
    (hstart : StartsValue b) (h : Ahead stream pos (before ++ b :: rest))
    (hx : ∀ s' pos' blank, Arrives settings s s' → IsBlank blank →
      Ahead stream pos' (blank ++ b :: rest) → x.Lands settings stream s' pos' last) :
    (separator surface >>= y).Lands settings stream s pos last := by
  cases happroach with
  | blanks hne => exact absurd hphase hne
  | comma _ hblank hblank' =>
      rw [List.append_assoc, List.cons_append] at h
      refine (succeeds_separator_comma surface hphase hblank.isSpace h).lands_bind ?_
      rintro _ s' pos' ⟨rfl, harrives, hahead⟩
      rw [hy]
      exact hx s' pos' _ harrives hblank' hahead
  | another _ htop hmultiple hblank =>
      refine (succeeds_separator_another surface hphase htop hmultiple hblank hsolid hstart
        h).lands_bind ?_
      rintro _ s' pos' ⟨rfl, harrives, hahead⟩
      rw [hy]
      exact hx s' pos' [] harrives isBlank_nil hahead

/-- A part that is read behind a separator where one is due, and else at once. -/
theorem lands_part {x separated : Reading α} (happroach : Approach settings s before)
    (h : Ahead stream pos (before ++ b :: rest))
    (hseparated : s.phase = .postValue → separated.Lands settings stream s pos last)
    (hx : ∀ s' pos' blank, Arrives settings s s' → IsBlank blank →
      Ahead stream pos' (blank ++ b :: rest) → x.Lands settings stream s' pos' last) :
    (do if (← get).phase = .postValue then separated else x : Reading α).Lands settings stream s pos
      last := by
  rw [lands_bind_iff fun _ => succeeds_get]
  split
  · rename_i hphase
    exact hseparated hphase
  · rename_i hphase
    cases happroach with
    | blanks _ hblank => exact hx _ _ _ (.of_same hphase (.refl _)) hblank h
    | comma heq => exact absurd heq hphase
    | another heq => exact absurd heq hphase

theorem lands_token_part {last : Except ReadError Bool → State → Nat → Prop}
    (happroach : Approach settings s before) (hsolid : Solid b) (hstart : StartsValue b)
    (h : Ahead stream pos (before ++ b :: rest))
    (hpart : ∀ s' pos' blank, Arrives settings s s' → IsBlank blank →
      Ahead stream pos' (blank ++ b :: rest) → part.Lands settings stream s' pos' last) :
    token.Lands settings stream s pos last := by
  refine lands_part happroach h (fun hphase => ?_) hpart
  rw [lands_bind_iff fun _ => succeeds_read]
  exact lands_separated hphase rfl happroach hsolid hstart h hpart

theorem lands_requested_part {request : Request} {last : Except ReadError Unit → State → Nat → Prop}
    (happroach : Approach settings s before) (hsolid : Solid b) (hstart : StartsValue b)
    (h : Ahead stream pos (before ++ b :: rest))
    (hpart : ∀ s' pos' blank, Arrives settings s s' → IsBlank blank →
      Ahead stream pos' (blank ++ b :: rest) →
      (requestedPart request).Lands settings stream s' pos' last) :
    (requested request).Lands settings stream s pos last :=
  lands_part happroach h
    (fun hphase => lands_separated hphase rfl happroach hsolid hstart h hpart) hpart

/-! ## Values -/

theorem lands_part_value (hphase : s.phase.expectsValue = true)
    {last : Except ReadError Bool → State → Nat → Prop}
    (h : value.Lands settings stream s pos last) : part.Lands settings stream s pos last :=
  h.of_run (run_part_value hphase)

theorem lands_requestedPart {request : Request} (hphase : s.phase.expectsValue = true)
    {last : Except ReadError Unit → State → Nat → Prop}
    (h : (requestedValue request).Lands settings stream s pos last) :
    (requestedPart request).Lands settings stream s pos last := by
  refine h.of_run ?_
  unfold requestedPart
  rw [run_get_bind]
  dsimp only
  rw [if_pos hphase]

/-- What a call reads where a byte announces a string, a number or a special word. -/
def scalar? : Call → Lead → Option (Reading Unit)
  | .read, .quote mark => some (stringValue mark .plain)
  | .read, .special literal => some (specialValue literal .plain)
  | .read, .minus => some (negativeValue .plain (numberValue .plain))
  | .read, .number => some (numberValue .plain)
  | .readAs form, .quote mark => some do
    stringValue mark form.request
    convertText form.request
  | .readAs form, .special literal => some (specialValue literal form.request)
  | .readAs form, .minus => some (negativeValue form.request (requestedNumber form.request))
  | .readAs form, .number => some (requestedNumber form.request)
  | _, _ => none

theorem startsValue_of_scalar? {c : Call} {x : Reading Unit}
    (hx : scalar? c (Lead.ofByte b) = some x) : StartsValue b := by
  refine ⟨fun container hlead => ?_, fun hlead => ?_, fun hlead => ?_⟩ <;> rw [hlead] at hx <;>
    cases c <;> cases hx

theorem lands_value {x : Reading Unit} (hx : scalar? .read (Lead.ofByte b) = some x)
    (hblank : IsSpace blank) (hsolid : Solid b) (h : Ahead stream pos (blank ++ b :: rest))
    {last : Except ReadError Bool → State → Nat → Prop}
    (hlands : ∀ s' pos', s.Same s' → Ahead stream pos' (b :: rest) →
      x.Lands settings stream s' pos' fun r => last (r.map fun _ => true)) :
    value.Lands settings stream s pos last := by
  refine lands_skipping hblank hsolid h fun s' pos' hs ha => ?_
  have hstopped := (hlands s' pos' hs ha).stopped true
  dsimp only
  generalize Lead.ofByte b = lead at hx
  cases lead with
  | quote | special | minus | number =>
      cases hx
      exact hstopped
  | boolean | letterN | undefined | slash | opening | closing | comma | other => cases hx

theorem lands_requestedValue {form : Form} {x : Reading Unit}
    (hx : scalar? (.readAs form) (Lead.ofByte b) = some x) (hblank : IsBlank blank)
    (hsolid : Solid b) (h : Ahead stream pos (blank ++ b :: rest))
    {last : Except ReadError Unit → State → Nat → Prop}
    (hlands : ∀ s' pos', s.Same s' → Ahead stream pos' (b :: rest) →
      x.Lands settings stream s' pos' fun r => last (r.map fun _ => ())) :
    (requestedValue form.request).Lands settings stream s pos last := by
  refine lands_skipping hblank.isSpace hsolid h fun s' pos' hs ha => ?_
  have hstopped := (hlands s' pos' hs ha).stopped ()
  rw [bind_pure_comp] at hstopped
  dsimp only
  generalize Lead.ofByte b = lead at hx
  cases lead with
  | quote | special | minus | number =>
      cases hx
      exact hstopped
  | boolean | letterN | undefined | slash | opening | closing | comma | other => cases hx

end Reading

end JsonPull
