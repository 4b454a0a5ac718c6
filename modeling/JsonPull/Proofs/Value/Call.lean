import JsonPull.Proofs.Tokenizer.Fair
import JsonPull.Proofs.Tokenizer.Operation
import JsonPull.Proofs.Value.Position

/-! # Calls at the next value

What a call makes of the next value does not depend on how the source splits its bytes, nor on the
calls before. It is what the reading of the value leaves on the stream as a whole. -/

namespace JsonPull

open Reading

variable {settings : Settings} {stream before text more rest : List UInt8} {s : State} {pos : Nat}
  {b : UInt8} {x : Reading Unit} {c : Call}

namespace Call

/-- What the program of a call ends with behind a scalar. -/
def done : (c : Call) → c.Result
  | read => true
  | readAs _ => ()

/-- The program of a call for a form reads the next value behind what stands before it. -/
theorem lands_readAs {form : Form} (hstart : StartsValue b) (hsolid : Solid b)
    (happroach : Approach settings s before)
    (hexpects : (s.nextPhase settings).expectsValue = true)
    (h : Ahead stream pos (before ++ b :: more))
    {last : Except ReadError Unit → State → Nat → Prop}
    (hvalue : ∀ s' pos' blank, Arrives settings s.clearSlot s' → Json.IsBlank blank →
      Ahead stream pos' (blank ++ b :: more) →
      (requestedValue form.request).Lands settings stream s' pos' last) :
    (readAs form).program.Lands settings stream s pos last := by
  refine lands_modify_bind.mpr ?_
  refine lands_requested_part happroach.clearSlot hsolid hstart h
    fun s' pos' blank harrives hblank ha => ?_
  have hphase : s'.phase.expectsValue = true := harrives.phase_eq ▸ hexpects
  exact lands_requestedPart hphase (hvalue s' pos' blank harrives hblank ha)

/-- The program of a call reads what the first byte of the next value announces. -/
theorem lands_program (hx : scalar? c (Lead.ofByte b) = some x) (hsolid : Solid b)
    (happroach : Approach settings s before)
    (hexpects : (s.nextPhase settings).expectsValue = true)
    (h : Ahead stream pos (before ++ b :: more))
    {last : Except ReadError Unit → State → Nat → Prop}
    (hlands : ∀ s' pos', Arrives settings s.clearSlot s' → Ahead stream pos' (b :: more) →
      x.Lands settings stream s' pos' last) :
    c.program.Lands settings stream s pos fun r s' pos' =>
      ∃ u, last u s' pos' ∧ r = u.map fun _ => c.done := by
  have hstart := startsValue_of_scalar? hx
  have hvalue : ∀ s' s'' pos', Arrives settings s.clearSlot s' → s'.Same s'' →
      Ahead stream pos' (b :: more) → x.Lands settings stream s'' pos' last :=
    fun s' s'' pos' harrives hs ha => hlands s'' pos' (harrives.same hs) ha
  cases c with
  | read =>
      refine lands_modify_bind.mpr ?_
      refine lands_token_part happroach.clearSlot hsolid hstart h
        fun s' pos' blank harrives hblank ha => ?_
      have hphase : s'.phase.expectsValue = true := harrives.phase_eq ▸ hexpects
      refine lands_part_value hphase ?_
      refine lands_value hx hblank.isSpace hsolid ha fun s'' pos'' hs ha' => ?_
      exact (hvalue s' s'' pos'' harrives hs ha').mono fun r _ _ hlast => ⟨r, hlast, rfl⟩
  | readAs form =>
      refine lands_readAs hstart hsolid happroach hexpects h fun s' pos' blank harrives hblank ha => ?_
      refine lands_requestedValue hx hblank hsolid ha fun s'' pos'' hs ha' => ?_
      exact (hvalue s' s'' pos'' harrives hs ha').mono fun r _ _ hlast => ⟨r, hlast, rfl⟩

end Call

/-- What a call on a whole stream leaves is what its program leaves. -/
theorem Whole.call_lands {r : Whole} {last : Except ReadError Unit → State → Nat → Prop}
    (h : c.program.Lands settings stream r.state r.cursor fun result s pos =>
      ∃ u, last u s pos ∧ result = u.map fun _ => c.done) :
    ∃ u, last u (r.call settings stream c).2.state (r.call settings stream c).2.cursor ∧
      (r.call settings stream c).1 =
        u.map fun _ => c.answer ((r.call settings stream c).2.value? stream) c.done := by
  obtain ⟨u, hlast, hresult⟩ := h.run _ _ _ rfl
  rw [call_eq]
  refine ⟨u, hlast, ?_⟩
  change Except.map _ (r.run settings stream c.program).1 = _
  rw [show (r.run settings stream c.program).1 = u.map fun _ => c.done from hresult]
  cases u <;> rfl

namespace Tokenizer

variable {t : Tokenizer}

/-- The phase in which a tokenizer reads the next part. -/
def nextPhase (t : Tokenizer) : Phase :=
  t.state.nextPhase t.options.settings

/-- The next part begins with these bytes. -/
def Faces (t : Tokenizer) (stream text : List UInt8) : Prop :=
  ∃ before, Approach t.options.settings t.state before ∧
    Ahead stream t.feed.window.cursor (before ++ text)

/-- A call that is one on the whole stream ends as its program does there. -/
theorem call_of_program
    (hwhole : ((t.call c).1, (t.call c).2.whole) = t.whole.call t.options.settings stream c)
    (hview : (t.call c).2.view = (t.call c).2.whole.view stream)
    {last : Except ReadError Unit → State → Nat → Prop}
    (hprogram : c.program.Lands t.options.settings stream t.state t.feed.window.cursor
      fun r s' pos' => ∃ u, last u s' pos' ∧ r = u.map fun _ => c.done) :
    ∃ u, last u (t.call c).2.state (t.call c).2.feed.window.cursor ∧
      (t.call c).1 = u.map (fun _ => c.answer (t.call c).2.value? c.done) ∧
      (t.call c).2.value? = (t.call c).2.state.slot.value? stream := by
  obtain ⟨u, hlast, hresult⟩ := Whole.call_lands (r := t.whole) hprogram
  have hvalue : (t.call c).2.value? = (t.call c).2.whole.value? stream := congrArg View.value? hview
  have hfst : (t.call c).1 = (t.whole.call t.options.settings stream c).1 := congrArg (·.1) hwhole
  have hsnd : (t.call c).2.whole = (t.whole.call t.options.settings stream c).2 :=
    congrArg (·.2) hwhole
  rw [← hsnd] at hlast hresult
  exact ⟨u, hlast, by rw [hfst, hresult, hvalue], hvalue⟩

/-- A call that is one on the whole stream reads what the first byte of the next value announces. -/
theorem call_lands
    (hwhole : ((t.call c).1, (t.call c).2.whole) = t.whole.call t.options.settings stream c)
    (hview : (t.call c).2.view = (t.call c).2.whole.view stream)
    (hx : scalar? c (Lead.ofByte b) = some x) (hsolid : Solid b)
    (hexpects : t.nextPhase.expectsValue = true) (hfaces : t.Faces stream (b :: more))
    {last : Except ReadError Unit → State → Nat → Prop}
    (hlands : ∀ s' pos', Arrives t.options.settings t.state.clearSlot s' →
      Ahead stream pos' (b :: more) → x.Lands t.options.settings stream s' pos' last) :
    ∃ u, last u (t.call c).2.state (t.call c).2.feed.window.cursor ∧
      (t.call c).1 = u.map (fun _ => c.answer (t.call c).2.value? c.done) ∧
      (t.call c).2.value? = (t.call c).2.state.slot.value? stream := by
  obtain ⟨before, happroach, hahead⟩ := hfaces
  exact call_of_program hwhole hview
    (Call.lands_program hx hsolid happroach hexpects hahead hlands)

/-! ## Steady sources -/

theorem Sound.afterAll (h : t.Sound stream) (calls : List Call) :
    (t.afterAll (calls.map .call)).Sound stream := by
  induction calls generalizing t with
  | nil => exact h
  | cons c calls ih => exact ih (h.call c).2

theorem options_afterAll (t : Tokenizer) (calls : List Call) :
    (t.afterAll (calls.map .call)).options = t.options := by
  induction calls generalizing t with
  | nil => rfl
  | cons c calls ih => exact (ih _).trans (options_call c t)

/-- A call at a value. However the source splits its bytes, the call ends as the reading does that
the first byte of the value announces. -/
theorem Sound.call_lands (h : t.Sound stream) (hx : scalar? c (Lead.ofByte b) = some x)
    (hsolid : Solid b) (hexpects : t.nextPhase.expectsValue = true)
    (hfaces : t.Faces stream (b :: more)) {last : Except ReadError Unit → State → Nat → Prop}
    (hlands : ∀ s' pos', Arrives t.options.settings t.state.clearSlot s' →
      Ahead stream pos' (b :: more) → x.Lands t.options.settings stream s' pos' last) :
    ∃ u, last u (t.call c).2.state (t.call c).2.feed.window.cursor ∧
      (t.call c).1 = u.map (fun _ => c.answer (t.call c).2.value? c.done) ∧
      (t.call c).2.value? = (t.call c).2.state.slot.value? stream :=
  Tokenizer.call_lands (h.call c).1 (h.call c).2.view hx hsolid hexpects hfaces hlands

end Tokenizer

end JsonPull
