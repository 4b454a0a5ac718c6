import JsonPull.Proofs.Reading.Ensures
import JsonPull.Reader.Typed

/-! # Changes of the state

A reading changes the state by a few kinds of changes, whatever the stream answers. A failure keeps
the changes that were made before it; only at the end of a container that is not the innermost one
it leaves something more behind. -/

namespace JsonPull

/-! ## All answers -/

namespace Scan

variable {α β : Type} {post post' : α → Prop}

/-- Whatever its questions are answered with, a scan ends as `post` says. -/
def Always (post : α → Prop) : Scan α → Prop
  | done a => post a
  | ask _ next => ∀ a, (next a).Always post

theorem Always.mono {scan : Scan α} (h : scan.Always post) (hpost : ∀ a, post a → post' a) :
    scan.Always post' := by
  induction scan with
  | done a => exact hpost a h
  | ask q next ih => exact fun a => ih a (h a)

theorem Always.and {scan : Scan α} (h : scan.Always post) (h' : scan.Always post') :
    scan.Always fun a => post a ∧ post' a := by
  induction scan with
  | done a => exact ⟨h, h'⟩
  | ask q next ih => exact fun a => ih a (h a) (h' a)

theorem Always.bind {scan : Scan α} {f : α → Scan β} {last : β → Prop} (h : scan.Always post)
    (hf : ∀ a, post a → (f a).Always last) : (scan.bind f).Always last := by
  induction scan with
  | done a => exact hf a h
  | ask q next ih => exact fun a => ih a (h a)

theorem Always.runWith {σ : Type} {scan : Scan α} (h : scan.Always post)
    (answer : (q : Query) → σ → q.Answer × σ) (x : σ) : post (scan.runWith answer x).1 := by
  induction scan generalizing x with
  | done a => exact h
  | ask q next ih => exact ih _ (h _) _

end Scan

/-- The end of a container that is not the innermost one. -/
def ErrorKind.isMismatch : ErrorKind → Bool
  | mismatchedClose _ _ => true
  | _ => false

/-! ## Changes -/

namespace State

variable {settings : Settings} {s s₁ s₂ : State} {e : ReadError}

/-- Equal apart from the lines. -/
def Lined (s s' : State) : Prop := s' = { s with lines := s'.lines }

theorem Lined.refl (s : State) : Lined s s := rfl

theorem Lined.trans (h : Lined s s₁) (h' : Lined s₁ s₂) : Lined s s₂ := by
  unfold Lined at h h' ⊢
  rw [h', h]

theorem Lined.phase_eq (h : Lined s s₁) : s₁.phase = s.phase := by rw [h]

/-- An object is being read, and a property comes next. -/
def inObject (s : State) : Prop := s.phase = .opened .object ∨ s.phase = .within .object

/-- One change that a reading makes to the state. -/
inductive Change (settings : Settings) (s : State) : State → Prop where
  | lines (lines : Lines) : Change settings s { s with lines }
  | quote (quote : Option UInt8) : Change settings s { s with quote }
  | cleared : Change settings s s.clearSlot
  | scalar (kind : Scalar) (slot : Slot) (counted : Bool) :
      Change settings s (s.publishScalar settings kind slot counted)
  | counted : Change settings s (s.completeValue settings).countElement
  | opening (c : Container) (slot : Slot) : Change settings s (s.publishOpening c slot)
  | closing (c : Container) (hinner : s.innermost? = some c) :
      Change settings s ((s.publishClosing c).completeValue settings)
  | name (name : String) (hphase : s.inObject) : Change settings s (s.publishName name)
  | comment (slot : Slot) : Change settings s (s.publishComment slot)
  | nothing : Change settings s s.publishNothing
  | resumed : Change settings s (s.resumeContainer settings)
  | ended : Change settings s { s with phase := .finished }

/-- Any number of changes. -/
abbrev Changes (settings : Settings) : State → State → Prop :=
  Relation.ReflTransGen (Change settings)

theorem Lined.changes (h : Lined s s₁) : Changes settings s s₁ := by
  rw [h]
  exact .single (.lines _)

/-- What a failure leaves. At the end of a container that is not the innermost one, the innermost
one is left before the failure. In an object, only the end of an object is looked for. -/
inductive Broken (settings : Settings) (s : State) (e : ReadError) : State → Prop where
  | kept {s' : State} (h : Changes settings s s') (hkind : e.kind.isMismatch = false)
      (hpath : e.path = s'.path) : Broken settings s e s'
  | mismatched {s' : State} (c : Container) (h : Changes settings s s')
      (hphase : s'.inObject → c = .object) (hinner : s'.innermost? ≠ some c)
      (hkind : e.kind = .mismatchedClose (.closing c) s'.innermost?)
      (hpath : e.path = (s'.publishClosing c).path) : Broken settings s e (s'.publishClosing c)

theorem Broken.of_changes (hs : Changes settings s s₁) (h : Broken settings s₁ e s₂) :
    Broken settings s e s₂ := by
  cases h with
  | kept h hkind hpath => exact .kept (hs.trans h) hkind hpath
  | mismatched c h hphase hinner hkind hpath =>
      exact .mismatched c (hs.trans h) hphase hinner hkind hpath

end State

open State

namespace Reading

variable {α β τ : Type} {settings : Settings} {s s₁ : State} {retain : Retain}
  {ok ok' : α → State → Prop} {err err' : ReadError → State → Prop}

/-- Whatever is answered, a reading leaves the state as `ok` or `err` says. -/
structure Leaves (x : Reading α) (settings : Settings) (s : State) (ok : α → State → Prop)
    (err : ReadError → State → Prop) : Prop where
  run : ((x.run settings).run.run s).Always fun r => match r with
    | (.ok a, s') => ok a s'
    | (.error e, s') => err e s'

namespace Leaves

theorem mono {x : Reading α} (h : x.Leaves settings s ok err) (hok : ∀ a s', ok a s' → ok' a s')
    (herr : ∀ e s', err e s' → err' e s') : x.Leaves settings s ok' err' := by
  refine ⟨h.run.mono ?_⟩
  rintro ⟨e | a, s'⟩ hr
  · exact herr e s' hr
  · exact hok a s' hr

theorem and {x : Reading α} (h : x.Leaves settings s ok err) (h' : x.Leaves settings s ok' err') :
    x.Leaves settings s (fun a s' => ok a s' ∧ ok' a s') fun e s' => err e s' ∧ err' e s' := by
  refine ⟨(h.run.and h'.run).mono ?_⟩
  rintro ⟨e | a, s'⟩ hr <;> exact hr

theorem bind {x : Reading β} {f : β → Reading α} {mid : β → State → Prop}
    (hx : x.Leaves settings s mid err) (hf : ∀ b s', mid b s' → (f b).Leaves settings s' ok err) :
    (x >>= f).Leaves settings s ok err := by
  refine ⟨?_⟩
  rw [run_bind]
  refine hx.run.bind ?_
  rintro ⟨e | b, s'⟩ hr
  · exact hr
  · exact (hf b s' hr).run

theorem pure {a : α} (h : ok a s) : (Pure.pure a : Reading α).Leaves settings s ok err := ⟨h⟩

theorem throw {e : ReadError} (h : err e s) :
    (MonadExcept.throw e : Reading α).Leaves settings s ok err := ⟨h⟩

theorem ask {q : Query} {ok : q.Answer → State → Prop} (h : ∀ a, ok a s) :
    (Reading.ask q).Leaves settings s ok err := ⟨h⟩

theorem modify {f : State → State} {ok : Unit → State → Prop} (h : ok () (f s)) :
    (MonadState.modifyGet fun s => ((), f s) : Reading Unit).Leaves settings s ok err := ⟨h⟩

theorem update {f : Settings → State → State} {ok : Unit → State → Prop}
    (h : ok () (f settings s)) : (Reading.update f).Leaves settings s ok err := ⟨h⟩

theorem get_bind {f : State → Reading α} (h : (f s).Leaves settings s ok err) :
    (get >>= f).Leaves settings s ok err := ⟨h.run⟩

theorem read_bind {f : Settings → Reading α} (h : (f settings).Leaves settings s ok err) :
    (read >>= f).Leaves settings s ok err := ⟨h.run⟩

theorem fail {kind : ErrorKind}
    (h : ∀ offset, err ⟨kind, s.path, s.lines.line, s.lines.position offset⟩ s) :
    (Reading.fail kind : Reading α).Leaves settings s ok err :=
  ⟨fun offset => h offset⟩

/-- What a turn leaves: the invariant of the repetition, or a result. -/
@[reducible] def Turned (inv : τ → State → Prop) (ok : α → State → Prop) :
    Turn τ α → State → Prop
  | .again x, s' => inv x s'
  | .stop a, s' => ok a s'

theorem repeating {turn : τ → Reading (Turn τ α)} (inv : τ → State → Prop)
    (hturn : ∀ x s, inv x s → (turn x).Leaves settings s (Turned inv ok) err)
    (hfail : ∀ x s, inv x s → ∀ text, (Reading.fail (.invariantViolated text) : Reading α).Leaves
      settings s ok err)
    {x : τ} (h : inv x s) : (Reading.repeating turn x).Leaves settings s ok err := by
  have hbudget : (Reading.ask .budget).Leaves settings s (fun _ s' => inv x s') err := .ask fun _ => h
  refine hbudget.bind fun n s' h => ?_
  refine repeatAtMost_induction (fun x y => ∀ s, inv x s → y.Leaves settings s ok err)
    (fun x text s h => hfail x s h text) ?_ (n + 1) x s' h
  intro x next ih s h
  refine (hturn x s h).bind ?_
  rintro (x' | a) s' hr
  · exact ih x' s' hr
  · exact .pure hr

end Leaves

/-! ## Readings that only count lines, or only make changes -/

/-- A reading that changes nothing but the lines, whether it succeeds or fails. -/
structure Calm (x : Reading α) : Prop where
  leaves : ∀ settings s, x.Leaves settings s (fun _ s' => s.Lined s')
    fun e s' => s.Lined s' ∧ e.kind.isMismatch = false ∧ e.path = s'.path

/-- A reading that goes from one state to the next by changes, whether it succeeds or fails. -/
structure Evolves (x : Reading α) : Prop where
  leaves : ∀ settings s, x.Leaves settings s (fun _ s' => Changes settings s s') (Broken settings s)

end Reading

end JsonPull
