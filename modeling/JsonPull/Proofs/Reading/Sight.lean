import JsonPull.Proofs.Reading.Ensures

/-! # What a reading sees of the state

Two runs of one reading ask the same questions and end with the same result, if their states and
settings agree in what the reading looks at. This holds of failures too: an error tells the lines,
the phase and the open containers, and nothing else of the state. -/

namespace JsonPull

namespace Scan

variable {α β γ δ : Type} {related : α → β → Prop}

/-- Two scans that ask the same questions and end with related results. -/
inductive Agrees (related : α → β → Prop) : Scan α → Scan β → Prop
  | done {a : α} {b : β} (h : related a b) : Agrees related (done a) (done b)
  | ask (q : Query) {next : q.Answer → Scan α} {next' : q.Answer → Scan β}
      (h : ∀ a, Agrees related (next a) (next' a)) : Agrees related (ask q next) (ask q next')

theorem Agrees.bind {scan : Scan α} {scan' : Scan β} {f : α → Scan γ} {f' : β → Scan δ}
    {last : γ → δ → Prop} (h : Agrees related scan scan')
    (hf : ∀ a b, related a b → Agrees last (f a) (f' b)) :
    Agrees last (scan.bind f) (scan'.bind f') := by
  induction h with
  | done h => exact hf _ _ h
  | ask q h ih => exact .ask q ih

theorem Agrees.mono {scan : Scan α} {scan' : Scan β} {last : α → β → Prop}
    (h : Agrees related scan scan') (hlast : ∀ a b, related a b → last a b) :
    Agrees last scan scan' := by
  induction h with
  | done h => exact .done (hlast _ _ h)
  | ask q h ih => exact .ask q ih

/-- Whoever answers the questions, the two scans leave the same behind. -/
theorem Agrees.runWith {scan : Scan α} {scan' : Scan β} {σ : Type} (h : Agrees related scan scan')
    (answer : (q : Query) → σ → q.Answer × σ) (x : σ) :
    related (scan.runWith answer x).1 (scan'.runWith answer x).1 ∧
      (scan'.runWith answer x).2 = (scan.runWith answer x).2 := by
  induction h generalizing x with
  | done h => exact ⟨h, rfl⟩
  | ask q h ih => exact ih _ _

end Scan

/-- Equal apart from whether comments are surfaced. -/
def Settings.Kin (settings settings' : Settings) : Prop :=
  settings' = { settings with surfaceComments := settings'.surfaceComments }

theorem Settings.Kin.refl (settings : Settings) : settings.Kin settings := rfl

namespace State

/-- Equal in what decides how reading goes on: the lines, the phase and the containers. -/
structure Alike (s s' : State) : Prop where
  lines_eq : s'.lines = s.lines
  phase_eq : s'.phase = s.phase
  frames_eq : s'.frames = s.frames

variable {settings settings' : Settings}

theorem completeValue_kin (h : settings.Kin settings') :
    completeValue settings' = completeValue settings := by
  rw [h]
  rfl

theorem publishScalar_kin (h : settings.Kin settings') :
    publishScalar settings' = publishScalar settings := by
  rw [h]
  rfl

theorem resumeContainer_kin (h : settings.Kin settings') :
    resumeContainer settings' = resumeContainer settings := by
  rw [h]
  rfl

end State

namespace Reading

variable {α β τ : Type} {settings : Settings} {before : State → State → Prop}
  {after after' : α → State → State → Prop}

/-- From states that are related by `before`, two runs ask the same questions, end with the same
result, and leave states that are related by `after` if they succeed. -/
structure Sees (x : Reading α) (before : State → State → Prop) (after : α → State → State → Prop) :
    Prop where
  run : ∀ {settings settings' : Settings} {s s' : State}, settings.Kin settings' → before s s' →
    Scan.Agrees (fun r r' => r'.1 = r.1 ∧ ∀ a, r.1 = .ok a → after a r.2 r'.2)
      ((x.run settings).run.run s) ((x.run settings').run.run s')

namespace Sees

theorem mono {x : Reading α} (h : x.Sees before after)
    (hafter : ∀ a s s', after a s s' → after' a s s') : x.Sees before after' :=
  ⟨fun hkin hs => (h.run hkin hs).mono fun _ _ hr =>
    ⟨hr.1, fun a ha => hafter a _ _ (hr.2 a ha)⟩⟩

theorem bind {x : Reading β} {f : β → Reading α} {mid : β → State → State → Prop}
    (hx : x.Sees before mid) (hf : ∀ b, (f b).Sees (mid b) after) :
    (x >>= f).Sees before after := by
  refine ⟨fun hkin hs => ?_⟩
  rw [run_bind, run_bind]
  refine (hx.run hkin hs).bind ?_
  rintro ⟨e | b, s₁⟩ ⟨r', s₁'⟩ ⟨hresult, hmid⟩
  · obtain rfl : r' = .error e := hresult
    exact .done ⟨rfl, nofun⟩
  · obtain rfl : r' = .ok b := hresult
    exact (hf b).run hkin (hmid b rfl)

theorem pure {a : α} (h : ∀ s s', before s s' → after a s s') :
    (Pure.pure a : Reading α).Sees before after := by
  refine ⟨fun _ hs => .done ⟨rfl, ?_⟩⟩
  rintro _ ⟨⟩
  exact h _ _ hs

theorem map {x : Reading β} {mid : β → State → State → Prop} (hx : x.Sees before mid) (f : β → α)
    (h : ∀ b s s', mid b s s' → after (f b) s s') : (f <$> x).Sees before after := by
  rw [← bind_pure_comp]
  exact hx.bind fun b => pure (h b)

theorem ask (q : Query) : (Reading.ask q).Sees before fun _ => before := by
  refine ⟨fun _ hs => .ask q fun answer => .done ⟨rfl, ?_⟩⟩
  intro _ _
  exact hs

theorem modify {f : State → State} {after : Unit → State → State → Prop}
    (h : ∀ s s', before s s' → after () (f s) (f s')) :
    (MonadState.modifyGet fun s => ((), f s) : Reading Unit).Sees before after := by
  refine ⟨fun _ hs => .done ⟨rfl, ?_⟩⟩
  intro _ _
  exact h _ _ hs

theorem get_bind {f : State → Reading α} (hf : ∀ s, (f s).Sees before after)
    (h : ∀ s s', before s s' → f s' = f s) : (get >>= f).Sees before after := by
  refine ⟨fun {settings settings' s s'} hkin hs => ?_⟩
  have hleft : ((get >>= f).run settings).run.run s = ((f s').run settings).run.run s := by
    rw [h s s' hs]
    rfl
  rw [hleft]
  exact (hf s').run hkin hs

theorem read_bind {f : Settings → Reading α} (hf : ∀ settings, (f settings).Sees before after)
    (h : ∀ settings settings', settings.Kin settings' → f settings' = f settings) :
    (read >>= f).Sees before after := by
  refine ⟨fun {settings settings' s s'} hkin hs => ?_⟩
  have hleft : ((read >>= f).run settings).run.run s = ((f settings').run settings).run.run s := by
    rw [h settings settings' hkin]
    rfl
  rw [hleft]
  exact (hf settings').run hkin hs

theorem update {f : Settings → State → State} {after : Unit → State → State → Prop}
    (hf : ∀ settings settings', settings.Kin settings' → f settings' = f settings)
    (h : ∀ settings s s', before s s' → after () (f settings s) (f settings s')) :
    (Reading.update f).Sees before after :=
  .read_bind (fun settings => .modify (h settings)) fun settings settings' hkin => by
    rw [hf settings settings' hkin]

/-- An error tells what decides how reading goes on. -/
theorem fail {kind : ErrorKind} (h : ∀ s s', before s s' → s.Alike s') :
    (Reading.fail kind : Reading α).Sees before after := by
  refine ⟨fun {settings settings' s s'} hkin hs => .ask .cursor fun offset => .done ⟨?_, nofun⟩⟩
  obtain ⟨hlines, hphase, hframes⟩ := h _ _ hs
  have hpath : s'.path = s.path := by
    unfold State.path
    rw [hphase, hframes]
  rw [hpath, hlines]

/-- What a turn leaves: states to go on from, or a result. -/
@[reducible] def Turned (before : State → State → Prop) (after : α → State → State → Prop) :
    Turn τ α → State → State → Prop
  | .again _ => before
  | .stop a => after a

theorem repeating {turn : τ → Reading (Turn τ α)} (halike : ∀ s s', before s s' → s.Alike s')
    (h : ∀ x, (turn x).Sees before (Turned before after)) (x : τ) :
    (Reading.repeating turn x).Sees before after := by
  refine (ask .budget).bind fun n => ?_
  refine repeatAtMost_induction (fun _ y => y.Sees before after) (fun _ _ => fail halike) ?_ (n + 1) x
  refine fun x next ih => (h x).bind fun r => ?_
  cases r with
  | again y => exact ih y
  | stop a => exact pure fun _ _ hs => hs

end Sees

/-! ## Readings that look at as little as an error tells -/

/-- A reading that looks at nothing of the state but what decides how reading goes on. -/
abbrev Blind (x : Reading α) : Prop := x.Sees State.Alike fun _ => State.Alike

theorem Blind.bind {x : Reading β} {f : β → Reading α} (hx : x.Blind) (hf : ∀ b, (f b).Blind) :
    (x >>= f).Blind :=
  Sees.bind hx hf

theorem blind_pure (a : α) : (pure a : Reading α).Blind := .pure fun _ _ hs => hs

theorem blind_ask (q : Query) : (ask q).Blind := .ask q

theorem blind_fail (kind : ErrorKind) : (fail kind : Reading α).Blind := .fail fun _ _ hs => hs

theorem blind_modify {f : State → State} (h : ∀ s s', s.Alike s' → (f s).Alike (f s')) :
    (modify f : Reading Unit).Blind :=
  .modify h

theorem blind_update {f : Settings → State → State}
    (hf : ∀ settings settings', settings.Kin settings' → f settings' = f settings)
    (h : ∀ settings s s', s.Alike s' → (f settings s).Alike (f settings s')) : (update f).Blind :=
  .update hf h

theorem blind_get_bind {f : State → Reading α} (hf : ∀ s, (f s).Blind)
    (h : ∀ s s', s.Alike s' → f s' = f s) : (get >>= f).Blind :=
  .get_bind hf h

theorem Blind.repeating {turn : τ → Reading (Turn τ α)} (h : ∀ x, (turn x).Blind) (x : τ) :
    (Reading.repeating turn x).Blind := by
  refine Sees.repeating (fun _ _ hs => hs) (fun y => (h y).mono ?_) x
  rintro (y | a) s s' hs <;> exact hs

end Reading

end JsonPull
