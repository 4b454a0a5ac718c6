import JsonPull.Proofs.Reading.Outcome
import JsonPull.Proofs.Reading.Sight

/-! # Two readings side by side

Two readings of one stream begin at the same place, in states that need not be equal. What is said
of them holds if both succeed, and then they also end at the same place. -/

namespace JsonPull

namespace State

namespace Alike

variable {settings : Settings} {s s₁ s₂ : State}

theorem refl (s : State) : Alike s s := ⟨rfl, rfl, rfl⟩

theorem symm (h : Alike s s₁) : Alike s₁ s :=
  ⟨h.lines_eq.symm, h.phase_eq.symm, h.frames_eq.symm⟩

theorem trans (h : Alike s s₁) (h' : Alike s₁ s₂) : Alike s s₂ :=
  ⟨h'.lines_eq.trans h.lines_eq, h'.phase_eq.trans h.phase_eq, h'.frames_eq.trans h.frames_eq⟩

theorem countElement (h : Alike s s₁) : Alike s.countElement s₁.countElement := by
  unfold State.countElement
  rw [h.frames_eq]
  split
  · exact h
  · exact ⟨h.lines_eq, h.phase_eq, rfl⟩

theorem completeValue (h : Alike s s₁) :
    Alike (s.completeValue settings) (s₁.completeValue settings) := by
  refine ⟨h.lines_eq, ?_, h.frames_eq⟩
  unfold State.completeValue
  rw [h.frames_eq]

theorem publishScalar (h : Alike s s₁) (kind kind' : Scalar) (slot slot' : Slot) (counted : Bool) :
    Alike (s.publishScalar settings kind slot counted)
      (s₁.publishScalar settings kind' slot' counted) := by
  have hcomplete : Alike ({ s with token := .scalar kind, slot }.completeValue settings)
      ({ s₁ with token := .scalar kind', slot := slot' }.completeValue settings) :=
    completeValue ⟨h.lines_eq, h.phase_eq, h.frames_eq⟩
  cases counted with
  | false => exact hcomplete
  | true => exact hcomplete.countElement

theorem publishClosing (h : Alike s s₁) (c : Container) :
    Alike (s.publishClosing c) (s₁.publishClosing c) :=
  ⟨h.lines_eq, h.phase_eq, congrArg List.tail h.frames_eq⟩

theorem resumeContainer (h : Alike s s₁) :
    Alike (s.resumeContainer settings) (s₁.resumeContainer settings) := by
  refine ⟨h.lines_eq, ?_, h.frames_eq⟩
  unfold State.resumeContainer innermost?
  rw [h.frames_eq]

theorem innermost?_eq (h : Alike s s₁) : s₁.innermost? = s.innermost? := by
  unfold innermost?
  rw [h.frames_eq]

end Alike

end State

namespace Reading

variable {α β γ δ τ : Type} {settings : Settings} {stream : List UInt8} {s s' : State} {pos : Nat}

/-- A reading succeeds on a tape, and this is what it ends with. -/
def Ends (x : Reading α) (settings : Settings) (stream : List UInt8) (s : State) (pos : Nat) (a : α)
    (s₁ : State) (pos₁ : Nat) : Prop :=
  ((x.run settings).run.run s).runWith (tape stream) pos = ((.ok a, s₁), pos₁)

theorem Gives.ends {x : Reading α} {post : α → State → Nat → Prop}
    (h : x.Gives settings stream s pos post) {a : α} {s₁ : State} {pos₁ : Nat}
    (hx : x.Ends settings stream s pos a s₁ pos₁) : post a s₁ pos₁ :=
  h.run a s₁ pos₁ hx

theorem ends_bind {x : Reading α} {f : α → Reading β} {b : β} {s₂ : State} {pos₂ : Nat} :
    (x >>= f).Ends settings stream s pos b s₂ pos₂ ↔
      ∃ a s₁ pos₁, x.Ends settings stream s pos a s₁ pos₁ ∧
        (f a).Ends settings stream s₁ pos₁ b s₂ pos₂ := by
  unfold Ends
  rw [run_bind, Scan.runWith_bind]
  constructor
  · intro h
    generalize hx : ((x.run settings).run.run s).runWith (tape stream) pos = outcome at h
    obtain ⟨⟨e | a, s₁⟩, pos₁⟩ := outcome
    · cases h
    · exact ⟨a, s₁, pos₁, rfl, h⟩
  · rintro ⟨a, s₁, pos₁, hx, hf⟩
    rw [hx]
    exact hf

theorem ends_get_bind {f : State → Reading α} {a : α} {s₁ : State} {pos₁ : Nat} :
    (get >>= f).Ends settings stream s pos a s₁ pos₁ ↔
      (f s).Ends settings stream s pos a s₁ pos₁ :=
  Iff.rfl

theorem ends_read_bind {f : Settings → Reading α} {a : α} {s₁ : State} {pos₁ : Nat} :
    (read >>= f).Ends settings stream s pos a s₁ pos₁ ↔
      (f settings).Ends settings stream s pos a s₁ pos₁ :=
  Iff.rfl

theorem not_ends_fail {kind : ErrorKind} {a : α} {s₁ : State} {pos₁ : Nat} :
    ¬ (fail kind : Reading α).Ends settings stream s pos a s₁ pos₁ := by
  have hgives : (fail kind : Reading α).Gives settings stream s pos fun _ _ _ => False :=
    gives_fail kind
  exact hgives.ends

theorem not_ends_unexpected {site : CharSite} {a : α} {s₁ : State} {pos₁ : Nat} :
    ¬ (unexpected site : Reading α).Ends settings stream s pos a s₁ pos₁ := by
  have hgives : (unexpected site : Reading α).Gives settings stream s pos fun _ _ _ => False :=
    gives_unexpected site
  exact hgives.ends

/-- Where both readings succeed, they end at the same place, and as `post` says. -/
structure Twin (x : Reading α) (y : Reading β) (settings : Settings) (stream : List UInt8)
    (s s' : State) (pos : Nat) (post : α → State → β → State → Nat → Prop) : Prop where
  run : ∀ a s₁ pos₁ b s₁' pos₁', x.Ends settings stream s pos a s₁ pos₁ →
    y.Ends settings stream s' pos b s₁' pos₁' → pos₁' = pos₁ ∧ post a s₁ b s₁' pos₁

namespace Twin

variable {x : Reading α} {y : Reading β} {post post' : α → State → β → State → Nat → Prop}

theorem bind {f : α → Reading γ} {g : β → Reading δ}
    {last : γ → State → δ → State → Nat → Prop} (h : x.Twin y settings stream s s' pos post)
    (hnext : ∀ a s₁ b s₁' pos₁, post a s₁ b s₁' pos₁ →
      (f a).Twin (g b) settings stream s₁ s₁' pos₁ last) :
    (x >>= f).Twin (y >>= g) settings stream s s' pos last := by
  refine ⟨fun c s₂ pos₂ d s₂' pos₂' hx hy => ?_⟩
  obtain ⟨a, s₁, pos₁, hx₁, hx₂⟩ := ends_bind.mp hx
  obtain ⟨b, s₁', pos₁', hy₁, hy₂⟩ := ends_bind.mp hy
  obtain ⟨rfl, hpost⟩ := h.run _ _ _ _ _ _ hx₁ hy₁
  exact (hnext a s₁ b s₁' pos₁' hpost).run _ _ _ _ _ _ hx₂ hy₂

theorem pure {a : α} {b : β} (h : post a s b s' pos) :
    (Pure.pure a : Reading α).Twin (Pure.pure b) settings stream s s' pos post := by
  refine ⟨fun a s₁ pos₁ b s₁' pos₁' hx hy => ?_⟩
  cases hx
  cases hy
  exact ⟨rfl, h⟩

/-- Readings that consume nothing more are compared by what each of them gives. -/
theorem of_gives {left : α → State → Prop} {right : β → State → Prop}
    (hx : x.Gives settings stream s pos fun a s₁ pos₁ => pos₁ = pos ∧ left a s₁)
    (hy : y.Gives settings stream s' pos fun b s₁ pos₁ => pos₁ = pos ∧ right b s₁)
    (h : ∀ a s₁ b s₁', left a s₁ → right b s₁' → post a s₁ b s₁' pos) :
    x.Twin y settings stream s s' pos post := by
  refine ⟨fun a s₁ pos₁ b s₁' pos₁' hxe hye => ?_⟩
  obtain ⟨rfl, hleft⟩ := hx.ends hxe
  obtain ⟨rfl, hright⟩ := hy.ends hye
  exact ⟨rfl, h a s₁ b s₁' hleft hright⟩

theorem of_left (hx : x.Gives settings stream s pos fun _ _ _ => False) :
    x.Twin y settings stream s s' pos post :=
  ⟨fun _ _ _ _ _ _ hxe _ => (hx.ends hxe).elim⟩

theorem of_right (hy : y.Gives settings stream s' pos fun _ _ _ => False) :
    x.Twin y settings stream s s' pos post :=
  ⟨fun _ _ _ _ _ _ _ hye => (hy.ends hye).elim⟩

end Twin

/-! ## Readings that do not look -/

/-- A reading that does not look at the rest of the state ends alike. -/
theorem Blind.twin {x : Reading α} (hx : x.Blind) (hs : State.Alike s s') :
    x.Twin x settings stream s s' pos fun a s₁ b s₁' _ => b = a ∧ s₁.Alike s₁' := by
  refine ⟨fun a s₁ pos₁ b s₁' pos₁' hxe hye => ?_⟩
  obtain ⟨⟨hresult, hafter⟩, hpos⟩ := (hx.run (.refl settings) hs).runWith (tape stream) pos
  rw [hxe] at hresult hafter hpos
  rw [hye] at hresult hafter hpos
  cases hresult
  exact ⟨hpos, rfl, hafter a rfl⟩

/-- Readings that begin with the same blind one are compared behind it. -/
theorem Blind.next {x : Reading α} {f : α → Reading γ} {g : α → Reading δ}
    {post : γ → State → δ → State → Nat → Prop} (hx : x.Blind) (hs : s.Alike s')
    (h : ∀ a s₁ s₁' pos₁, s₁.Alike s₁' → (f a).Twin (g a) settings stream s₁ s₁' pos₁ post) :
    (x >>= f).Twin (x >>= g) settings stream s s' pos post := by
  refine (hx.twin hs).bind ?_
  rintro _ s₁ a s₁' pos₁ ⟨rfl, hs₁⟩
  exact h a s₁ s₁' pos₁ hs₁

theorem twin_modify_bind {g : State → State} {f : Unit → Reading α} {f' : Unit → Reading β}
    {post : α → State → β → State → Nat → Prop}
    (h : (f ()).Twin (f' ()) settings stream (g s) (g s') pos post) :
    (modify g >>= f).Twin (modify g >>= f') settings stream s s' pos post :=
  ⟨h.run⟩

theorem twin_update {f g : Settings → State → State} {post : Unit → State → Unit → State → Nat → Prop}
    (h : post () (f settings s) () (g settings s') pos) :
    (update f).Twin (update g) settings stream s s' pos post := by
  refine ⟨fun a s₁ pos₁ b s₁' pos₁' hx hy => ?_⟩
  cases hx
  cases hy
  exact ⟨rfl, h⟩

theorem twin_read_bind {f : Settings → Reading α} {g : Settings → Reading β}
    {post : α → State → β → State → Nat → Prop}
    (h : (f settings).Twin (g settings) settings stream s s' pos post) :
    (read >>= f).Twin (read >>= g) settings stream s s' pos post :=
  ⟨h.run⟩

theorem twin_get_bind {f : State → Reading α} {g : State → Reading β}
    {post : α → State → β → State → Nat → Prop}
    (h : (f s).Twin (g s') settings stream s s' pos post) :
    (get >>= f).Twin (get >>= g) settings stream s s' pos post :=
  ⟨h.run⟩

theorem twin_get_left {f : State → Reading α} {y : Reading β}
    {post : α → State → β → State → Nat → Prop}
    (h : (f s).Twin y settings stream s s' pos post) :
    (get >>= f).Twin y settings stream s s' pos post :=
  ⟨h.run⟩

/-! ## Repetitions -/

/-- Turns that lead from an intermediate result to the last result. -/
inductive Turns (turn : τ → Reading (Turn τ α)) (settings : Settings) (stream : List UInt8) :
    τ → State → Nat → α → State → Nat → Prop where
  | stop {x : τ} {s s₁ : State} {pos pos₁ : Nat} {a : α}
      (h : (turn x).Ends settings stream s pos (.stop a) s₁ pos₁) :
      Turns turn settings stream x s pos a s₁ pos₁
  | again {x y : τ} {s s₁ s₂ : State} {pos pos₁ pos₂ : Nat} {a : α}
      (h : (turn x).Ends settings stream s pos (.again y) s₁ pos₁)
      (hrest : Turns turn settings stream y s₁ pos₁ a s₂ pos₂) :
      Turns turn settings stream x s pos a s₂ pos₂

theorem Ends.turns {turn : τ → Reading (Turn τ α)} {x : τ} {a : α} {s₁ : State} {pos₁ : Nat}
    (h : (repeating turn x).Ends settings stream s pos a s₁ pos₁) :
    Turns turn settings stream x s pos a s₁ pos₁ := by
  obtain ⟨n, _, _, hbudget, hloop⟩ := ends_bind.mp h
  cases hbudget
  clear h
  generalize stream.length - pos + 1 = n at hloop
  induction n generalizing x s pos with
  | zero => cases hloop
  | succ n ih =>
      obtain ⟨r, s', pos', hturn, hrest⟩ := ends_bind.mp hloop
      cases r with
      | again y => exact .again hturn (ih hrest)
      | stop b =>
          cases hrest
          exact .stop hturn

end Reading

end JsonPull
