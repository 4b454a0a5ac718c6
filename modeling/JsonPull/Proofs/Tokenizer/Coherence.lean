import JsonPull.Proofs.Tokenizer.Operation
import JsonPull.Proofs.Tokenizer.Run

/-! # Phase and containers agree

The phase tells which container is being read, and so do the open containers. Every change of the
state keeps them together. Only the end of a container that is not the innermost one tears them
apart, because the container is left while the phase stays; they come together again as soon as the
phase changes. -/

namespace JsonPull

namespace Phase

/-- The container that a phase is about is the innermost one. -/
def Agrees (innermost? : Option Container) : Phase → Prop
  | start => innermost? = none
  | property => innermost? = some .object
  | opened c | within c => innermost? = some c
  | postValue | finished | closed => True

instance (innermost? : Option Container) (phase : Phase) : Decidable (phase.Agrees innermost?) := by
  cases phase <;> unfold Agrees <;> infer_instance

/-- In these phases a container may be closed that is not the one that the phase is about. -/
def canStray : Phase → Bool
  | property => true
  | opened c | within c => c != .object
  | start | postValue | finished | closed => false

end Phase

namespace State

variable {settings : Settings} {s s₁ s₂ : State} {e : ReadError}

/-- The phase agrees with the open containers. -/
def Coherent (s : State) : Prop := s.phase.Agrees s.innermost?

instance (s : State) : Decidable s.Coherent :=
  inferInstanceAs (Decidable (s.phase.Agrees s.innermost?))

/-- Equal in the phase and the innermost container. -/
def Stays (s s' : State) : Prop := s'.phase = s.phase ∧ s'.innermost? = s.innermost?

theorem Stays.coherent (h : s.Stays s₁) : s₁.Coherent ↔ s.Coherent := by
  unfold Coherent
  rw [h.1, h.2]

/-- Where the phase cannot stray, it agrees with the open containers. -/
def Bound (s : State) : Prop := s.phase.canStray = false → s.Coherent

theorem Coherent.bound (h : s.Coherent) : s.Bound := fun _ => h

theorem Bound.stays (h : s.Bound) (hs : s.Stays s₁) : s₁.Bound := by
  intro hstray
  rw [hs.1] at hstray
  exact hs.coherent.mpr (h hstray)

theorem canStray_of_inObject (h : s.inObject) : s.phase.canStray = false := by
  rcases h with h | h <;> rw [h] <;> rfl

theorem innermost?_of_inObject (h : s.inObject) (hs : s.Coherent) : s.innermost? = some .object := by
  unfold Coherent at hs
  rcases h with h | h <;> rwa [h] at hs

/-! ## Changes -/

theorem coherent_completeValue (settings : Settings) (s : State) :
    (s.completeValue settings).Coherent := by
  unfold Coherent completeValue
  dsimp only
  split <;> trivial

theorem coherent_countElement : s.countElement.Coherent ↔ s.Coherent := by
  refine Stays.coherent ⟨?_, ?_⟩
  · unfold countElement
    split <;> rfl
  · have hkinds := congrArg List.head? (kinds_countElement s)
    rwa [List.head?_map, List.head?_map] at hkinds

theorem coherent_publishScalar (kind : Scalar) (slot : Slot) (counted : Bool) :
    (s.publishScalar settings kind slot counted).Coherent := by
  have hcomplete := coherent_completeValue settings { s with token := .scalar kind, slot }
  cases counted with
  | false => exact hcomplete
  | true => exact coherent_countElement.mpr hcomplete

theorem coherent_publishOpening (c : Container) (slot : Slot) :
    (s.publishOpening c slot).Coherent :=
  congrArg some (Frame.kind_fresh c)

theorem coherent_resumeContainer (settings : Settings) (s : State) :
    (s.resumeContainer settings).Coherent := by
  unfold Coherent resumeContainer
  dsimp only
  cases h : s.innermost? with
  | some c => exact h
  | none =>
      dsimp only
      split
      · exact h
      · trivial

theorem coherent_publishName (name : String) (h : s.innermost? = some .object) :
    (s.publishName name).Coherent := by
  unfold innermost? at h
  change innermost? _ = some .object
  unfold innermost? publishName
  dsimp only
  split
  · rename_i hframes
    rw [hframes] at h
    cases h
  · rename_i f rest hframes
    rw [hframes] at h
    rw [List.head?_cons, Option.map_some, Frame.kind_rename]
    exact h

/-- A change leads to a state that is coherent, unless it touches neither the phase nor the
containers. -/
theorem Change.coherent_or_stays (h : Change settings s s₁) (hs : s.Bound) :
    s₁.Coherent ∨ s.Stays s₁ := by
  cases h with
  | lines => exact .inr ⟨rfl, rfl⟩
  | quote => exact .inr ⟨rfl, rfl⟩
  | cleared => exact .inr ⟨rfl, rfl⟩
  | comment => exact .inr ⟨rfl, rfl⟩
  | nothing => exact .inr ⟨rfl, rfl⟩
  | scalar kind slot counted => exact .inl (coherent_publishScalar kind slot counted)
  | counted => exact .inl (coherent_countElement.mpr (coherent_completeValue settings s))
  | opening c slot => exact .inl (coherent_publishOpening c slot)
  | closing c hinner => exact .inl (coherent_completeValue settings _)
  | name name hphase =>
      have hinner := innermost?_of_inObject hphase (hs (canStray_of_inObject hphase))
      exact .inl (coherent_publishName name hinner)
  | resumed => exact .inl (coherent_resumeContainer settings s)
  | ended => exact .inl trivial

theorem Changes.coherent_or_stays (h : Changes settings s s₁) (hs : s.Bound) :
    s₁.Bound ∧ (s₁.Coherent ∨ s.Stays s₁) := by
  induction h with
  | refl => exact ⟨hs, .inr ⟨rfl, rfl⟩⟩
  | tail _ hchange ih =>
      obtain ⟨hbound, hstays⟩ := ih
      rcases hchange.coherent_or_stays hbound with hcoherent | hlast
      · exact ⟨hcoherent.bound, .inl hcoherent⟩
      · refine ⟨hbound.stays hlast, hstays.imp hlast.coherent.mpr fun hfirst => ?_⟩
        exact ⟨hlast.1.trans hfirst.1, hlast.2.trans hfirst.2⟩

/-- What a failure leaves is coherent or stays as it was, unless a container was closed that is not
the innermost one. -/
theorem Broken.coherent_or_stays (h : Broken settings s e s₁) (hs : s.Bound) :
    s₁.Bound ∧ (e.kind.isMismatch = true ∨ s₁.Coherent ∨ s.Stays s₁) := by
  cases h with
  | kept h hkind hpath => exact (h.coherent_or_stays hs).imp_right .inr
  | @mismatched s' c h hphase hinner hkind hpath =>
      have hbound := (h.coherent_or_stays hs).1
      refine ⟨fun hstray => ?_, .inl (by rw [hkind]; rfl)⟩
      have hcoherent : s'.Coherent := hbound hstray
      change s'.phase.canStray = false at hstray
      unfold Coherent at hcoherent ⊢
      change s'.phase.Agrees (s'.publishClosing c).innermost?
      cases hp : s'.phase with
      | start =>
          rw [hp] at hcoherent
          have hnil : s'.frames = [] := List.head?_eq_none_iff.mp (Option.map_eq_none_iff.mp hcoherent)
          change Option.map _ s'.frames.tail.head? = none
          rw [hnil]
          rfl
      | property =>
          rw [hp] at hstray
          cases hstray
      | opened k =>
          rw [hp] at hstray hcoherent
          obtain rfl : k = .object := by simpa [Phase.canStray] using hstray
          exact absurd (hphase (.inl hp) ▸ hcoherent) hinner
      | within k =>
          rw [hp] at hstray hcoherent
          obtain rfl : k = .object := by simpa [Phase.canStray] using hstray
          exact absurd (hphase (.inr hp) ▸ hcoherent) hinner
      | postValue => trivial
      | finished => trivial
      | closed => trivial

end State

/-! ## Operations -/

namespace Tokenizer

open State

variable {t : Tokenizer}

/-- What a program leaves of the state. -/
theorem run_evolves {α : Type} {x : Reading α} (hx : x.Evolves) (t : Tokenizer) :
    match (t.run x).1 with
    | .ok _ => Changes t.options.settings t.state (t.run x).2.state
    | .error e => Broken t.options.settings t.state e (t.run x).2.state :=
  run_leaves (hx.leaves t.options.settings t.state)

/-- What a call leaves of the state. -/
theorem call_evolves (c : Call) (t : Tokenizer) :
    match (t.call c).1 with
    | .ok _ => Changes t.options.settings t.state (t.call c).2.state
    | .error e => Broken t.options.settings t.state e (t.call c).2.state := by
  have hrun := run_evolves (straight_program c).evolves t
  rw [call_eq]
  cases hr : (t.run c.program).1 <;> rw [hr] at hrun <;> exact hrun

/-- A call failed because the innermost container is not the one that ended. -/
def Mismatches (t : Tokenizer) (c : Call) : Prop :=
  ∃ e, (t.call c).1 = .error e ∧ e.kind.isMismatch = true

theorem after_coherent_or_stays (ht : t.state.Bound) (op : Operation) :
    (t.after op).state.Bound ∧ ((∃ c, op = .call c ∧ t.Mismatches c) ∨
      (t.after op).state.Coherent ∨ t.state.Stays (t.after op).state) := by
  cases op with
  | call c =>
      have hcall := call_evolves c t
      change (t.call c).2.state.Bound ∧ (_ ∨ (t.call c).2.state.Coherent ∨ _)
      cases hr : (t.call c).1 with
      | ok a =>
          rw [hr] at hcall
          exact (hcall.coherent_or_stays ht).imp_right .inr
      | error e =>
          rw [hr] at hcall
          refine (hcall.coherent_or_stays ht).imp_right fun h => h.imp_left fun hkind => ?_
          exact ⟨c, rfl, e, hr, hkind⟩
  | heed b => exact ⟨ht, .inr (.inr ⟨rfl, rfl⟩)⟩
  | cancel => exact ⟨ht, .inr (.inr ⟨rfl, rfl⟩)⟩
  | uncancel => exact ⟨ht, .inr (.inr ⟨rfl, rfl⟩)⟩
  | close =>
      have hphase : (t.after .close).state.phase = .closed := t.phase_close
      have hcoherent : (t.after .close).state.Coherent := by
        unfold Coherent
        rw [hphase]
        trivial
      exact ⟨hcoherent.bound, .inr (.inl hcoherent)⟩

theorem afterAll_append (ops ops' : List Operation) (t : Tokenizer) :
    t.afterAll (ops ++ ops') = (t.afterAll ops).afterAll ops' := by
  induction ops generalizing t with
  | nil => rfl
  | cons op ops ih => exact ih (t.after op)

theorem afterAll_coherent_or (ht : t.state.Coherent) (ops : List Operation) :
    (t.afterAll ops).state.Bound ∧ ((t.afterAll ops).state.Coherent ∨
      ∃ before c after, ops = before ++ .call c :: after ∧ (t.afterAll before).Mismatches c ∧
        (t.afterAll (before ++ [.call c])).state.Stays (t.afterAll ops).state) := by
  induction ops using List.reverseRecOn with
  | nil => exact ⟨ht.bound, .inl ht⟩
  | append_singleton ops op ih =>
      obtain ⟨hbound, hrest⟩ := ih
      have hlast : t.afterAll (ops ++ [op]) = (t.afterAll ops).after op := afterAll_append ops [op] t
      obtain ⟨hbound', h⟩ := after_coherent_or_stays hbound op
      rw [← hlast] at hbound' h
      refine ⟨hbound', ?_⟩
      rcases h with ⟨c, rfl, hmismatch⟩ | hcoherent | hstays
      · exact .inr ⟨ops, c, [], rfl, hmismatch, rfl, rfl⟩
      · exact .inl hcoherent
      · rcases hrest with hcoherent | ⟨before, c, after, rfl, hmismatch, hbefore⟩
        · exact .inl (hstays.coherent.mpr hcoherent)
        · refine .inr ⟨before, c, after ++ [op], by simp, hmismatch, ?_⟩
          exact ⟨hstays.1.trans hbefore.1, hstays.2.trans hbefore.2⟩

theorem coherent_ofSource (options : Options) (source : Source) (pool : Pool) (heeds : Bool) :
    (ofSource options source pool heeds).state.Coherent :=
  (rfl : ({} : State).innermost? = none)

/-- However a tokenizer is used, its phase agrees with its open containers, unless a call failed at
the end of a container that was not the innermost one and neither the phase nor the innermost
container changed since. Even then they agree at top level and where a property is due. -/
theorem incoherent_since_mismatch (options : Options) (source : Source) (pool : Pool) (heeds : Bool)
    (ops : List Operation) :
    let start := ofSource options source pool heeds
    ((start.afterAll ops).phase.canStray = false → (start.afterAll ops).state.Coherent) ∧
    ((start.afterAll ops).state.Coherent ∨
      ∃ before c after, ops = before ++ .call c :: after ∧ (start.afterAll before).Mismatches c ∧
        (start.afterAll (before ++ [.call c])).state.Stays (start.afterAll ops).state) := by
  intro start
  exact afterAll_coherent_or (coherent_ofSource options source pool heeds) ops

/-- The text `{"a":[)`. The parenthesis is refused, but the array is left all the same: its start is
still being read, and the innermost container is the object. The failure shows the path of the
object and not that of the array. -/
theorem mismatch_leaves_container :
    let source : Source :=
      { script := [.bytes ⟨#[0x7B, 0x22, 0x61, 0x22, 0x3A, 0x5B, 0x29]⟩ 0] }
    let start := ofSource { initialCapacity := 8 } source {} false
    let opened := start.afterAll [.call .read, .call .read, .call .read]
    opened.state.Coherent ∧ opened.state.innermost? = some .array ∧ opened.path = "a" ∧
      opened.read.1 = .error ⟨.mismatchedClose (.closing .constructor) (some .array), "", 1, 7⟩ ∧
      opened.read.2.phase = .opened .array ∧ opened.read.2.state.innermost? = some .object ∧
      ¬opened.read.2.state.Coherent := by
  decide +kernel

end Tokenizer

end JsonPull
