import JsonPull.Proofs.Reading.Success

/-! # Readings at shifted places

Two streams go on alike behind fronts of their own. Of a place a reading learns nothing but its offset,
and that it only hands back: to refer to a part of the stream, and to count the columns of a line. So
where two streams go on alike, two readings end alike, but for the columns of errors. -/

namespace JsonPull

/-- Two streams that go on alike behind fronts of their own, and how many lines there are in front. -/
structure Fork where
  front : List UInt8
  front' : List UInt8
  rest : List UInt8
  lines : Nat
  lines' : Nat
  empty_iff : front = [] ↔ front' = []

namespace Fork

variable {f : Fork} {pos pos' first first' last last' : Nat}

/-- The first stream. -/
def stream (f : Fork) : List UInt8 := f.front ++ f.rest

/-- The second stream. -/
def stream' (f : Fork) : List UInt8 := f.front' ++ f.rest

/-! ## Places -/

/-- Offsets of one place in the common rest. -/
def At (f : Fork) (pos pos' : Nat) : Prop :=
  ∃ n, pos = f.front.length + n ∧ pos' = f.front'.length + n

/-- Offsets of one place, which may also lie somewhat before the rest. -/
def Near (f : Fork) (pos pos' : Nat) : Prop :=
  pos + f.front'.length = pos' + f.front.length

theorem At.near (h : f.At pos pos') : f.Near pos pos' := by
  obtain ⟨n, rfl, rfl⟩ := h
  unfold Near
  omega

theorem At.add (h : f.At pos pos') (count : Nat) : f.At (pos + count) (pos' + count) := by
  obtain ⟨n, rfl, rfl⟩ := h
  exact ⟨n + count, Nat.add_assoc .., Nat.add_assoc ..⟩

/-- The byte before a place in the rest lies in both streams, or the rest is all there is of them. -/
theorem At.sub_one (h : f.At pos pos') : f.Near (pos - 1) (pos' - 1) := by
  have hempty : f.front.length = 0 ↔ f.front'.length = 0 := by
    rw [List.length_eq_zero_iff, List.length_eq_zero_iff, f.empty_iff]
  obtain ⟨n, rfl, rfl⟩ := h
  unfold Near
  omega

theorem At.getElem? (h : f.At pos pos') : f.stream'[pos']? = f.stream[pos]? := by
  obtain ⟨n, rfl, rfl⟩ := h
  rw [stream, stream', List.getElem?_append_right (Nat.le_add_right _ _),
    List.getElem?_append_right (Nat.le_add_right _ _), Nat.add_sub_cancel_left,
    Nat.add_sub_cancel_left]

theorem At.left (h : f.At pos pos') : f.stream'.length - pos' = f.stream.length - pos := by
  obtain ⟨n, rfl, rfl⟩ := h
  simp only [stream, stream', List.length_append]
  omega

theorem At.slice (h : f.At first first') (hlast : f.Near last last') :
    (f.stream'.drop first').take (last' - first') = (f.stream.drop first).take (last - first) := by
  unfold Near at hlast
  obtain ⟨n, rfl, rfl⟩ := h
  have hdrop : f.stream'.drop (f.front'.length + n) = f.stream.drop (f.front.length + n) := by
    simp only [stream, stream', ← List.drop_drop, List.drop_left]
  rw [hdrop]
  congr 1
  omega

/-- Parts of the streams that are equal. -/
structure Spans (f : Fork) (span span' : Span) : Prop where
  first : f.At span.first span'.first
  last : f.Near span.last span'.last

/-! ## States -/

/-- Slots of equal values. -/
inductive Slots (f : Fork) : Slot → Slot → Prop where
  | empty : Slots f .empty .empty
  | held {span span' : Span} (h : f.Spans span span') : Slots f (.held span) (.held span')
  | owned (value : Value) : Slots f (.owned value) (.owned value)

theorem Slots.value?_eq {slot slot' : Slot} (h : f.Slots slot slot') :
    slot'.value? f.stream' = slot.value? f.stream := by
  cases h with
  | empty | owned => rfl
  | held h => rw [Slot.value?, Slot.value?, h.first.slice h.last]

/-- States that differ in offsets, in the count of lines before the rest, and in the quote. -/
structure States (f : Fork) (s s' : State) : Prop where
  phase_eq : s'.phase = s.phase
  token_eq : s'.token = s.token
  frames_eq : s'.frames = s.frames
  slots : f.Slots s.slot s'.slot
  lines_eq : s.lines.line + f.lines' = s'.lines.line + f.lines

/-- Failures that differ in the column, and in the count of lines before the rest. -/
structure Errors (f : Fork) (e e' : ReadError) : Prop where
  kind_eq : e'.kind = e.kind
  path_eq : e'.path = e.path
  line_eq : e.line + f.lines' = e'.line + f.lines

/-- Both succeed with related results, or both fail alike. -/
inductive Outcome {α β : Type} (f : Fork) (related : α → β → Prop) :
    Except ReadError α → Except ReadError β → Prop where
  | ok {a : α} {b : β} (h : related a b) : Outcome f related (.ok a) (.ok b)
  | error {e e' : ReadError} (h : f.Errors e e') : Outcome f related (.error e) (.error e')

theorem Outcome.map {α β γ δ : Type} {related : α → β → Prop} {related' : γ → δ → Prop} {g : α → γ}
    {g' : β → δ} {r : Except ReadError α} {r' : Except ReadError β} (h : f.Outcome related r r')
    (hg : ∀ a b, related a b → related' (g a) (g' b)) : f.Outcome related' (r.map g) (r'.map g') := by
  cases h with
  | ok h => exact .ok (hg _ _ h)
  | error h => exact .error h

theorem Outcome.mono {α β : Type} {related related' : α → β → Prop} {r : Except ReadError α}
    {r' : Except ReadError β} (h : f.Outcome related r r') (hrelated : ∀ a b, related a b → related' a b) :
    f.Outcome related' r r' := by
  cases h with
  | ok h => exact .ok (hrelated _ _ h)
  | error h => exact .error h

namespace States

variable {s s' : State} {settings : Settings} {slot slot' : Slot}

theorem path_eq (h : f.States s s') : s'.path = s.path := by
  unfold State.path
  rw [h.phase_eq, h.frames_eq]

theorem innermost?_eq (h : f.States s s') : s'.innermost? = s.innermost? := by
  unfold State.innermost?
  rw [h.frames_eq]

theorem countElement (h : f.States s s') : f.States s.countElement s'.countElement := by
  unfold State.countElement
  rw [h.frames_eq]
  split
  · exact h
  · exact { h with frames_eq := rfl }

theorem completeValue (h : f.States s s') :
    f.States (s.completeValue settings) (s'.completeValue settings) := by
  refine { h with phase_eq := ?_ }
  unfold State.completeValue
  rw [h.frames_eq]

theorem publish (h : f.States s s') (token : Token) (hslot : f.Slots slot slot') :
    f.States { s with token, slot } { s' with token, slot := slot' } :=
  { h with token_eq := rfl, slots := hslot }

theorem publishScalar (h : f.States s s') (kind : Scalar) (hslot : f.Slots slot slot')
    (counted : Bool) : f.States (s.publishScalar settings kind slot counted)
      (s'.publishScalar settings kind slot' counted) := by
  have hcomplete : f.States ({ s with token := .scalar kind, slot }.completeValue settings)
      ({ s' with token := .scalar kind, slot := slot' }.completeValue settings) :=
    (h.publish _ hslot).completeValue
  cases counted with
  | false => exact hcomplete
  | true => exact hcomplete.countElement

theorem publishName (h : f.States s s') (name : String) (quote quote' : Option UInt8) :
    f.States { s.publishName name with quote } { s'.publishName name with quote := quote' } := by
  refine ⟨rfl, rfl, ?_, .owned _, h.lines_eq⟩
  simp only [State.publishName, h.frames_eq]

theorem publishOpening (h : f.States s s') (c : Container) (hslot : f.Slots slot slot') :
    f.States (s.publishOpening c slot) (s'.publishOpening c slot') :=
  ⟨rfl, rfl, congrArg (_ :: ·) h.countElement.frames_eq, hslot, h.lines_eq⟩

theorem publishClosing (h : f.States s s') (c : Container) :
    f.States (s.publishClosing c) (s'.publishClosing c) :=
  ⟨h.phase_eq, rfl, congrArg List.tail h.frames_eq, .empty, h.lines_eq⟩

theorem resumeContainer (h : f.States s s') :
    f.States (s.resumeContainer settings) (s'.resumeContainer settings) := by
  refine { h with phase_eq := ?_ }
  unfold State.resumeContainer
  rw [h.innermost?_eq]

theorem clearSlot (h : f.States s s') : f.States s.clearSlot s'.clearSlot :=
  { h with slots := .empty }

end States

end Fork

namespace Reading

variable {α β γ δ τ τ' : Type} {f : Fork} {settings : Settings} {related : α → β → Prop}

/-- From states that differ in nothing but places, at one place of the rest, two readings end alike and
at one place. -/
structure Parallel (x : Reading α) (y : Reading β) (f : Fork) (settings : Settings)
    (related : α → β → Prop) : Prop where
  run : ∀ {s s' : State} {pos pos' : Nat}, f.States s s' → f.At pos pos' →
    let r := ((x.run settings).run.run s).runWith (tape f.stream) pos
    let r' := ((y.run settings).run.run s').runWith (tape f.stream') pos'
    f.Outcome related r.1.1 r'.1.1 ∧ f.States r.1.2 r'.1.2 ∧ f.At r.2 r'.2

/-- A reading whose result does not depend on its place. -/
abbrev Movable (x : Reading α) (f : Fork) (settings : Settings) : Prop :=
  x.Parallel x f settings Eq

namespace Parallel

theorem mono {x : Reading α} {y : Reading β} {related' : α → β → Prop}
    (h : x.Parallel y f settings related) (hrelated : ∀ a b, related a b → related' a b) :
    x.Parallel y f settings related' :=
  ⟨fun hs hpos => ⟨(h.run hs hpos).1.mono hrelated, (h.run hs hpos).2⟩⟩

theorem pure {a : α} {b : β} (h : related a b) :
    (Pure.pure a : Reading α).Parallel (Pure.pure b) f settings related :=
  ⟨fun hs hpos => ⟨.ok h, hs, hpos⟩⟩

theorem bind {x : Reading γ} {y : Reading δ} {g : γ → Reading α} {g' : δ → Reading β}
    {mid : γ → δ → Prop} (hx : x.Parallel y f settings mid)
    (hg : ∀ a b, mid a b → (g a).Parallel (g' b) f settings related) :
    (x >>= g).Parallel (y >>= g') f settings related := by
  refine ⟨fun {s s' pos pos'} hs hpos => ?_⟩
  obtain ⟨houtcome, hs₁, hpos₁⟩ := hx.run hs hpos
  dsimp only
  rw [run_bind, run_bind, Scan.runWith_bind, Scan.runWith_bind]
  generalize ((x.run settings).run.run s).runWith (tape f.stream) pos = r at houtcome hs₁ hpos₁ ⊢
  generalize ((y.run settings).run.run s').runWith (tape f.stream') pos' = r'
    at houtcome hs₁ hpos₁ ⊢
  obtain ⟨⟨r, s₁⟩, pos₁⟩ := r
  obtain ⟨⟨r', s₁'⟩, pos₁'⟩ := r'
  dsimp only at houtcome hs₁ hpos₁
  cases houtcome with
  | ok h => exact (hg _ _ h).run hs₁ hpos₁
  | error h => exact ⟨.error h, hs₁, hpos₁⟩

/-- Behind a result that does not depend on the place. -/
theorem next {x : Reading γ} {g : γ → Reading α} {g' : γ → Reading β} (hx : x.Movable f settings)
    (hg : ∀ a, (g a).Parallel (g' a) f settings related) :
    (x >>= g).Parallel (x >>= g') f settings related := by
  refine hx.bind ?_
  rintro a _ rfl
  exact hg a

theorem map {x y : Reading γ} (hx : x.Parallel y f settings Eq) (g : γ → δ) :
    (g <$> x).Parallel (g <$> y) f settings Eq := by
  rw [← bind_pure_comp, ← bind_pure_comp]
  refine hx.bind ?_
  rintro a _ rfl
  exact pure rfl

theorem ask {q q' : Query} {answers : q.Answer → q'.Answer → Prop}
    (h : ∀ pos pos', f.At pos pos' → answers (tape f.stream q pos).1 (tape f.stream' q' pos').1 ∧
      f.At (tape f.stream q pos).2 (tape f.stream' q' pos').2) :
    (Reading.ask q).Parallel (Reading.ask q') f settings answers :=
  ⟨fun {_ _ pos pos'} hs hpos => ⟨.ok (h pos pos' hpos).1, hs, (h pos pos' hpos).2⟩⟩

theorem modify {g g' : State → State} (h : ∀ s s', f.States s s' → f.States (g s) (g' s')) :
    (MonadState.modifyGet fun s => ((), g s) : Reading Unit).Parallel
      (MonadState.modifyGet fun s => ((), g' s)) f settings Eq :=
  ⟨fun hs hpos => ⟨.ok rfl, h _ _ hs, hpos⟩⟩

theorem update {g g' : Settings → State → State}
    (h : ∀ settings s s', f.States s s' → f.States (g settings s) (g' settings s')) :
    (Reading.update g).Parallel (Reading.update g') f settings Eq :=
  ⟨fun hs hpos => ⟨.ok rfl, h settings _ _ hs, hpos⟩⟩

theorem get_bind {g : State → Reading α} {g' : State → Reading β}
    (h : ∀ s s', f.States s s' → (g s).Parallel (g' s') f settings related) :
    (get >>= g).Parallel (get >>= g') f settings related :=
  ⟨fun {s s' _ _} hs hpos => (h s s' hs).run hs hpos⟩

theorem read_bind {g : Settings → Reading α} {g' : Settings → Reading β}
    (h : (g settings).Parallel (g' settings) f settings related) :
    (read >>= g).Parallel (read >>= g') f settings related :=
  ⟨fun hs hpos => h.run hs hpos⟩

theorem throw {e e' : ReadError} (h : f.Errors e e') :
    (MonadExcept.throw e : Reading α).Parallel (MonadExcept.throw e' : Reading β) f settings related :=
  ⟨fun hs hpos => ⟨.error h, hs, hpos⟩⟩

theorem fail (kind : ErrorKind) :
    (Reading.fail kind : Reading α).Parallel (Reading.fail kind : Reading β) f settings related :=
  ⟨fun hs hpos => ⟨.error ⟨rfl, hs.path_eq, hs.lines_eq⟩, hs, hpos⟩⟩

/-- What two turns leave: related intermediate results, or related results. -/
inductive Turns (inv : τ → τ' → Prop) (related : α → β → Prop) : Turn τ α → Turn τ' β → Prop where
  | again {x : τ} {x' : τ'} (h : inv x x') : Turns inv related (.again x) (.again x')
  | stop {a : α} {b : β} (h : related a b) : Turns inv related (.stop a) (.stop b)

theorem repeating {turn : τ → Reading (Turn τ α)} {turn' : τ' → Reading (Turn τ' β)}
    (inv : τ → τ' → Prop)
    (h : ∀ x x', inv x x' → (turn x).Parallel (turn' x') f settings (Turns inv related))
    {x : τ} {x' : τ'} (hx : inv x x') :
    (Reading.repeating turn x).Parallel (Reading.repeating turn' x') f settings related := by
  have hloop : ∀ n x x', inv x x' →
      (repeatAtMost turn n x).Parallel (repeatAtMost turn' n x') f settings related := by
    intro n
    induction n with
    | zero => exact fun _ _ _ => fail _
    | succ n ih =>
        intro x x' hx
        refine (h x x' hx).bind ?_
        rintro _ _ (h | h)
        · exact ih _ _ h
        · exact pure h
  have hbudget : (Reading.ask .budget).Movable f settings :=
    ask fun pos pos' hpos => ⟨hpos.left.symm, hpos⟩
  exact hbudget.next fun n => hloop _ _ _ hx

end Parallel

/-! ## Movable readings -/

theorem movable_pure (a : α) : (pure a : Reading α).Movable f settings := .pure rfl

theorem movable_fail (kind : ErrorKind) : (fail kind : Reading α).Movable f settings := .fail kind

theorem Movable.repeating {turn : τ → Reading (Turn τ α)}
    (h : ∀ x, (turn x).Movable f settings) (x : τ) :
    (Reading.repeating turn x).Movable f settings := by
  refine Parallel.repeating Eq ?_ rfl
  rintro x _ rfl
  refine (h x).mono ?_
  rintro (y | a) _ rfl
  · exact .again rfl
  · exact .stop rfl

theorem movable_get_bind {g : State → Reading α}
    (h : ∀ s s', f.States s s' → g s' = g s ∧ (g s).Movable f settings) :
    (get >>= g).Movable f settings := by
  refine .get_bind fun s s' hs => ?_
  rw [(h s s' hs).1]
  exact (h s s' hs).2

end Reading

end JsonPull
