import Mathlib
import JsonPull.Reader.Reading

/-! # What every run of a reading ends with

A scan is followed under all answers that a stream of `total` bytes can give, faults included.
What it is known to have fetched and to hold decides which of its questions are safe. -/

namespace JsonPull

namespace ErrorKind

/-- A failure of the reader itself, and not of the input, the source or the caller. -/
def isDefect : ErrorKind → Bool
  | invariantViolated _ => true
  | _ => false

/-- A failure to fetch bytes. -/
def isFault : ErrorKind → Bool
  | io _ => true
  | cancelled => true
  | _ => false

end ErrorKind

/-- What there is of two things where all held bytes stay, and where only the unread ones do. -/
def Retain.select {α : Type} (all unread : α) : Retain → α
  | .all => all
  | .unread => unread

/-- What is known of a stream of `total` bytes: those before `pos` are consumed, and those before
`seen` were fetched. What lies behind `anchor` is held where it was when the cursor was first looked
up there; without an anchor, bytes may have moved since. `marks` are the parts that were referred to
since then. `faulted` tells whether a fetch failed. -/
structure Reach (total : Nat) where
  anchor : Option Nat
  marks : List Span
  pos : Nat
  seen : Nat
  faulted : Bool
  anchor_le : ∀ a, anchor = some a → a ≤ pos
  marks_within : ∀ span ∈ marks, (∃ a, anchor = some a ∧ a ≤ span.first) ∧
    span.first ≤ span.last ∧ span.last ≤ pos
  pos_le : pos ≤ seen
  seen_le : seen ≤ total

namespace Reach

variable {total : Nat}

/-- What is at `first` is still where it was when the cursor was looked up at or before it. -/
def Anchors (d : Reach total) (first : Nat) : Prop :=
  ∃ a, d.anchor = some a ∧ a ≤ first

/-- The cursor was looked up. -/
def look (d : Reach total) : Reach total where
  anchor := some (d.anchor.getD d.pos)
  marks := d.marks
  pos := d.pos
  seen := d.seen
  faulted := d.faulted
  anchor_le := by
    rintro _ ⟨⟩
    cases h : d.anchor with
    | none => exact le_rfl
    | some a => exact d.anchor_le a h
  marks_within := by
    intro span hspan
    obtain ⟨⟨a, ha, hfirst⟩, hrest⟩ := d.marks_within span hspan
    exact ⟨⟨a, by rw [ha, Option.getD_some], hfirst⟩, hrest⟩
  pos_le := d.pos_le
  seen_le := d.seen_le

/-- Bytes up to `seen` were fetched. Unless all held bytes were to stay where they are, they may
have moved. -/
def fetch (d : Reach total) (retain : Retain) (seen : Nat) (faulted : Bool) (hseen : d.seen ≤ seen)
    (htotal : seen ≤ total) : Reach total where
  anchor := retain.select d.anchor none
  marks := retain.select d.marks []
  pos := d.pos
  seen := seen
  faulted := faulted
  anchor_le := by
    cases retain with
    | all => exact d.anchor_le
    | unread => exact nofun
  marks_within := by
    cases retain with
    | all => exact d.marks_within
    | unread => exact nofun
  pos_le := d.pos_le.trans hseen
  seen_le := htotal

/-- Bytes that were fetched are consumed. -/
def consume (d : Reach total) (count : Nat) (h : d.pos + count ≤ d.seen) : Reach total where
  anchor := d.anchor
  marks := d.marks
  pos := d.pos + count
  seen := d.seen
  faulted := d.faulted
  anchor_le a ha := (d.anchor_le a ha).trans (Nat.le_add_right _ _)
  marks_within span hspan := by
    obtain ⟨hfirst, hle, hlast⟩ := d.marks_within span hspan
    exact ⟨hfirst, hle, hlast.trans (Nat.le_add_right _ _)⟩
  pos_le := h
  seen_le := d.seen_le

/-- A part of the consumed bytes was referred to. -/
def mark (d : Reach total) (span : Span)
    (h : d.Anchors span.first ∧ span.first ≤ span.last ∧ span.last ≤ d.pos) : Reach total where
  anchor := d.anchor
  marks := span :: d.marks
  pos := d.pos
  seen := d.seen
  faulted := d.faulted
  anchor_le := d.anchor_le
  marks_within := List.forall_mem_cons.mpr ⟨h, d.marks_within⟩
  pos_le := d.pos_le
  seen_le := d.seen_le

theorem anchors_look (d : Reach total) : d.look.Anchors d.pos :=
  ⟨_, rfl, d.look.anchor_le _ rfl⟩

theorem Anchors.mono {d : Reach total} {first first' : Nat} (h : d.Anchors first)
    (hle : first ≤ first') : d.Anchors first' := by
  obtain ⟨a, ha, hfirst⟩ := h
  exact ⟨a, ha, hfirst.trans hle⟩

theorem Anchors.of_eq {d d' : Reach total} {first : Nat} (h : d.Anchors first)
    (hanchor : ∀ a, d.anchor = some a → d'.anchor = some a) : d'.Anchors first := by
  obtain ⟨a, ha, hfirst⟩ := h
  exact ⟨a, hanchor a ha, hfirst⟩

end Reach

variable {total : Nat}

namespace Query

/-- A question that only asks for bytes that are held where they were, or were referred to, and only
consumes bytes that were fetched. -/
def Permitted (d : Reach total) : Query → Prop
  | advance count => d.pos + count ≤ d.seen
  | past count => d.pos + count ≤ d.seen
  | behind count => count ≤ d.pos ∧ d.Anchors (d.pos - count)
  | hold first last => d.Anchors first ∧ first ≤ last ∧ last ≤ d.pos
  | slice first last => d.Anchors first ∧ first ≤ last ∧ last ≤ d.seen
  | resolve first last => { first, last } ∈ d.marks
  | _ => True

/-- What was referred to may be asked for. -/
theorem permitted_slice {d : Reach total} {first last : Nat} (h : (resolve first last).Permitted d) :
    (slice first last).Permitted d := by
  obtain ⟨hanchor, hle, hlast⟩ := d.marks_within _ h
  exact ⟨hanchor, hle, hlast.trans d.pos_le⟩

/-- The answers that a question may get, each with what is known after it. Only a byte that came
back is known to have been fetched. -/
def Yields (d : Reach total) : (q : Query) → q.Answer → Reach total → Prop
  | byte ahead retain, answer, d' =>
    d'.anchor = retain.select d.anchor none ∧ d'.marks = retain.select d.marks [] ∧
    d'.pos = d.pos ∧ d.seen ≤ d'.seen ∧ (∀ b, answer = .ok (some b) → d.pos + ahead < d'.seen) ∧
    d'.faulted = (!Except.isOk answer || d.faulted)
  | advance count, _, d' =>
    d'.anchor = d.anchor ∧ d'.marks = d.marks ∧ d'.pos = d.pos + count ∧ d'.seen = d.seen ∧
      d'.faulted = d.faulted
  | settle, _, d' =>
    d'.anchor = none ∧ d'.marks = [] ∧ d'.pos = d.pos ∧ d'.seen = d.seen ∧ d'.faulted = d.faulted
  | cursor, answer, d' => answer = d.pos ∧ d' = d.look
  | past count, answer, d' => answer = d.pos + count ∧ d' = d
  | behind count, answer, d' => answer = d.pos - count ∧ d' = d
  | hold first last, _, d' => ∃ h, d' = d.mark { first, last } h
  | slice first last, answer, d' =>
    (∃ bytes, answer = some bytes ∧ bytes.length = last - first) ∧ d' = d
  | resolve _ _, answer, d' => answer.isSome = true ∧ d' = d
  | budget, answer, d' => answer = total - d.pos ∧ d' = d

/-- Whether a fault came back in place of a byte. -/
def isFault : (q : Query) → q.Answer → Bool
  | byte _ _, answer => !Except.isOk answer
  | _, _ => false

/-- Faults are known, and none is forgotten. -/
theorem Yields.faulted_eq {d d' : Reach total} {q : Query} {answer : q.Answer}
    (h : q.Yields d answer d') : d'.faulted = (q.isFault answer || d.faulted) := by
  cases q with
  | byte ahead retain => exact h.2.2.2.2.2
  | advance count => exact h.2.2.2.2
  | settle => exact h.2.2.2.2
  | cursor => exact (congrArg Reach.faulted h.2 : d'.faulted = d.look.faulted)
  | past count => exact congrArg Reach.faulted h.2
  | behind count => exact congrArg Reach.faulted h.2
  | hold first last =>
      obtain ⟨hspan, rfl⟩ := h
      exact (rfl : d.faulted = d.faulted)
  | resolve first last => exact congrArg Reach.faulted h.2
  | slice first last => exact congrArg Reach.faulted h.2
  | budget => exact congrArg Reach.faulted h.2

end Query

/-! ## Scans -/

namespace Scan

variable {α β : Type} {post post' : α → Reach total → Prop}

/-- Every run of a scan asks permitted questions only, and ends as `post` says. -/
def Ensures (post : α → Reach total → Prop) : Scan α → Reach total → Prop
  | done a, d => post a d
  | ask q next, d => q.Permitted d ∧ ∀ a d', q.Yields d a d' → (next a).Ensures post d'

theorem Ensures.mono {scan : Scan α} {d : Reach total} (h : scan.Ensures post d)
    (hpost : ∀ a d', post a d' → post' a d') : scan.Ensures post' d := by
  induction scan generalizing d with
  | done a => exact hpost a d h
  | ask q next ih => exact ⟨h.1, fun a d' hy => ih a (h.2 a d' hy)⟩

theorem ensures_bind (post : β → Reach total → Prop) (scan : Scan α) (f : α → Scan β)
    (d : Reach total) :
    (scan.bind f).Ensures post d ↔ scan.Ensures (fun a d' => (f a).Ensures post d') d := by
  induction scan generalizing d with
  | done a => rfl
  | ask q next ih => simp only [bind_ask, Ensures, ih]

end Scan

/-! ## Readings -/

namespace Reading

variable {α β τ : Type} {settings : Settings} {s : State} {d : Reach total}
  {ok ok' : α → State → Reach total → Prop} {err err' : ReadError → State → Reach total → Prop}

/-- Every run of a reading asks permitted questions only, and ends as `ok` or `err` says. It fails
for no other reason than a fault when it met one. -/
structure Ensures (x : Reading α) (settings : Settings) (s : State) (d : Reach total)
    (ok : α → State → Reach total → Prop) (err : ReadError → State → Reach total → Prop) :
    Prop where
  run : ((x.run settings).run.run s).Ensures
    (fun r d' => match r with
      | (.ok a, s') => (d'.faulted = true → d.faulted = true) ∧ ok a s' d'
      | (.error e, s') =>
        (d'.faulted = true → d.faulted = true ∨ e.kind.isFault = true) ∧ err e s' d') d

theorem Ensures.mono {x : Reading α} (h : x.Ensures settings s d ok err)
    (hok : ∀ a s' d', ok a s' d' → ok' a s' d') (herr : ∀ e s' d', err e s' d' → err' e s' d') :
    x.Ensures settings s d ok' err' := by
  refine ⟨Scan.Ensures.mono h.run ?_⟩
  rintro ⟨r | r, s'⟩ d' hr
  · exact ⟨hr.1, herr r s' d' hr.2⟩
  · exact ⟨hr.1, hok r s' d' hr.2⟩

theorem run_bind (x : Reading β) (f : β → Reading α) (settings : Settings) (s : State) :
    ((x >>= f).run settings).run.run s =
      ((x.run settings).run.run s).bind fun r => match r with
        | (.ok a, s') => ((f a).run settings).run.run s'
        | (.error e, s') => Scan.done (.error e, s') := by
  simp only [ReaderT.run_bind, ExceptT.run_bind, StateT.run_bind]
  congr 1
  funext r
  obtain ⟨r | r, s'⟩ := r <;> rfl

/-- The first reading is known by what it ensures; the second goes on from there. -/
theorem Ensures.bind {x : Reading β} {f : β → Reading α} {mid : β → State → Reach total → Prop}
    {fault : ReadError → State → Reach total → Prop} (hx : x.Ensures settings s d mid fault)
    (hf : ∀ a s' d', mid a s' d' → (f a).Ensures settings s' d' ok err)
    (hfault : ∀ e s' d', fault e s' d' → err e s' d') :
    (x >>= f).Ensures settings s d ok err := by
  refine ⟨?_⟩
  rw [run_bind, Scan.ensures_bind]
  refine hx.run.mono ?_
  rintro ⟨e | a, s'⟩ d' ⟨hd', hr⟩
  · exact ⟨hd', hfault e s' d' hr⟩
  · refine (hf a s' d' hr).run.mono ?_
    rintro ⟨e | b, s''⟩ d'' ⟨hd'', hr'⟩
    · exact ⟨fun h => (hd'' h).imp_left hd', hr'⟩
    · exact ⟨hd' ∘ hd'', hr'⟩

theorem ensures_pure (a : α) : (pure a : Reading α).Ensures settings s d ok err ↔ ok a s d :=
  ⟨fun h => h.run.2, fun h => ⟨id, h⟩⟩

theorem Ensures.map {f : β → α} {x : Reading β}
    (h : x.Ensures settings s d (fun a s' d' => ok (f a) s' d') err) :
    (f <$> x).Ensures settings s d ok err := by
  rw [← bind_pure_comp]
  exact h.bind (fun _ _ _ h => (ensures_pure _).mpr h) fun _ _ _ h => h

theorem ensures_throw (e : ReadError) :
    (throw e : Reading α).Ensures settings s d ok err ↔ err e s d :=
  ⟨fun h => h.run.2, fun h => ⟨.inl, h⟩⟩

theorem ensures_modify (f : State → State) {ok : Unit → State → Reach total → Prop} :
    (modify f : Reading Unit).Ensures settings s d ok err ↔ ok () (f s) d :=
  ⟨fun h => h.run.2, fun h => ⟨id, h⟩⟩

theorem ensures_update (f : Settings → State → State) {ok : Unit → State → Reach total → Prop} :
    (update f).Ensures settings s d ok err ↔ ok () (f settings s) d :=
  ⟨fun h => h.run.2, fun h => ⟨id, h⟩⟩

/-! ## Steps that ask nothing -/

/-- A first step that asks nothing and does not fail only changes the state. -/
theorem ensures_bind_done {x : Reading β} {f : β → Reading α} {b : β} {s' : State}
    (hx : (x.run settings).run.run s = .done (.ok b, s')) :
    (x >>= f).Ensures settings s d ok err ↔ (f b).Ensures settings s' d ok err := by
  have hrun : ((x >>= f).run settings).run.run s = ((f b).run settings).run.run s' := by
    rw [run_bind, hx, Scan.bind_done]
  exact ⟨fun h => ⟨hrun ▸ h.run⟩, fun h => ⟨hrun ▸ h.run⟩⟩

theorem ensures_modify_bind (f : State → State) (g : Unit → Reading α) :
    (modify f >>= g).Ensures settings s d ok err ↔ (g ()).Ensures settings (f s) d ok err :=
  ensures_bind_done rfl

theorem ensures_update_bind (f : Settings → State → State) (g : Unit → Reading α) :
    (update f >>= g).Ensures settings s d ok err ↔
      (g ()).Ensures settings (f settings s) d ok err :=
  ensures_bind_done rfl

theorem ensures_get_bind (g : State → Reading α) :
    (get >>= g).Ensures settings s d ok err ↔ (g s).Ensures settings s d ok err :=
  ensures_bind_done rfl

theorem ensures_read_bind (g : Settings → Reading α) :
    (read >>= g).Ensures settings s d ok err ↔ (g settings).Ensures settings s d ok err :=
  ensures_bind_done rfl

/-! ## Questions -/

/-- A question that is not about a byte meets no fault. -/
theorem Ensures.ask {q : Query} {ok : q.Answer → State → Reach total → Prop}
    (hq : q.Permitted d) (h : ∀ a d', q.Yields d a d' → d'.faulted = d.faulted ∧ ok a s d') :
    (Reading.ask q).Ensures settings s d ok err := by
  refine ⟨hq, fun a d' hy => ?_⟩
  obtain ⟨hd, hok⟩ := h a d' hy
  exact ⟨fun h => hd ▸ h, hok⟩

theorem ensures_cursor_bind (f : Nat → Reading α) :
    (cursor >>= f).Ensures settings s d ok err ↔ (f d.pos).Ensures settings s d.look ok err := by
  have hrun : ((cursor >>= f).run settings).run.run s =
      .ask .cursor fun offset => ((f offset).run settings).run.run s := by
    rw [run_bind]
    rfl
  constructor
  · intro h
    have hask := h.run
    rw [hrun] at hask
    exact ⟨hask.2 d.pos d.look ⟨rfl, rfl⟩⟩
  · intro h
    refine ⟨?_⟩
    rw [hrun]
    refine ⟨trivial, ?_⟩
    rintro a d' ⟨rfl, rfl⟩
    exact h.run

theorem ensures_fail (kind : ErrorKind) :
    (fail kind : Reading α).Ensures settings s d ok err ↔
      err { kind, path := s.path, line := s.lines.line, position := s.lines.position d.pos } s
        d.look := by
  unfold fail
  rw [ensures_cursor_bind, ensures_get_bind, ensures_throw]

/-- Where the fetch of a byte fails, the reading fails with the fault. -/
theorem Ensures.byte? {ahead : Nat} {retain : Retain}
    {ok : Option UInt8 → State → Reach total → Prop}
    (hok : ∀ b d', (Query.byte ahead retain).Yields d (.ok b) d' → ok b s d')
    (herr : ∀ fault d' kind, (Query.byte ahead retain).Yields d (.error fault) d' →
      kind.isFault = true → (fail kind : Reading (Option UInt8)).Ensures settings s d' ok err) :
    (Reading.byte? ahead retain).Ensures settings s d ok err := by
  have hfail : ∀ fault d' kind, (Query.byte ahead retain).Yields d (.error fault) d' →
      kind.isFault = true →
      (((fail kind : Reading (Option UInt8)).run settings).run.run s).Ensures
        (fun r d' => match r with
          | (.ok a, s') => (d'.faulted = true → d.faulted = true) ∧ ok a s' d'
          | (.error e, s') =>
            (d'.faulted = true → d.faulted = true ∨ e.kind.isFault = true) ∧ err e s' d') d' := by
    intro fault d' kind hy hkind
    have herr' := (ensures_fail kind).mp (herr fault d' kind hy hkind)
    refine ⟨trivial, ?_⟩
    rintro _ _ ⟨rfl, rfl⟩
    exact ⟨fun _ => .inr hkind, herr'⟩
  refine ⟨trivial, fun a d' hy => ?_⟩
  cases a with
  | ok b => exact ⟨fun h => hy.2.2.2.2.2.symm.trans h, hok b d' hy⟩
  | error fault =>
      cases fault with
      | cancelled => exact hfail _ d' _ hy rfl
      | io message => exact hfail _ d' _ hy rfl

/-! ## Repetitions -/

/-- Induction on the turns of a repetition: what holds of having run out of turns, and of a turn
followed by anything it holds of, holds of the repetition. -/
theorem repeatAtMost_induction {turn : τ → Reading (Turn τ α)} (holds : τ → Reading α → Prop)
    (out : ∀ x text, holds x (fail (.invariantViolated text)))
    (step : ∀ (x : τ) (next : τ → Reading α), (∀ y, holds y (next y)) →
      holds x do
        match ← turn x with
        | .again y => next y
        | .stop a => return a)
    (n : Nat) (x : τ) : holds x (repeatAtMost turn n x) := by
  induction n generalizing x with
  | zero => exact out x _
  | succ n ih =>
      rw [repeatAtMost]
      convert step x (repeatAtMost turn n) ih using 3 with r
      cases r <;> rfl

/-- What a turn that began at `d` must leave: a state to go on from and a byte less, or a result. -/
@[reducible] def Turn.Leaves (inv : τ → State → Reach total → Prop) (d : Reach total)
    (ok : α → State → Reach total → Prop) : Turn τ α → State → Reach total → Prop
  | .again x, s', d' => inv x s' d' ∧ d.pos < d'.pos
  | .stop a, s', d' => ok a s' d'

/-- A repetition in which all turns but the last consume a byte does not run out of turns: there
are more of them than bytes. -/
theorem ensures_repeating {turn : τ → Reading (Turn τ α)} (inv : τ → State → Reach total → Prop)
    (hturn : ∀ x s d, inv x s d → (turn x).Ensures settings s d (Turn.Leaves inv d ok) err)
    {x : τ} (h : inv x s d) : (repeating turn x).Ensures settings s d ok err := by
  have hloop : ∀ n x s d, inv x s d → total - d.pos < n →
      (repeatAtMost turn n x).Ensures settings s d ok err := by
    intro n
    induction n with
    | zero => intro x s d _ hn; omega
    | succ n ih =>
        intro x s d h hn
        refine Ensures.bind (hturn x s d h) ?_ fun _ _ _ he => he
        rintro (x' | a) s' d' hr
        · have hle : d'.pos ≤ total := d'.pos_le.trans d'.seen_le
          exact ih x' s' d' hr.1 (by omega)
        · exact (ensures_pure a).mpr hr
  have hbudget : (Reading.ask .budget).Ensures settings s d
      (fun a s' d' => a = total - d.pos ∧ s' = s ∧ d' = d) err := by
    refine .ask trivial ?_
    rintro a d' ⟨rfl, rfl⟩
    exact ⟨rfl, rfl, rfl, rfl⟩
  refine hbudget.bind ?_ fun _ _ _ he => he
  rintro _ _ _ ⟨rfl, rfl, rfl⟩
  exact hloop _ x _ _ h (by omega)

end Reading

end JsonPull
