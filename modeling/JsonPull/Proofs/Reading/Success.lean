import JsonPull.Proofs.Reading.Typed
import JsonPull.Proofs.Stream.Tape

/-! # Readings that succeed

On a tape the run of a reading is determined, and it can be followed question by question. What is
on the tape from the cursor on decides every answer. -/

namespace JsonPull

/-! ## What lies ahead -/

/-- The bytes of a stream from an offset on. -/
def Ahead (stream : List UInt8) (pos : Nat) (rest : List UInt8) : Prop :=
  stream.drop pos = rest

namespace Ahead

variable {stream bytes rest : List UInt8} {pos : Nat} {b : UInt8}

theorem getElem? (h : Ahead stream pos rest) (ahead : Nat) :
    stream[pos + ahead]? = rest[ahead]? := by
  rw [← h, List.getElem?_drop]

theorem head? (h : Ahead stream pos rest) : stream[pos + 0]? = rest.head? := by
  rw [h.getElem?, List.head?_eq_getElem?]

theorem skip (h : Ahead stream pos (bytes ++ rest)) : Ahead stream (pos + bytes.length) rest := by
  unfold Ahead at h ⊢
  rw [← List.drop_drop, h, List.drop_left]

theorem tail (h : Ahead stream pos (b :: rest)) : Ahead stream (pos + 1) rest := by
  have hskip : Ahead stream pos ([b] ++ rest) := h
  exact hskip.skip

theorem lt (h : Ahead stream pos (b :: rest)) : pos < stream.length := by
  by_contra hge
  rw [Ahead, List.drop_of_length_le (by omega)] at h
  cases h

theorem slice (h : Ahead stream pos (bytes ++ rest)) :
    (stream.drop pos).take bytes.length = bytes := by
  rw [h, List.take_left]

end Ahead

/-- The value of a slot whose text lies on a tape, if it has one. -/
def Slot.value? (stream : List UInt8) : Slot → Option Value
  | .empty => none
  | .held span =>
    some (.string (Text.ofBytes ((stream.drop span.first).take (span.last - span.first))))
  | .owned value => some value

namespace Reading

variable {α β τ : Type} {settings : Settings} {stream : List UInt8} {s : State} {pos : Nat}
  {post post' : α → State → Nat → Prop}

/-- On a tape, a reading succeeds and ends as `post` says. -/
structure Succeeds (x : Reading α) (settings : Settings) (stream : List UInt8) (s : State)
    (pos : Nat) (post : α → State → Nat → Prop) : Prop where
  run : ∃ a s' pos', ((x.run settings).run.run s).runWith (tape stream) pos =
    ((.ok a, s'), pos') ∧ post a s' pos'

theorem Succeeds.mono {x : Reading α} (h : x.Succeeds settings stream s pos post)
    (hpost : ∀ a s' pos', post a s' pos' → post' a s' pos') :
    x.Succeeds settings stream s pos post' := by
  obtain ⟨a, s', pos', hrun, ha⟩ := h.run
  exact ⟨a, s', pos', hrun, hpost a s' pos' ha⟩

/-- A reading that succeeds ends in one way. -/
theorem Succeeds.exact {x : Reading α} (h : x.Succeeds settings stream s pos post) :
    ∃ a s' pos', post a s' pos' ∧ ∀ post' : α → State → Nat → Prop,
      x.Succeeds settings stream s pos post' ↔ post' a s' pos' := by
  obtain ⟨a, s', pos', hrun, ha⟩ := h.run
  refine ⟨a, s', pos', ha, fun post' => ⟨?_, fun ha' => ⟨a, s', pos', hrun, ha'⟩⟩⟩
  rintro ⟨a₁, s₁, pos₁, hrun₁, ha₁⟩
  cases hrun.symm.trans hrun₁
  exact ha₁

/-! ## Single steps -/

theorem succeeds_pure (a : α) :
    (pure a : Reading α).Succeeds settings stream s pos post ↔ post a s pos := by
  constructor
  · rintro ⟨a', s', pos', hrun, ha⟩
    cases hrun
    exact ha
  · intro h
    exact ⟨a, s, pos, rfl, h⟩

theorem succeeds_bind (x : Reading β) (f : β → Reading α) :
    (x >>= f).Succeeds settings stream s pos post ↔
      x.Succeeds settings stream s pos
        fun b s' pos' => (f b).Succeeds settings stream s' pos' post := by
  constructor
  · rintro ⟨a, s₂, pos₂, hrun, ha⟩
    rw [run_bind, Scan.runWith_bind] at hrun
    generalize hx : ((x.run settings).run.run s).runWith (tape stream) pos = outcome at hrun
    obtain ⟨⟨e | b, s₁⟩, pos₁⟩ := outcome
    · cases hrun
    · exact ⟨b, s₁, pos₁, hx, ⟨a, s₂, pos₂, hrun, ha⟩⟩
  · rintro ⟨b, s₁, pos₁, hx, ⟨a, s₂, pos₂, hrun, ha⟩⟩
    refine ⟨a, s₂, pos₂, ?_, ha⟩
    rw [run_bind, Scan.runWith_bind, hx]
    exact hrun

theorem not_succeeds_fail (kind : ErrorKind) :
    ¬ (fail kind : Reading α).Succeeds settings stream s pos post := by
  rintro ⟨a, s', pos', hrun, -⟩
  cases hrun

theorem succeeds_ask (q : Query) {post : q.Answer → State → Nat → Prop} :
    (ask q).Succeeds settings stream s pos post ↔
      post (tape stream q pos).1 s (tape stream q pos).2 := by
  constructor
  · rintro ⟨a, s', pos', hrun, ha⟩
    cases hrun
    exact ha
  · intro h
    exact ⟨_, s, _, rfl, h⟩

theorem succeeds_modify (f : State → State) {post : Unit → State → Nat → Prop} :
    (modify f : Reading Unit).Succeeds settings stream s pos post ↔ post () (f s) pos := by
  constructor
  · rintro ⟨a, s', pos', hrun, ha⟩
    cases hrun
    exact ha
  · intro h
    exact ⟨_, _, pos, rfl, h⟩

theorem succeeds_get {post : State → State → Nat → Prop} :
    (get : Reading State).Succeeds settings stream s pos post ↔ post s s pos := by
  constructor
  · rintro ⟨a, s', pos', hrun, ha⟩
    cases hrun
    exact ha
  · intro h
    exact ⟨_, _, pos, rfl, h⟩

theorem succeeds_read {post : Settings → State → Nat → Prop} :
    (read : Reading Settings).Succeeds settings stream s pos post ↔ post settings s pos := by
  constructor
  · rintro ⟨a, s', pos', hrun, ha⟩
    cases hrun
    exact ha
  · intro h
    exact ⟨_, _, pos, rfl, h⟩

theorem succeeds_update (f : Settings → State → State) {post : Unit → State → Nat → Prop} :
    (update f).Succeeds settings stream s pos post ↔ post () (f settings s) pos := by
  simp only [update, succeeds_bind, succeeds_read, succeeds_modify]

theorem succeeds_budget {post : Nat → State → Nat → Prop} :
    (ask .budget).Succeeds settings stream s pos post ↔ post (stream.length - pos) s pos :=
  succeeds_ask .budget

theorem succeeds_cursor {post : Nat → State → Nat → Prop} :
    cursor.Succeeds settings stream s pos post ↔ post pos s pos :=
  succeeds_ask .cursor

theorem succeeds_advance (count : Nat) {post : Unit → State → Nat → Prop} :
    (advance count).Succeeds settings stream s pos post ↔ post () s (pos + count) :=
  succeeds_ask (.advance count)

theorem succeeds_settle {post : Unit → State → Nat → Prop} :
    settle.Succeeds settings stream s pos post ↔ post () s pos :=
  succeeds_ask .settle

theorem succeeds_byte? (ahead : Nat) (retain : Retain)
    {post : Option UInt8 → State → Nat → Prop} :
    (byte? ahead retain).Succeeds settings stream s pos post ↔ post stream[pos + ahead]? s pos := by
  unfold byte?
  rw [succeeds_bind, succeeds_ask]
  exact succeeds_pure _

theorem succeeds_behind (count : Nat) {post : Nat → State → Nat → Prop} :
    (behind count).Succeeds settings stream s pos post ↔ post (pos - count) s pos :=
  succeeds_ask (.behind count)

theorem succeeds_bytesOf (span : Span) {post : List UInt8 → State → Nat → Prop} :
    (bytesOf span).Succeeds settings stream s pos post ↔
      post ((stream.drop span.first).take (span.last - span.first)) s pos := by
  unfold bytesOf
  rw [succeeds_bind, succeeds_ask]
  exact succeeds_pure _

theorem succeeds_hold (first last : Nat) {post : Span → State → Nat → Prop} :
    (hold first last).Succeeds settings stream s pos post ↔ post { first, last } s pos := by
  unfold hold
  rw [succeeds_bind, succeeds_ask]
  exact succeeds_pure _

theorem succeeds_textOf (span : Span) {post : String → State → Nat → Prop} :
    (textOf span).Succeeds settings stream s pos post ↔
      post (Text.ofBytes ((stream.drop span.first).take (span.last - span.first))) s pos := by
  rw [textOf, succeeds_bind, succeeds_ask]
  exact succeeds_pure _

theorem succeeds_startLine {post : Unit → State → Nat → Prop} :
    startLine.Succeeds settings stream s pos post ↔
      post () { s with lines := s.lines.next pos } pos := by
  unfold startLine
  rw [succeeds_bind, succeeds_cursor, succeeds_modify]

theorem succeeds_takeFeed {post : Unit → State → Nat → Prop} :
    takeFeed.Succeeds settings stream s pos post ↔
      post () { s with lines := s.lines.next (pos + 1) } (pos + 1) := by
  rw [takeFeed, succeeds_bind, succeeds_advance, succeeds_startLine]

/-- A return is taken together with the line feed behind it. -/
theorem succeeds_takeReturn_paired (hfeed : stream[pos + 1]? = some 0x0A) {retain : Retain}
    {post : Bool → State → Nat → Prop} :
    (takeReturn retain).Succeeds settings stream s pos post ↔
      post true { s with lines := s.lines.next (pos + 2) } (pos + 2) := by
  unfold takeReturn
  rw [succeeds_bind, succeeds_advance, succeeds_bind, succeeds_byte?, Nat.add_zero, hfeed]
  change ((do advance 1; startLine; return true) : Reading Bool).Succeeds _ _ _ _ _ ↔ _
  rw [succeeds_bind, succeeds_advance, succeeds_bind, succeeds_startLine, succeeds_pure]

theorem succeeds_takeReturn_lone (hfeed : stream[pos + 1]? ≠ some 0x0A) {retain : Retain}
    {post : Bool → State → Nat → Prop} :
    (takeReturn retain).Succeeds settings stream s pos post ↔
      post false { s with lines := s.lines.next (pos + 1) } (pos + 1) := by
  unfold takeReturn
  rw [succeeds_bind, succeeds_advance, succeeds_bind, succeeds_byte?, Nat.add_zero,
    beq_eq_false_iff_ne.mpr hfeed]
  change ((do startLine; return false) : Reading Bool).Succeeds _ _ _ _ _ ↔ _
  rw [succeeds_bind, succeeds_startLine, succeeds_pure]

/-- A comma ends the turn of a separator. -/
theorem succeeds_takeComma {post : Turn Unit Bool → State → Nat → Prop} :
    (do advance 1; update State.resumeContainer; return .stop false :
      Reading (Turn Unit Bool)).Succeeds settings stream s pos post ↔
      post (.stop false) (s.resumeContainer settings) (pos + 1) := by
  rw [succeeds_bind, succeeds_advance, succeeds_bind, succeeds_update, succeeds_pure]

/-! ## Repetitions -/

/-- More turns than were needed make no difference. -/
theorem Succeeds.repeatAtMost {turn : τ → Reading (Turn τ α)} {n m : Nat} (hle : n ≤ m) {x : τ}
    (h : (repeatAtMost turn n x).Succeeds settings stream s pos post) :
    (Reading.repeatAtMost turn m x).Succeeds settings stream s pos post := by
  induction n generalizing m x s pos with
  | zero =>
      obtain ⟨a, s', pos', hrun, ha⟩ := h.run
      cases hrun
  | succ n ih =>
      obtain ⟨m, rfl⟩ : ∃ k, m = k + 1 := ⟨m - 1, by omega⟩
      unfold Reading.repeatAtMost at h ⊢
      rw [succeeds_bind] at h ⊢
      refine h.mono ?_
      rintro (x' | a) s' pos' hr
      · exact ih (by omega) hr
      · exact hr

/-- What a turn must leave: a repetition that succeeds behind the bytes it consumed, or a result. -/
@[reducible] def Turn.Reaches (turn : τ → Reading (Turn τ α)) (settings : Settings)
    (stream : List UInt8) (pos : Nat) (post : α → State → Nat → Prop) :
    Turn τ α → State → Nat → Prop
  | .again x, s', pos' =>
    pos < pos' ∧ pos < stream.length ∧ (repeating turn x).Succeeds settings stream s' pos' post
  | .stop a, s', pos' => post a s' pos'

theorem succeeds_repeating {turn : τ → Reading (Turn τ α)} {x : τ}
    (h : (turn x).Succeeds settings stream s pos
      (Turn.Reaches turn settings stream pos post)) :
    (repeating turn x).Succeeds settings stream s pos post := by
  unfold repeating
  rw [succeeds_bind, succeeds_budget]
  unfold Reading.repeatAtMost
  rw [succeeds_bind]
  refine h.mono ?_
  rintro (x' | a) s' pos' hr
  · obtain ⟨hlt, hlength, hrest⟩ := hr
    unfold repeating at hrest
    rw [succeeds_bind, succeeds_budget] at hrest
    exact hrest.repeatAtMost (by omega)
  · exact (succeeds_pure a).mpr hr

/-- A repetition that has ended after its first turn. -/
theorem succeeds_repeating_stop {turn : τ → Reading (Turn τ α)} {x : τ} {y : Reading β}
    {f : β → α} {s' : State} {pos' : Nat}
    (h : ∀ post : Turn τ α → State → Nat → Prop, (turn x).Succeeds settings stream s pos post ↔
      y.Succeeds settings stream s' pos' fun b => post (.stop (f b))) :
    (repeating turn x).Succeeds settings stream s pos post ↔
      y.Succeeds settings stream s' pos' fun b => post (f b) := by
  unfold repeating
  rw [succeeds_bind, succeeds_budget]
  unfold Reading.repeatAtMost
  rw [succeeds_bind, h]
  simp only [succeeds_pure]

end Reading

end JsonPull
