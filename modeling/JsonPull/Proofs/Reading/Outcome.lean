import JsonPull.Proofs.Reading.Success

/-! # What a reading gives where it succeeds

On a tape the run of a reading is determined. What is said here of a reading holds if it succeeds,
and says nothing of its failures, so that a repetition is followed by an invariant alone. -/

namespace JsonPull

/-- At an offset of a stream that was fetched as a whole. -/
def Reach.fetched {total : Nat} (pos : Nat) (h : pos ≤ total) : Reach total :=
  ⟨none, [], pos, total, false, nofun, nofun, h, le_rfl⟩

/-- A tape answers as a stream of its bytes may, to questions that are permitted. -/
theorem yields_tape {stream : List UInt8} {d : Reach stream.length} {q : Query}
    (h : q.Permitted d) :
    ∃ d', q.Yields d (tape stream q d.pos).1 d' ∧ d'.pos = (tape stream q d.pos).2 := by
  cases q with
  | byte ahead retain =>
      have hlt : ∀ b, (tape stream (.byte ahead retain) d.pos).1 = .ok (some b) →
          d.pos + ahead < stream.length :=
        fun b hb => (List.getElem?_eq_some_iff.mp (Except.ok.inj hb)).1
      exact ⟨d.fetch retain stream.length d.faulted d.seen_le le_rfl,
        ⟨rfl, rfl, rfl, d.seen_le, hlt, rfl⟩, rfl⟩
  | advance count => exact ⟨d.consume count h, ⟨rfl, rfl, rfl, rfl, rfl⟩, rfl⟩
  | settle =>
      exact ⟨d.fetch .unread d.seen d.faulted le_rfl d.seen_le, ⟨rfl, rfl, rfl, rfl, rfl⟩, rfl⟩
  | cursor => exact ⟨d.look, ⟨rfl, rfl⟩, rfl⟩
  | past count => exact ⟨d, ⟨rfl, rfl⟩, rfl⟩
  | behind count => exact ⟨d, ⟨rfl, rfl⟩, rfl⟩
  | hold first last => exact ⟨d.mark { first, last } h, ⟨h, rfl⟩, rfl⟩
  | slice first last =>
      refine ⟨d, ⟨⟨_, rfl, ?_⟩, rfl⟩, rfl⟩
      have hlast := h.2.2.trans d.seen_le
      rw [List.length_take, List.length_drop]
      omega
  | resolve first last => exact ⟨d, ⟨rfl, rfl⟩, rfl⟩
  | budget => exact ⟨d, ⟨rfl, rfl⟩, rfl⟩

theorem Scan.Ensures.tape {α : Type} {stream : List UInt8} {scan : Scan α}
    {post : α → Reach stream.length → Prop} {d : Reach stream.length} (h : scan.Ensures post d) :
    ∃ d', post (scan.runWith (JsonPull.tape stream) d.pos).1 d' ∧
      d'.pos = (scan.runWith (JsonPull.tape stream) d.pos).2 := by
  induction scan generalizing d with
  | done a => exact ⟨d, h, rfl⟩
  | ask q next ih =>
      obtain ⟨d', hyields, hpos⟩ := yields_tape h.1
      have hnext := ih _ (h.2 _ d' hyields)
      rw [hpos] at hnext
      exact hnext

end JsonPull

namespace JsonPull.Reading

variable {α β τ : Type} {settings : Settings} {stream : List UInt8} {s : State} {pos : Nat}
  {post post' : α → State → Nat → Prop}

/-- Where a reading succeeds on a tape, it ends as `post` says. -/
structure Gives (x : Reading α) (settings : Settings) (stream : List UInt8) (s : State)
    (pos : Nat) (post : α → State → Nat → Prop) : Prop where
  run : ∀ a s' pos', ((x.run settings).run.run s).runWith (tape stream) pos =
    ((.ok a, s'), pos') → post a s' pos'

theorem Gives.mono {x : Reading α} (h : x.Gives settings stream s pos post)
    (hpost : ∀ a s' pos', post a s' pos' → post' a s' pos') :
    x.Gives settings stream s pos post' :=
  ⟨fun a s' pos' hrun => hpost a s' pos' (h.run a s' pos' hrun)⟩

/-- What every run ends with, the run on a tape ends with. -/
theorem Ensures.gives {x : Reading α} {d : Reach stream.length}
    {ok : α → State → Reach stream.length → Prop}
    {err : ReadError → State → Reach stream.length → Prop} (h : x.Ensures settings s d ok err) :
    x.Gives settings stream s d.pos fun a s' pos' => ∃ d', ok a s' d' ∧ d'.pos = pos' := by
  refine ⟨fun a s' pos' hrun => ?_⟩
  obtain ⟨d', hpost, hpos⟩ := h.run.tape
  rw [hrun] at hpost hpos
  exact ⟨d', hpost.2, hpos⟩

/-- What surely happens is what happens on success. -/
theorem gives_iff {x : Reading α} {a : α} {s' : State} {pos' : Nat}
    (h : ∀ post : α → State → Nat → Prop,
      x.Succeeds settings stream s pos post ↔ post a s' pos') :
    x.Gives settings stream s pos post ↔ post a s' pos' := by
  obtain ⟨_, _, _, hrun, rfl, rfl, rfl⟩ :=
    ((h fun a₁ s₁ pos₁ => a₁ = a ∧ s₁ = s' ∧ pos₁ = pos').mpr ⟨rfl, rfl, rfl⟩).run
  constructor
  · intro hx
    exact hx.run _ _ _ hrun
  · intro hpost
    refine ⟨fun a₁ s₁ pos₁ hrun₁ => ?_⟩
    cases hrun.symm.trans hrun₁
    exact hpost

theorem Succeeds.gives {x : Reading α} (h : x.Succeeds settings stream s pos post) :
    x.Gives settings stream s pos post := by
  obtain ⟨a, s', pos', hpost, hexact⟩ := h.exact
  exact (gives_iff hexact).mpr hpost

theorem gives_pure (a : α) :
    (pure a : Reading α).Gives settings stream s pos post ↔ post a s pos :=
  gives_iff fun _ => succeeds_pure a

theorem gives_bind (x : Reading β) (f : β → Reading α) :
    (x >>= f).Gives settings stream s pos post ↔
      x.Gives settings stream s pos
        fun b s' pos' => (f b).Gives settings stream s' pos' post := by
  constructor
  · intro h
    refine ⟨fun b s₁ pos₁ hx => ⟨fun a s₂ pos₂ hf => h.run a s₂ pos₂ ?_⟩⟩
    rw [run_bind, Scan.runWith_bind, hx]
    exact hf
  · intro h
    refine ⟨fun a s₂ pos₂ hrun => ?_⟩
    rw [run_bind, Scan.runWith_bind] at hrun
    generalize hx : ((x.run settings).run.run s).runWith (tape stream) pos = outcome at hrun
    obtain ⟨⟨e | b, s₁⟩, pos₁⟩ := outcome
    · cases hrun
    · exact (h.run b s₁ pos₁ hx).run a s₂ pos₂ hrun

/-- The first reading is known by what it gives; the second goes on from there. -/
theorem Gives.bind {x : Reading β} {f : β → Reading α} {mid : β → State → Nat → Prop}
    (hx : x.Gives settings stream s pos mid)
    (hf : ∀ b s' pos', mid b s' pos' → (f b).Gives settings stream s' pos' post) :
    (x >>= f).Gives settings stream s pos post :=
  (gives_bind x f).mpr (hx.mono hf)

theorem gives_map (f : β → α) (x : Reading β) :
    (f <$> x).Gives settings stream s pos post ↔
      x.Gives settings stream s pos fun b s' pos' => post (f b) s' pos' := by
  simp only [← bind_pure_comp, gives_bind, gives_pure]

theorem gives_throw (e : ReadError) : (throw e : Reading α).Gives settings stream s pos post := by
  refine ⟨fun a s' pos' hrun => ?_⟩
  cases hrun

theorem gives_fail (kind : ErrorKind) : (fail kind : Reading α).Gives settings stream s pos post := by
  refine ⟨fun a s' pos' hrun => ?_⟩
  cases hrun

theorem gives_true (x : Reading α) : x.Gives settings stream s pos fun _ _ _ => True :=
  ⟨fun _ _ _ _ => trivial⟩

theorem gives_unexpected (site : CharSite) :
    (unexpected site : Reading α).Gives settings stream s pos post :=
  (gives_true _).bind fun _ _ _ _ => gives_fail _

theorem gives_unexpectedConsumed (site : CharSite) :
    (unexpectedConsumed site : Reading α).Gives settings stream s pos post :=
  (gives_true _).bind fun _ _ _ _ => (gives_true _).bind fun _ _ _ _ => gives_fail _

theorem gives_ask (q : Query) {post : q.Answer → State → Nat → Prop} :
    (ask q).Gives settings stream s pos post ↔
      post (tape stream q pos).1 s (tape stream q pos).2 :=
  gives_iff fun _ => succeeds_ask q

theorem gives_modify (f : State → State) {post : Unit → State → Nat → Prop} :
    (modify f : Reading Unit).Gives settings stream s pos post ↔ post () (f s) pos :=
  gives_iff fun _ => succeeds_modify f

theorem gives_get {post : State → State → Nat → Prop} :
    (get : Reading State).Gives settings stream s pos post ↔ post s s pos :=
  gives_iff fun _ => succeeds_get

theorem gives_read {post : Settings → State → Nat → Prop} :
    (read : Reading Settings).Gives settings stream s pos post ↔ post settings s pos :=
  gives_iff fun _ => succeeds_read

theorem gives_update (f : Settings → State → State) {post : Unit → State → Nat → Prop} :
    (update f).Gives settings stream s pos post ↔ post () (f settings s) pos :=
  gives_iff fun _ => succeeds_update f

theorem gives_cursor {post : Nat → State → Nat → Prop} :
    cursor.Gives settings stream s pos post ↔ post pos s pos :=
  gives_iff fun _ => succeeds_cursor

theorem gives_advance (count : Nat) {post : Unit → State → Nat → Prop} :
    (advance count).Gives settings stream s pos post ↔ post () s (pos + count) :=
  gives_iff fun _ => succeeds_advance count

theorem gives_settle {post : Unit → State → Nat → Prop} :
    settle.Gives settings stream s pos post ↔ post () s pos :=
  gives_iff fun _ => succeeds_settle

theorem gives_byte? (ahead : Nat) (retain : Retain) {post : Option UInt8 → State → Nat → Prop} :
    (byte? ahead retain).Gives settings stream s pos post ↔ post stream[pos + ahead]? s pos :=
  gives_iff fun _ => succeeds_byte? ahead retain

theorem gives_behind (count : Nat) {post : Nat → State → Nat → Prop} :
    (behind count).Gives settings stream s pos post ↔ post (pos - count) s pos :=
  gives_iff fun _ => succeeds_behind count

theorem gives_bytesOf (span : Span) {post : List UInt8 → State → Nat → Prop} :
    (bytesOf span).Gives settings stream s pos post ↔
      post ((stream.drop span.first).take (span.last - span.first)) s pos :=
  gives_iff fun _ => succeeds_bytesOf span

theorem gives_hold (first last : Nat) {post : Span → State → Nat → Prop} :
    (hold first last).Gives settings stream s pos post ↔ post { first, last } s pos :=
  gives_iff fun _ => succeeds_hold first last

theorem gives_textOf (span : Span) {post : String → State → Nat → Prop} :
    (textOf span).Gives settings stream s pos post ↔
      post (Text.ofBytes ((stream.drop span.first).take (span.last - span.first))) s pos :=
  gives_iff fun _ => succeeds_textOf span

/-- A comment is consumed, and changes nothing but lines unless it is surfaced. -/
theorem gives_comment (surface : Bool) :
    (comment surface).Gives settings stream s pos fun _ s₁ pos₁ => pos < pos₁ ∧
      ∃ s₂, s.Same s₂ ∧ if surface then ∃ slot, s₁ = s₂.publishComment slot else s₁ = s₂ := by
  by_cases h : pos < stream.length
  · have hcomment : (comment surface).Ensures settings s (.fetched pos h.le)
        (fun _ s' d' => Commented surface s (.fetched pos h.le) s' d') fun _ _ _ => True :=
      ensures_comment surface (fun _ _ _ _ _ _ => trivial) h
    refine hcomment.gives.mono ?_
    rintro _ s₁ _ ⟨d₁, ⟨hlt, s₂, ho, hs₁⟩, rfl⟩
    refine ⟨hlt, s₂, ho.same, ?_⟩
    cases surface with
    | false => exact hs₁
    | true =>
        obtain ⟨span, hspan, -⟩ := hs₁
        exact ⟨_, hspan⟩
  · have hnone : stream[pos + 1 + 0]? = none := List.getElem?_eq_none (by omega)
    unfold comment
    rw [gives_bind, gives_advance, gives_bind, gives_byte?, hnone]
    exact gives_fail _

/-- What a turn must leave: the invariant of the repetition, or a result. -/
@[reducible] def Turn.Keeps (inv : τ → State → Nat → Prop) (post : α → State → Nat → Prop) :
    Turn τ α → State → Nat → Prop
  | .again x, s', pos' => inv x s' pos'
  | .stop a, s', pos' => post a s' pos'

theorem gives_repeating {turn : τ → Reading (Turn τ α)} (inv : τ → State → Nat → Prop)
    (hturn : ∀ x s pos, inv x s pos →
      (turn x).Gives settings stream s pos (Turn.Keeps inv post))
    {x : τ} (h : inv x s pos) : (repeating turn x).Gives settings stream s pos post := by
  unfold repeating
  rw [gives_bind, gives_ask]
  refine repeatAtMost_induction
    (fun x y => ∀ s pos, inv x s pos → y.Gives settings stream s pos post)
    (fun _ _ _ _ _ => gives_fail _) ?_ _ x s pos h
  intro x next ih s pos h
  refine (hturn x s pos h).bind ?_
  rintro (x' | a) s' pos' hr
  · exact ih x' s' pos' hr
  · exact (gives_pure a).mpr hr

/-! ## Failures as well -/

/-- However a reading ends on a tape, it ends as `post` says. -/
structure Lands (x : Reading α) (settings : Settings) (stream : List UInt8) (s : State)
    (pos : Nat) (post : Except ReadError α → State → Nat → Prop) : Prop where
  run : ∀ r s' pos', ((x.run settings).run.run s).runWith (tape stream) pos =
    ((r, s'), pos') → post r s' pos'

variable {last last' : Except ReadError α → State → Nat → Prop}

theorem Lands.mono {x : Reading α} (h : x.Lands settings stream s pos last)
    (hlast : ∀ r s' pos', last r s' pos' → last' r s' pos') :
    x.Lands settings stream s pos last' :=
  ⟨fun r s' pos' hrun => hlast r s' pos' (h.run r s' pos' hrun)⟩

/-- A reading that runs as another does lands as that one does. -/
theorem Lands.of_run {x y : Reading α} (h : x.Lands settings stream s pos last)
    (hrun : (y.run settings).run.run s = (x.run settings).run.run s) :
    y.Lands settings stream s pos last := by
  refine ⟨fun r s' pos' hy => h.run r s' pos' ?_⟩
  rwa [hrun] at hy

theorem Lands.gives {x : Reading α}
    (h : x.Lands settings stream s pos fun r s' pos' => ∀ a, r = .ok a → post a s' pos') :
    x.Gives settings stream s pos post :=
  ⟨fun a s' pos' hrun => h.run _ s' pos' hrun a rfl⟩

theorem Succeeds.lands {x : Reading α}
    (h : x.Succeeds settings stream s pos fun a => last (.ok a)) :
    x.Lands settings stream s pos last := by
  obtain ⟨a, s', pos', hrun, ha⟩ := h.run
  refine ⟨fun r s₁ pos₁ hrun₁ => ?_⟩
  cases hrun.symm.trans hrun₁
  exact ha

theorem Lands.succeeds {x : Reading α} (h : x.Lands settings stream s pos fun r s' pos' =>
    ∃ a, r = .ok a ∧ post a s' pos') : x.Succeeds settings stream s pos post := by
  generalize hrun : ((x.run settings).run.run s).runWith (tape stream) pos = outcome
  obtain ⟨⟨r, s'⟩, pos'⟩ := outcome
  obtain ⟨a, rfl, ha⟩ := h.run r s' pos' hrun
  exact ⟨a, s', pos', hrun, ha⟩

theorem lands_fail (kind : ErrorKind) (h : ∀ e : ReadError, e.kind = kind → last (.error e) s pos) :
    (fail kind : Reading α).Lands settings stream s pos last := by
  refine ⟨fun r s' pos' hrun => ?_⟩
  cases hrun
  exact h _ rfl

/-- A failure of the first reading is one of both. -/
theorem Lands.bind {x : Reading β} {f : β → Reading α}
    {mid : Except ReadError β → State → Nat → Prop} (hx : x.Lands settings stream s pos mid)
    (hfailed : ∀ e s' pos', mid (.error e) s' pos' → last (.error e) s' pos')
    (hf : ∀ b s' pos', mid (.ok b) s' pos' → (f b).Lands settings stream s' pos' last) :
    (x >>= f).Lands settings stream s pos last := by
  refine ⟨fun r s₂ pos₂ hrun => ?_⟩
  rw [run_bind, Scan.runWith_bind] at hrun
  generalize hx₁ : ((x.run settings).run.run s).runWith (tape stream) pos = outcome at hrun
  obtain ⟨⟨e | b, s₁⟩, pos₁⟩ := outcome
  · cases hrun
    exact hfailed e _ _ (hx.run _ _ _ hx₁)
  · exact (hf b s₁ pos₁ (hx.run _ _ _ hx₁)).run r s₂ pos₂ hrun

theorem Succeeds.lands_bind {x : Reading β} {f : β → Reading α} {mid : β → State → Nat → Prop}
    (hx : x.Succeeds settings stream s pos mid)
    (hf : ∀ b s' pos', mid b s' pos' → (f b).Lands settings stream s' pos' last) :
    (x >>= f).Lands settings stream s pos last := by
  have hlands : x.Lands settings stream s pos fun r s' pos' => ∃ b, r = .ok b ∧ mid b s' pos' :=
    (hx.mono fun b _ _ hb => ⟨b, rfl, hb⟩).lands
  refine hlands.bind ?_ ?_
  · rintro e s' pos' ⟨b, hb, -⟩
    cases hb
  · rintro b s' pos' ⟨_, ⟨⟩, hb⟩
    exact hf b s' pos' hb

/-- Behind a reading that surely succeeds, the next one lands as from where that left off. -/
theorem lands_bind_iff {x : Reading β} {f : β → Reading α} {b : β} {s' : State} {pos' : Nat}
    (hx : ∀ post : β → State → Nat → Prop,
      x.Succeeds settings stream s pos post ↔ post b s' pos') :
    (x >>= f).Lands settings stream s pos last ↔ (f b).Lands settings stream s' pos' last := by
  obtain ⟨b₁, s₁, pos₁, hrun, hb, hs, hpos⟩ :=
    ((hx fun b₁ s₁ pos₁ => b₁ = b ∧ s₁ = s' ∧ pos₁ = pos').mpr ⟨rfl, rfl, rfl⟩).run
  rw [hb, hs, hpos] at hrun
  have hbind : (((x >>= f).run settings).run.run s).runWith (tape stream) pos =
      (((f b).run settings).run.run s').runWith (tape stream) pos' := by
    rw [run_bind, Scan.runWith_bind, hrun]
  constructor
  · intro h
    exact ⟨fun r s₁ pos₁ hf => h.run r s₁ pos₁ (hbind.trans hf)⟩
  · intro h
    exact ⟨fun r s₁ pos₁ hf => h.run r s₁ pos₁ (hbind.symm.trans hf)⟩

theorem lands_modify_bind {f : State → State} {y : Unit → Reading α} :
    (modify f >>= y).Lands settings stream s pos last ↔
      (y ()).Lands settings stream (f s) pos last :=
  lands_bind_iff fun _ => succeeds_modify f

/-- What a turn must leave, also where it fails: the invariant of the repetition behind the bytes it
consumed, or a result. -/
@[reducible] def Turn.Goes (inv : τ → State → Nat → Prop) (total pos : Nat)
    (last : Except ReadError α → State → Nat → Prop) :
    Except ReadError (Turn τ α) → State → Nat → Prop
  | .ok (.again x), s', pos' => pos < pos' ∧ pos < total ∧ inv x s' pos'
  | .ok (.stop a), s', pos' => last (.ok a) s' pos'
  | .error e, s', pos' => last (.error e) s' pos'

/-- A repetition by an invariant. Each turn but the last one consumes a byte. -/
theorem lands_repeating_inv {turn : τ → Reading (Turn τ α)} (inv : τ → State → Nat → Prop)
    (hturn : ∀ x s pos, inv x s pos →
      (turn x).Lands settings stream s pos (Turn.Goes inv stream.length pos last))
    {x : τ} (h : inv x s pos) : (repeating turn x).Lands settings stream s pos last := by
  have hloop : ∀ n x s pos, stream.length - pos < n → inv x s pos →
      (repeatAtMost turn n x).Lands settings stream s pos last := by
    intro n
    induction n with
    | zero => exact fun _ _ _ hn => absurd hn (Nat.not_lt_zero _)
    | succ n ih =>
        intro x s pos hn h
        refine (hturn x s pos h).bind (fun e s' pos' h => h) ?_
        rintro (x' | a) s' pos' hgoes
        · obtain ⟨hlt, hlength, hinv⟩ := hgoes
          exact ih x' s' pos' (by omega) hinv
        · exact Succeeds.lands ((succeeds_pure a).mpr hgoes)
  unfold repeating
  exact (lands_bind_iff fun _ => succeeds_budget).mpr (hloop _ x s pos (Nat.lt_succ_self _) h)

/-- A repetition whose first turn fails or stops. -/
theorem lands_repeating {turn : τ → Reading (Turn τ α)} {x : τ}
    (h : (turn x).Lands settings stream s pos fun r s' pos' =>
      (∀ e, r = .error e → last (.error e) s' pos') ∧
        ∀ t, r = .ok t → ∃ a, t = .stop a ∧ last (.ok a) s' pos') :
    (repeating turn x).Lands settings stream s pos last := by
  have hbudget : (ask .budget).Succeeds settings stream s pos
      fun _ s' pos' => s' = s ∧ pos' = pos := succeeds_budget.mpr ⟨rfl, rfl⟩
  refine hbudget.lands_bind ?_
  rintro n _ _ ⟨rfl, rfl⟩
  refine h.bind (fun e s' pos' h => h.1 e rfl) fun t s' pos' h => ?_
  obtain ⟨a, rfl, ha⟩ := h.2 t rfl
  exact Succeeds.lands ((succeeds_pure a).mpr ha)

end JsonPull.Reading
