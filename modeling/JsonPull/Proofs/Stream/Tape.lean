import JsonPull.Proofs.Stream.Answer

/-! # A stream as a tape

A source that delivers all of its bytes and never fails answers every question as a plain list of
bytes does, in whatever pieces it delivers them. -/

namespace JsonPull

/-- A part of a script that neither fails nor cancels, for a source that waits in this way. -/
def Part.isQuiet (waiting : Waiting) : Part → Bool
  | bytes _ _ => true
  | failure _ => false
  | interrupted => waiting == .blocking
  | pending => true
  | cancel => false

/-- A part of a script that brings something, or only delays what comes behind it. -/
def Part.isSteady (waiting : Waiting) : Part → Bool
  | bytes data start => start < data.size
  | part => part.isQuiet waiting

/-- How a list of bytes answers a question at an offset. -/
def tape (stream : List UInt8) : (q : Query) → Nat → q.Answer × Nat
  | .byte ahead _, pos => (.ok stream[pos + ahead]?, pos)
  | .advance count, pos => ((), pos + count)
  | .settle, pos => ((), pos)
  | .cursor, pos => (pos, pos)
  | .past count, pos => (pos + count, pos)
  | .behind count, pos => (pos - count, pos)
  | .hold _ _, pos => ((), pos)
  | .slice first last, pos => (some ((stream.drop first).take (last - first)), pos)
  | .resolve first last, pos => (some ((stream.drop first).take (last - first)), pos)
  | .budget, pos => (stream.length - pos, pos)

namespace Source

/-- No read fails, and none cancels the call that waits for it. -/
def Quiet (source : Source) : Prop :=
  ∀ part ∈ source.script, part.isQuiet source.waiting = true

/-- A source that delivers all of its bytes, in whatever parts, and never fails. -/
structure Steady (source : Source) : Prop where
  fair : source.Fair
  quiet : source.Quiet

theorem steady_iff (source : Source) : source.Steady ↔ source.isOpen = true ∧
    source.limit ≠ some 0 ∧ ∀ part ∈ source.script, part.isSteady source.waiting = true := by
  constructor
  · intro h
    refine ⟨h.fair.isOpen, h.fair.limit, fun part hmem => ?_⟩
    have hquiet := h.quiet part hmem
    cases part with
    | bytes data start => exact decide_eq_true (h.fair.filled data start hmem)
    | failure | interrupted | pending | cancel => exact hquiet
  · rintro ⟨hopen, hlimit, hparts⟩
    refine ⟨⟨hopen, hlimit, fun data start hmem => of_decide_eq_true (hparts _ hmem)⟩, ?_⟩
    intro part hmem
    have hpart := hparts part hmem
    cases part with
    | bytes data start => rfl
    | failure | interrupted | pending | cancel => exact hpart

instance (source : Source) : Decidable source.Steady :=
  decidable_of_iff _ source.steady_iff.symm

theorem play_quiet {waiting : Waiting} {room : Nat} {script : List Part}
    (h : ∀ part ∈ script, part.isQuiet waiting = true) :
    (∃ data, (play waiting room script).result = .ok data) ∧
      (play waiting room script).cancels = false ∧
      ∀ part ∈ (play waiting room script).script, part.isQuiet waiting = true := by
  induction script with
  | nil => exact ⟨⟨_, rfl⟩, rfl, h⟩
  | cons part rest ih =>
      have hpart := h part (List.mem_cons_self ..)
      have hrest : ∀ part ∈ rest, part.isQuiet waiting = true :=
        fun part hmem => h part (List.mem_cons_of_mem _ hmem)
      cases part with
      | bytes block first =>
          refine ⟨⟨_, rfl⟩, rfl, ?_⟩
          intro part hmem
          simp only [play, takeBytes] at hmem
          split at hmem
          · exact hrest part hmem
          · rcases List.mem_cons.mp hmem with heq | hmem
            · rw [heq]
              rfl
            · exact hrest part hmem
      | failure message => cases hpart
      | interrupted =>
          cases waiting with
          | blocking => exact ih hrest
          | polled => cases hpart
      | pending => cases waiting <;> exact ih hrest
      | cancel => cases hpart

theorem Quiet.read {source : Source} (h : source.Quiet) (room : Nat) :
    (∃ data, (source.read room).1.result = .ok data) ∧
      (source.read room).1.cancels = false ∧ (source.read room).2.Quiet := by
  unfold Source.read
  split
  · exact play_quiet h
  · exact ⟨⟨_, rfl⟩, rfl, h⟩

end Source

namespace Feed

variable {stream delivered : List UInt8} {feed : Feed} {retain : Retain}

/-- Every fetch succeeds, and brings something as long as anything is left. -/
structure Steady (feed : Feed) : Prop where
  fair : feed.Fair
  quiet : feed.source.Quiet
  cancelled : feed.cancelled = false

theorem cancelled_makeRoom (feed : Feed) (required : Nat) (retain : Retain) :
    (feed.makeRoom required retain).cancelled = feed.cancelled := by
  unfold makeRoom
  split <;> rfl

theorem fetch_steady (h : feed.Steady) (required : Nat) (retain : Retain) :
    (∃ n, (feed.fetch required retain).1 = .ok n) ∧
      (feed.fetch required retain).2.source.Quiet ∧
      (feed.fetch required retain).2.cancelled = false := by
  unfold fetch
  by_cases hended : feed.window.ended
  · simp only [hended, if_true]
    exact ⟨⟨0, rfl⟩, h.quiet, h.cancelled⟩
  have hcancel : (feed.heedsCancel && feed.cancelled) = false := by simp [h.cancelled]
  simp only [hended, hcancel, Bool.false_eq_true, if_false]
  have hsource := feed.source_makeRoom required retain
  have hcancelled := feed.cancelled_makeRoom required retain
  generalize feed.makeRoom required retain = roomy at hsource hcancelled ⊢
  have hquiet := (hsource.symm ▸ h.quiet : roomy.source.Quiet).read roomy.window.spare
  generalize roomy.source.read roomy.window.spare = outcome at hquiet ⊢
  obtain ⟨delivery, source⟩ := outcome
  obtain ⟨⟨data, hresult⟩, hcancels, hquiet⟩ := hquiet
  dsimp only at hresult hcancels hquiet
  simp only [hresult, hcancels, hcancelled, h.cancelled]
  exact ⟨⟨_, rfl⟩, hquiet, rfl⟩

theorem Follows.length_eq (h : feed.Follows stream delivered) :
    delivered.length + feed.source.bytes.length = stream.length := by
  rw [← h.split, List.length_append]

/-- A byte that a fair source was asked for is delivered, or nothing is left of the source. -/
theorem ensure_fair (h : feed.Fair) (hfollows : feed.Follows stream delivered) {ahead missing : Nat}
    (retain : Retain) (hmissing : feed.window.pos + ahead + 1 ≤ feed.window.used + missing)
    (hok : (ensure ahead retain missing feed).1 = .ok ()) :
    ∃ delivered', Feeds stream retain delivered feed (ensureEvents ahead retain missing feed)
        delivered' (ensure ahead retain missing feed).2 ∧
      (feed.window.cursor + ahead < delivered'.length ∨
        (ensure ahead retain missing feed).2.source.bytes = []) := by
  obtain ⟨delivered', hfeeds⟩ := feeds_ensure hfollows ahead retain missing
  refine ⟨delivered', hfeeds, (ensure_brings hmissing hok).imp (fun hlt => ?_) fun hended => ?_⟩
  · rw [← hfeeds.cursor, ← hfeeds.follows.holds.fetched, Window.cursor]
    omega
  · exact (hfeeds.fair h).ended hended

theorem ensure_steady (h : feed.Steady) (hfollows : feed.Follows stream delivered) (ahead : Nat)
    (retain : Retain) (missing : Nat) :
    (ensure ahead retain missing feed).1 = .ok () ∧ (ensure ahead retain missing feed).2.Steady := by
  induction missing generalizing feed delivered with
  | zero => exact ⟨rfl, h⟩
  | succ missing ih =>
      unfold ensure
      split
      · exact ⟨rfl, h⟩
      obtain ⟨delivered₁, h₁⟩ :=
        feeds_fetch hfollows (feed.window.pos + ahead + 1 - feed.window.used) retain
      obtain ⟨⟨n, hok⟩, hquiet, hcancelled⟩ :=
        fetch_steady h (feed.window.pos + ahead + 1 - feed.window.used) retain
      generalize feed.fetch (feed.window.pos + ahead + 1 - feed.window.used) retain = outcome
        at h₁ hok hquiet hcancelled ⊢
      obtain ⟨result, feed₁⟩ := outcome
      dsimp only at h₁ hok hquiet hcancelled
      have hsteady₁ : feed₁.Steady := ⟨h₁.fair h.fair, hquiet, hcancelled⟩
      subst hok
      cases n with
      | zero => exact ⟨rfl, hsteady₁⟩
      | succ n => exact ih hsteady₁ h₁.follows

/-- The fetches before a byte is looked up decide whether it is answered. -/
theorem ensure_of_byte? {ahead : Nat} (h : (feed.byte? ahead retain).1.isOk = true) :
    (ensure ahead retain (feed.window.pos + ahead + 1 - feed.window.used) feed).1 = .ok () := by
  unfold Feed.byte? at h
  dsimp only at h
  split at h
  · rename_i hensure
    rw [hensure]
  · cases h

theorem byte?_of_ensured {ahead : Nat}
    (h : (ensure ahead retain (feed.window.pos + ahead + 1 - feed.window.used) feed).1 = .ok ()) :
    (feed.byte? ahead retain).1 = .ok ((feed.byte? ahead retain).2.window.byte? ahead) := by
  unfold Feed.byte?
  dsimp only
  split <;> simp_all

theorem byte?_fair (h : feed.Fair) (hfollows : feed.Follows stream delivered) {ahead : Nat}
    (hok : (feed.byte? ahead retain).1.isOk = true) :
    (feed.byte? ahead retain).1 = .ok stream[feed.window.cursor + ahead]? ∧
      (feed.byte? ahead retain).2.window.cursor = feed.window.cursor := by
  have hensured := ensure_of_byte? hok
  have hlookup := byte?_of_ensured hensured
  obtain ⟨delivered', hfeeds, hbyte⟩ := ensure_fair h hfollows retain (by omega) hensured
  rw [← snd_byte?] at hfeeds hbyte
  refine ⟨?_, hfeeds.cursor⟩
  rw [hlookup, hfeeds.follows.holds.byte?, hfeeds.cursor, ← hfeeds.follows.split]
  congr 1
  rcases hbyte with hlt | hnone
  · exact (List.getElem?_append_left hlt).symm
  · rw [hnone, List.append_nil]

theorem byte?_steady (h : feed.Steady) (hfollows : feed.Follows stream delivered) (ahead : Nat)
    (retain : Retain) :
    (feed.byte? ahead retain).1.isOk = true ∧ (feed.byte? ahead retain).2.Steady := by
  obtain ⟨hok, hsteady⟩ := ensure_steady h hfollows ahead retain
    (feed.window.pos + ahead + 1 - feed.window.used)
  rw [← snd_byte?] at hsteady
  rw [byte?_of_ensured hok]
  exact ⟨rfl, hsteady⟩

/-- What the window holds is the part of the stream at the same offsets. -/
theorem Follows.slice? (h : feed.Follows stream delivered) {first last : Nat}
    (hfirst : feed.window.consumed ≤ first) (hle : first ≤ last)
    (hlast : last ≤ delivered.length) :
    feed.window.slice? first last = some ((stream.drop first).take (last - first)) := by
  have hfetched := h.holds.fetched
  rw [h.holds.slice? hfirst hle (by omega), ← h.split,
    List.drop_append_of_le_length (hle.trans hlast), List.take_append_of_le_length]
  rw [List.length_drop]
  omega

theorem Follows.budget_eq (h : feed.Follows stream delivered) :
    feed.budget = stream.length - feed.window.cursor := by
  have hfetched := h.holds.fetched
  have hpos := h.holds.pos_le
  have hlength := h.length_eq
  rw [Source.length_bytes] at hlength
  unfold budget Window.unreadCount Window.cursor
  omega

/-- A fair feed answers a permitted question as the tape does, unless it meets a fault. -/
theorem answer_fair {d : Reach stream.length} (h : feed.Fair)
    (hfits : feed.Fits stream delivered d) {q : Query} (hq : q.Permitted d)
    (hfault : q.isFault (answer q feed).1 = false) :
    (answer q feed).1 = (tape stream q d.pos).1 ∧
      (answer q feed).2.window.cursor = (tape stream q d.pos).2 := by
  rw [hfits.cursor]
  have hslice : ∀ {first last}, (Query.slice first last).Permitted d →
      feed.window.slice? first last = some ((stream.drop first).take (last - first)) :=
    fun ⟨hfirst, hle, hlast⟩ =>
      hfits.follows.slice? (hfits.consumed_le hfirst) hle (hlast.trans hfits.seen)
  cases q with
  | byte ahead retain =>
      change (!(feed.byte? ahead retain).1.isOk) = false at hfault
      exact byte?_fair h hfits.follows (by simpa using hfault)
  | advance count => exact ⟨rfl, feed.window.cursor_advance count⟩
  | settle => exact ⟨rfl, feed.window.cursor_settle⟩
  | cursor => exact ⟨rfl, rfl⟩
  | past count => exact ⟨rfl, rfl⟩
  | behind count => exact ⟨rfl, rfl⟩
  | hold first last => exact ⟨rfl, rfl⟩
  | slice first last => exact ⟨hslice hq, rfl⟩
  | resolve first last => exact ⟨hslice (Query.permitted_slice hq), rfl⟩
  | budget => exact ⟨hfits.follows.budget_eq, rfl⟩

theorem answer_steady (h : feed.Steady) (hfollows : feed.Follows stream delivered) (q : Query) :
    q.isFault (answer q feed).1 = false ∧ (answer q feed).2.Steady := by
  cases q with
  | byte ahead retain =>
      obtain ⟨hok, hsteady⟩ := byte?_steady h hfollows ahead retain
      refine ⟨?_, hsteady⟩
      change (!(feed.byte? ahead retain).1.isOk) = false
      rw [hok, Bool.not_true]
  | advance count => exact ⟨rfl, ⟨h.fair.source, h.fair.ended⟩, h.quiet, h.cancelled⟩
  | settle =>
      refine ⟨rfl, ⟨h.fair.source, ?_⟩, h.quiet, h.cancelled⟩
      exact fun he => h.fair.ended (feed.window.ended_settle.symm.trans he)
  | cursor => exact ⟨rfl, h⟩
  | past count => exact ⟨rfl, h⟩
  | behind count => exact ⟨rfl, h⟩
  | hold first last => exact ⟨rfl, h⟩
  | slice first last => exact ⟨rfl, h⟩
  | resolve first last => exact ⟨rfl, h⟩
  | budget => exact ⟨rfl, h⟩

variable {α : Type}

/-- A fair feed runs a scan that only asks permitted questions as the tape does, unless it meets a
fault. -/
theorem run_fair {post : α → Reach stream.length → Prop} {scan : Scan α}
    {d : Reach stream.length} (h : feed.Fair) (hfits : feed.Fits stream delivered d)
    (hscan : scan.Ensures post d) :
    ∃ d', post (feed.run scan).1 d' ∧ (d.faulted = true → d'.faulted = true) ∧
      (d'.faulted = false →
        (feed.run scan).1 = (scan.runWith (tape stream) d.pos).1 ∧
          (feed.run scan).2.window.cursor = (scan.runWith (tape stream) d.pos).2) := by
  induction scan generalizing feed d delivered with
  | done a => exact ⟨d, hscan, id, fun _ => ⟨rfl, hfits.cursor.symm⟩⟩
  | ask q next ih =>
      obtain ⟨d₁, delivered₁, hyields, h₁⟩ := answer_yields hfits hscan.1
      have hfaulted := hyields.faulted_eq
      obtain ⟨d', hpost, hkeeps, htape⟩ :=
        ih _ (h₁.fair h) h₁.fits (hscan.2 _ d₁ hyields)
      refine ⟨d', hpost, fun hd => hkeeps ?_, fun hd' => ?_⟩
      · rw [hfaulted, hd, Bool.or_true]
      · have hcalm : d₁.faulted = false := by
          rw [← Bool.not_eq_true]
          exact fun hd₁ => absurd (hkeeps hd₁) (by simp [hd'])
        rw [hfaulted, Bool.or_eq_false_iff] at hcalm
        obtain ⟨hanswer, hcursor⟩ := answer_fair h hfits hscan.1 hcalm.1
        have hrest := htape hd'
        rw [h₁.fits.cursor, hcursor] at hrest
        have hrun : feed.run (.ask q next) = (answer q feed).2.run (next (answer q feed).1) := rfl
        rw [hrun, Scan.runWith]
        dsimp only
        rw [← hanswer]
        exact hrest

/-- A steady feed runs a scan that only asks permitted questions as the tape does. -/
theorem run_tape {post : α → Reach stream.length → Prop} {scan : Scan α}
    {d : Reach stream.length} (h : feed.Steady) (hfits : feed.Fits stream delivered d)
    (hscan : scan.Ensures post d) :
    (feed.run scan).1 = (scan.runWith (tape stream) d.pos).1 ∧
      (feed.run scan).2.window.cursor = (scan.runWith (tape stream) d.pos).2 ∧
      (feed.run scan).2.Steady := by
  induction scan generalizing feed d delivered with
  | done a => exact ⟨rfl, hfits.cursor.symm, h⟩
  | ask q next ih =>
      obtain ⟨hfault, hsteady⟩ := answer_steady h hfits.follows q
      obtain ⟨hanswer, hcursor⟩ := answer_fair h.fair hfits hscan.1 hfault
      obtain ⟨d₁, delivered₁, hyields, h₁⟩ := answer_yields hfits hscan.1
      have hrest := ih _ hsteady h₁.fits (hscan.2 _ d₁ hyields)
      rw [h₁.fits.cursor, hcursor] at hrest
      have hrun : feed.run (.ask q next) = (answer q feed).2.run (next (answer q feed).1) := rfl
      rw [hrun, Scan.runWith]
      dsimp only
      rw [← hanswer]
      exact hrest

end Feed

end JsonPull
