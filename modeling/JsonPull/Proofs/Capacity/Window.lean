import JsonPull.Proofs.Stream.Pool
import JsonPull.Proofs.Stream.Tape

/-! # How large a window grows

A window doubles where all held bytes must stay and the byte that is asked for does not fit behind
them. Where it was settled, less than nine tenths of it lie before what is kept from there on. So it
doubles only below ten times what is kept, and never exceeds twenty times as much. -/

namespace JsonPull

variable {stream delivered : List UInt8} {reach limit ahead : Nat} {settled : Option Nat}
  {w : Window} {feed : Feed} {retain : Retain}

/-! ## What is known of a window -/

/-- What is known of a window over a stream: its cursor, that the bytes before `seen` were fetched,
whether the end was met, and where it was settled, if no bytes behind that were dropped since. -/
structure Horizon where
  pos : Nat
  seen : Nat
  ended : Bool
  settled : Option Nat

namespace Horizon

/-- What is known after a question. -/
def after (stream : List UInt8) : Query → Horizon → Horizon
  | .byte ahead retain, h =>
    { h with
      seen := if h.pos + ahead < stream.length then max h.seen (h.pos + ahead + 1) else h.seen
      ended := h.ended || decide (stream.length ≤ h.pos + ahead)
      settled := retain.select h.settled none }
  | .advance count, h => { h with pos := h.pos + count }
  | .settle, h => { h with settled := some h.pos }
  | _, h => h

theorem pos_after (stream : List UInt8) (q : Query) (h : Horizon) :
    (h.after stream q).pos = (tape stream q h.pos).2 := by
  cases q <;> rfl

end Horizon

/-- A question for a byte that is held, or behind the end that was met, or less than `reach` bytes
behind the first one to be kept for it: the one at the cursor, or where the window was settled. -/
def Query.InReach (reach : Nat) (h : Horizon) : Query → Prop
  | byte ahead retain => h.pos + ahead < h.seen ∨ h.ended = true ∨
      ∃ first ∈ retain.select h.settled (some h.pos), h.pos + ahead < first + reach
  | _ => True

/-- Along the run of a scan on a tape, all questions are in reach. It ends as `last` says. -/
def Scan.Confined {α : Type} (stream : List UInt8) (reach : Nat) (last : α → Horizon → Prop) :
    Scan α → Horizon → Prop
  | done a, h => last a h
  | ask q next, h => q.InReach reach h ∧
      (next (tape stream q h.pos).1).Confined stream reach last (h.after stream q)

namespace Window

theorem Holds.capacity_moveInto (h : w.Holds delivered) (block : ByteArray) (start : Nat)
    (hblock : w.used - start ≤ block.size) : (w.moveInto block start).capacity = block.size := by
  have hused : w.used ≤ w.data.size := h.used_le
  simp only [Window.moveInto, capacity, ByteArray.size_append, ByteArray.size_extract]
  omega

theorem Holds.capacity_commit (h : w.Holds delivered) {bytes : ByteArray}
    (hbytes : bytes.size ≤ w.spare) : (w.commit bytes).capacity = w.capacity := by
  have hused : w.used ≤ w.data.size := h.used_le
  have hspare : bytes.size ≤ w.data.size - w.used := hbytes
  change (bytes.copySlice 0 w.data w.used bytes.size).size = w.data.size
  rw [← length_toList, toList_splice]
  simp only [List.length_append, List.length_take, List.length_drop, length_toList]
  omega

/-- A window of at most `limit` bytes, of which less than nine tenths lie before where it was
settled. -/
structure Modest (limit : Nat) (settled : Option Nat) (w : Window) : Prop where
  capacity_le : w.capacity ≤ limit
  spacious : ∀ first ∈ settled, w.consumed ≤ first ∧
    (first = w.consumed ∨ first + w.capacity / 10 < w.consumed + w.capacity)

theorem modest_none (h : w.capacity ≤ limit) : w.Modest limit none :=
  ⟨h, nofun⟩

theorem Modest.select (h : w.Modest limit settled) (retain : Retain) :
    w.Modest limit (retain.select settled none) := by
  cases retain with
  | all => exact h
  | unread => exact modest_none h.capacity_le

theorem Modest.settle (h : w.Modest limit settled) (hw : w.Holds delivered) :
    w.settle.Modest limit (some w.cursor) := by
  have hcapacity := hw.capacity_compact
  have hcursor := w.cursor_compact
  have hpos : w.compact.pos = 0 := rfl
  have hle := h.capacity_le
  unfold Window.settle
  split
  · refine ⟨by omega, ?_⟩
    rintro _ ⟨⟩
    unfold cursor at hcursor ⊢
    omega
  · rename_i hstays
    refine ⟨hle, ?_⟩
    rintro _ ⟨⟩
    unfold cursor
    by_cases hzero : w.pos = 0
    · omega
    · have hfar : ¬ w.capacity - w.pos ≤ w.capacity / 10 := fun hnear =>
        hstays ⟨.inl hnear, Nat.pos_of_ne_zero hzero⟩
      omega

/-- A window that is doubled for a byte in reach held less than ten times what is kept. -/
theorem Modest.grown (h : w.Modest limit settled) (hw : w.Holds delivered) {block : ByteArray}
    {first : Nat} (hfirst : first ∈ settled) (hreach : w.cursor + ahead < first + reach)
    (hfull : w.capacity ≤ w.pos + ahead + 1) (hmissing : w.used ≤ w.pos + ahead)
    (hsize : block.size = max (w.capacity * 2) (w.pos + ahead + 2)) (hlimit : 20 * reach ≤ limit) :
    (w.moveInto block 0).Modest limit settled := by
  obtain ⟨hheld, hspacious⟩ := h.spacious first hfirst
  have hcapacity := hw.capacity_moveInto block 0 (by omega)
  unfold cursor at hreach
  refine ⟨by omega, fun first' hfirst' => ?_⟩
  obtain rfl := Option.mem_unique hfirst hfirst'
  rw [hcapacity]
  change w.consumed ≤ first ∧ (first = w.consumed ∨ first + block.size / 10 < w.consumed + block.size)
  omega

end Window

namespace Feed

/-- A feed without a pool, whose window is known to be modest. -/
structure Modest (limit : Nat) (h : Horizon) (feed : Feed) : Prop where
  window : feed.window.Modest limit h.settled
  seen_le : h.seen ≤ feed.window.consumed + feed.window.used
  ended : h.ended = true → feed.window.ended = true
  pool : feed.pool = none

/-- The window that is seen at an event. -/
def Event.window : Event → Window
  | .fetched fetch => fetch.window
  | .paused w => w

/-- No window of more than `limit` bytes is seen. -/
def Bounded (limit : Nat) (events : List Event) : Prop :=
  ∀ event ∈ events, (Event.window event).capacity ≤ limit

theorem bounded_nil (limit : Nat) : Bounded limit [] :=
  fun _ hevent => absurd hevent List.not_mem_nil

theorem Bounded.append {events events' : List Event} (h : Bounded limit events)
    (h' : Bounded limit events') : Bounded limit (events ++ events') :=
  fun event hevent => (List.mem_append.mp hevent).elim (h event) (h' event)

/-! ## Fetches -/

/-- Room for a byte in reach keeps a window modest. -/
theorem modest_makeRoom (hpool : feed.pool = none) (hw : feed.window.Holds delivered)
    (hmodest : feed.window.Modest limit (retain.select settled none))
    (hmissing : feed.window.used ≤ feed.window.pos + ahead)
    (hreach : ∃ first ∈ retain.select settled (some feed.window.cursor),
      feed.window.cursor + ahead < first + reach) (hlimit : 20 * reach ≤ limit) :
    (feed.makeRoom (feed.window.pos + ahead + 1 - feed.window.used) retain).window.Modest limit
        (retain.select settled none) ∧
      (feed.makeRoom (feed.window.pos + ahead + 1 - feed.window.used) retain).pool = none := by
  obtain ⟨first, hfirst, hreach⟩ := hreach
  have hpos := hw.pos_le
  have hrequired : feed.window.used + (feed.window.pos + ahead + 1 - feed.window.used) =
      feed.window.pos + ahead + 1 := by omega
  unfold makeRoom Window.room
  rw [hrequired]
  by_cases henough : feed.window.pos + ahead + 1 < feed.window.capacity
  · rw [if_pos henough]
    exact ⟨hmodest, hpool⟩
  rw [if_neg henough]
  cases retain with
  | all =>
      simp only [rent, hpool, Option.map_none, and_true]
      exact hmodest.grown hw hfirst hreach (by omega) hmissing (Pool.size_zeroBlock _) hlimit
  | unread =>
      obtain rfl : feed.window.cursor = first := Option.some.inj hfirst
      have hcapacity := hmodest.capacity_le
      have hcompact := hw.capacity_compact
      by_cases htight : feed.window.capacity ≤ feed.window.unreadCount +
          (feed.window.pos + ahead + 1 - feed.window.used) + 1
      · simp only [if_pos htight, rent, hpool, Option.map_none, and_true]
        have hunread : feed.window.unreadCount = feed.window.used - feed.window.pos := rfl
        have hsize := hw.capacity_moveInto
          (zeroBlock (feed.window.unreadCount + (feed.window.pos + ahead + 1 - feed.window.used) + 1))
          feed.window.pos (by rw [Pool.size_zeroBlock]; omega)
        rw [Pool.size_zeroBlock] at hsize
        exact Window.modest_none (hsize.trans_le (by omega))
      · simp only [if_neg htight]
        exact ⟨Window.modest_none (hcompact.trans_le hcapacity), hpool⟩

theorem modest_fetch (hpool : feed.pool = none) (hw : feed.window.Holds delivered)
    (hmodest : feed.window.Modest limit (retain.select settled none))
    (hmissing : feed.window.used ≤ feed.window.pos + ahead)
    (hreach : ∃ first ∈ retain.select settled (some feed.window.cursor),
      feed.window.cursor + ahead < first + reach) (hlimit : 20 * reach ≤ limit) :
    (feed.fetch (feed.window.pos + ahead + 1 - feed.window.used) retain).2.window.Modest limit
        (retain.select settled none) ∧
      (feed.fetch (feed.window.pos + ahead + 1 - feed.window.used) retain).2.pool = none ∧
      Bounded limit (feed.fetchEvents (feed.window.pos + ahead + 1 - feed.window.used) retain) := by
  obtain ⟨hroomy, hpool'⟩ := modest_makeRoom hpool hw hmodest hmissing hreach hlimit
  have hholds := (feed.roomier_makeRoom
    (feed.window.pos + ahead + 1 - feed.window.used) retain).holds hw
  refine and_assoc.mp ⟨?_, ?_⟩
  · unfold fetch
    split
    · exact ⟨hmodest, hpool⟩
    split
    · exact ⟨hmodest, hpool⟩
    dsimp only
    split
    · rename_i bytes hbytes
      have hcapacity := hholds.capacity_commit (Source.read_size hbytes)
      refine ⟨⟨hcapacity.trans_le hroomy.capacity_le, ?_⟩, hpool'⟩
      rw [hcapacity]
      exact hroomy.spacious
    · exact ⟨hroomy, hpool'⟩
  · unfold fetchEvents
    split
    · exact bounded_nil limit
    · intro event hevent
      obtain rfl := List.mem_singleton.mp hevent
      exact hroomy.capacity_le

theorem modest_ensure (hpool : feed.pool = none) (hfollows : feed.Follows stream delivered)
    (hmodest : feed.window.Modest limit (retain.select settled none))
    (hreach : ∃ first ∈ retain.select settled (some feed.window.cursor),
      feed.window.cursor + ahead < first + reach) (hlimit : 20 * reach ≤ limit) (missing : Nat) :
    (ensure ahead retain missing feed).2.window.Modest limit (retain.select settled none) ∧
      (ensure ahead retain missing feed).2.pool = none ∧
      Bounded limit (ensureEvents ahead retain missing feed) := by
  induction missing generalizing feed delivered with
  | zero => exact ⟨hmodest, hpool, bounded_nil limit⟩
  | succ missing ih =>
      unfold ensure ensureEvents
      split
      · exact ⟨hmodest, hpool, bounded_nil limit⟩
      rename_i hmissing
      obtain ⟨hmodest₁, hpool₁, hevents⟩ := modest_fetch hpool hfollows.holds hmodest
        (Nat.le_of_not_lt hmissing) hreach hlimit
      obtain ⟨delivered₁, hfeeds⟩ := feeds_fetch hfollows
        (feed.window.pos + ahead + 1 - feed.window.used) retain
      rw [← hfeeds.cursor] at hreach
      dsimp only
      generalize feed.fetch (feed.window.pos + ahead + 1 - feed.window.used) retain = outcome
        at hmodest₁ hpool₁ hfeeds hreach ⊢
      obtain ⟨result, feed₁⟩ := outcome
      have hlast := hevents.append (bounded_nil limit)
      cases result with
      | error fault => exact ⟨hmodest₁, hpool₁, hlast⟩
      | ok n =>
          cases n with
          | zero => exact ⟨hmodest₁, hpool₁, hlast⟩
          | succ n =>
              obtain ⟨hmodest₂, hpool₂, hevents₂⟩ := ih hpool₁ hfeeds.follows hmodest₁ hreach
              exact ⟨hmodest₂, hpool₂, hevents.append hevents₂⟩

/-- Nothing is fetched for a byte that is held, or behind the end. -/
theorem ensure_held (h : feed.window.pos + ahead < feed.window.used ∨ feed.window.ended = true)
    (retain : Retain) (missing : Nat) : (ensure ahead retain missing feed).2 = feed ∧
      ensureEvents ahead retain missing feed = [] := by
  cases missing with
  | zero => exact ⟨rfl, rfl⟩
  | succ missing =>
      unfold ensure ensureEvents
      split
      · exact ⟨rfl, rfl⟩
      rename_i hmissing
      have hended := h.resolve_left hmissing
      have hfetch : feed.fetch (feed.window.pos + ahead + 1 - feed.window.used) retain =
          (.ok 0, feed) := by
        unfold fetch
        rw [if_pos hended]
      simp only [hfetch, fetchEvents, hended, Bool.true_or, if_true, List.append_nil, and_self]

/-- A byte that is asked for is held afterwards, or the end was met. -/
theorem byte?_brings (h : feed.Steady) (hfollows : feed.Follows stream delivered) (ahead : Nat)
    (retain : Retain) :
    if feed.window.cursor + ahead < stream.length then
      feed.window.cursor + ahead < (feed.byte? ahead retain).2.window.consumed +
        (feed.byte? ahead retain).2.window.used
    else (feed.byte? ahead retain).2.window.ended = true := by
  obtain ⟨hensured, -⟩ := ensure_steady h hfollows ahead retain
    (feed.window.pos + ahead + 1 - feed.window.used)
  obtain ⟨delivered', hfeeds⟩ := feeds_ensure hfollows ahead retain
    (feed.window.pos + ahead + 1 - feed.window.used)
  have hbrings := ensure_brings (by omega) hensured
  rw [← snd_byte?] at hfeeds hbrings
  have hcursor : (feed.byte? ahead retain).2.window.consumed +
      (feed.byte? ahead retain).2.window.pos = feed.window.cursor := hfeeds.cursor
  have hfetched := hfeeds.follows.holds.fetched
  have hlength := hfeeds.follows.length_eq
  split
  · rcases hbrings with hheld | hended
    · omega
    · rw [(hfeeds.fair h.fair).ended hended] at hlength
      simp only [List.length_nil] at hlength
      omega
  · rcases hbrings with hheld | hended
    · omega
    · exact hended

/-- A window from which a byte in reach is asked for stays modest, and what was known of it stays
true. -/
theorem modest_byte? {h : Horizon} (hfollows : feed.Follows stream delivered)
    (hpos : h.pos = feed.window.cursor) (hreach : (Query.byte ahead retain).InReach reach h)
    (hmodest : feed.Modest limit h) (hlimit : 20 * reach ≤ limit) :
    (feed.byte? ahead retain).2.Modest limit { h with settled := retain.select h.settled none } ∧
      Bounded limit
        (ensureEvents ahead retain (feed.window.pos + ahead + 1 - feed.window.used) feed) := by
  have hcursor : feed.window.cursor = feed.window.consumed + feed.window.pos := rfl
  have hseen := hmodest.seen_le
  have hwindow := hmodest.window.select retain
  rw [snd_byte?]
  by_cases hheld : feed.window.pos + ahead < feed.window.used ∨ feed.window.ended = true
  · obtain ⟨hsame, hevents⟩ := ensure_held hheld retain
      (feed.window.pos + ahead + 1 - feed.window.used)
    rw [hsame, hevents]
    exact ⟨⟨hwindow, hseen, hmodest.ended, hmodest.pool⟩, bounded_nil limit⟩
  · have hreach : ∃ first ∈ retain.select h.settled (some feed.window.cursor),
        feed.window.cursor + ahead < first + reach := by
      rw [← hpos]
      rcases hreach with hlt | hended | hreach
      · exact absurd (.inl (by omega)) hheld
      · exact absurd (.inr (hmodest.ended hended)) hheld
      · exact hreach
    obtain ⟨hwindow', hpool, hevents⟩ := modest_ensure hmodest.pool hfollows hwindow hreach hlimit
      (feed.window.pos + ahead + 1 - feed.window.used)
    obtain ⟨delivered', hfeeds⟩ := feeds_ensure hfollows ahead retain
      (feed.window.pos + ahead + 1 - feed.window.used)
    have hlength := hfeeds.course.length_le
    have hfetched := hfollows.holds.fetched
    have hfetched' := hfeeds.follows.holds.fetched
    exact ⟨⟨hwindow', by dsimp only; omega, fun he => absurd (.inr (hmodest.ended he)) hheld, hpool⟩,
      hevents⟩

/-! ## Questions -/

/-- A question in reach keeps a window modest. -/
theorem modest_answer {d : Reach stream.length} {h : Horizon} (hsteady : feed.Steady)
    (hfits : feed.Fits stream delivered d) (hpos : h.pos = d.pos) {q : Query} (hq : q.Permitted d)
    (hreach : q.InReach reach h) (hmodest : feed.Modest limit h) (hlimit : 20 * reach ≤ limit) :
    (answer q feed).2.Modest limit (h.after stream q) ∧ Bounded limit (answerEvents q feed) := by
  have hholds := hfits.follows.holds
  cases q with
  | byte ahead retain =>
      have hcursor : h.pos = feed.window.cursor := hpos.trans hfits.cursor
      have hbrings := byte?_brings hsteady hfits.follows ahead retain
      rw [← hcursor] at hbrings
      obtain ⟨⟨hwindow, hseen, hended, hpool⟩, hevents⟩ :=
        modest_byte? hfits.follows hcursor hreach hmodest hlimit
      refine ⟨⟨hwindow, ?_, ?_, hpool⟩, hevents⟩
      · change (if h.pos + ahead < stream.length then max h.seen (h.pos + ahead + 1) else h.seen) ≤
          (feed.byte? ahead retain).2.window.consumed + (feed.byte? ahead retain).2.window.used
        split at hbrings
        · rename_i hlt
          rw [if_pos hlt]
          exact max_le hseen hbrings
        · rename_i hge
          rw [if_neg hge]
          exact hseen
      · change (h.ended || decide (stream.length ≤ h.pos + ahead)) = true → _
        rw [Bool.or_eq_true, decide_eq_true_iff]
        rintro (he | hge)
        · exact hended he
        · rwa [if_neg (Nat.not_lt.mpr hge)] at hbrings
  | advance count =>
      exact ⟨⟨⟨hmodest.window.capacity_le, hmodest.window.spacious⟩, hmodest.seen_le, hmodest.ended,
        hmodest.pool⟩, bounded_nil limit⟩
  | settle =>
      have hsettled : h.pos = feed.window.cursor := hpos.trans hfits.cursor
      have hfetched := hholds.fetched.trans hholds.settle.fetched.symm
      refine ⟨⟨?_, hmodest.seen_le.trans hfetched.le, ?_, hmodest.pool⟩, bounded_nil limit⟩
      · change feed.window.settle.Modest limit (some h.pos)
        rw [hsettled]
        exact hmodest.window.settle hholds
      · exact fun hended => feed.window.ended_settle.trans (hmodest.ended hended)
  | cursor | past | behind | hold | slice | resolve | budget =>
      exact ⟨hmodest, bounded_nil limit⟩

/-- A scan of which all questions are in reach keeps a window modest. -/
theorem modest_run {α : Type} {post : α → Reach stream.length → Prop}
    {last : α → Horizon → Prop} {scan : Scan α} {d : Reach stream.length} {h : Horizon}
    (hsteady : feed.Steady) (hfits : feed.Fits stream delivered d) (hscan : scan.Ensures post d)
    (hpos : h.pos = d.pos) (hconfined : scan.Confined stream reach last h)
    (hmodest : feed.Modest limit h) (hlimit : 20 * reach ≤ limit) :
    Bounded limit (scanEvents scan feed) ∧ ∃ h', last (feed.run scan).1 h' ∧
      (feed.run scan).2.Modest limit h' ∧ h'.pos = (feed.run scan).2.window.cursor := by
  induction scan generalizing feed d delivered h with
  | done a => exact ⟨bounded_nil limit, h, hconfined, hmodest, hpos.trans hfits.cursor⟩
  | ask q next ih =>
      obtain ⟨hfault, hsteady₁⟩ := answer_steady hsteady hfits.follows q
      obtain ⟨hanswer, hcursor⟩ := answer_fair hsteady.fair hfits hscan.1 hfault
      obtain ⟨d₁, delivered₁, hyields, h₁⟩ := answer_yields hfits hscan.1
      obtain ⟨hmodest₁, hevents⟩ :=
        modest_answer hsteady hfits hpos hscan.1 hconfined.1 hmodest hlimit
      have hpos₁ : (h.after stream q).pos = d₁.pos := by
        rw [h.pos_after stream q, h₁.fits.cursor, hcursor, hpos]
      have hrest := hconfined.2
      rw [hpos, ← hanswer] at hrest
      obtain ⟨hevents₁, hrun⟩ :=
        ih _ hsteady₁ h₁.fits (hscan.2 _ d₁ hyields) hpos₁ hrest hmodest₁
      refine ⟨hevents.append (List.forall_mem_cons.mpr ⟨?_, hevents₁⟩), hrun⟩
      exact hmodest₁.window.capacity_le

end Feed

end JsonPull
