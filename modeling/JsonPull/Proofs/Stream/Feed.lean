import JsonPull.Proofs.Stream.Source
import JsonPull.Stream.Scan

/-! # What a feed does to its window

Making room moves bytes and loses none, and leaves more room than was required. Each fetch adds
what the source delivers, and a fetch that brings nothing is the last one. -/

namespace JsonPull

variable {delivered : List UInt8} {feed : Feed} {required : Nat} {retain : Retain}

theorem Pool.le_size_rent (pool : Pool) (size : Nat) : size ≤ (pool.rent size).1.size := by
  unfold Pool.rent
  dsimp only
  split
  · rename_i i h
    obtain ⟨hi, hsize, -⟩ := List.findIdx?_eq_some_iff_getElem.mp h
    rw [size_zeroBlock, List.getElem?_eq_getElem hi]
    simpa using hsize
  · exact (size_zeroBlock size).ge

namespace Feed

theorem le_size_rent (pool : Option Pool) (size : Nat) : size ≤ (rent pool size).1.size := by
  cases pool with
  | none => exact (Pool.size_zeroBlock size).ge
  | some p => exact p.le_size_rent size

/-! ## Room -/

/-- The ways to make room in a window. -/
inductive Roomier (w : Window) (required : Nat) : Retain → Window → Prop where
  | enough (retain : Retain) (h : w.used + required < w.capacity) : Roomier w required retain w
  | compacted (h : w.unreadCount + required + 1 < w.capacity) :
      Roomier w required .unread w.compact
  | moved (block : ByteArray) (h : w.unreadCount + required + 1 ≤ block.size) :
      Roomier w required .unread (w.moveInto block w.pos).rebase
  | grown (block : ByteArray) (h : w.used + required + 1 ≤ block.size) :
      Roomier w required .all (w.moveInto block 0)

theorem roomier_makeRoom (feed : Feed) (required : Nat) (retain : Retain) :
    Roomier feed.window required retain (feed.makeRoom required retain).window := by
  unfold makeRoom Window.room
  by_cases henough : feed.window.used + required < feed.window.capacity
  · rw [if_pos henough]
    exact .enough retain henough
  · rw [if_neg henough]
    cases retain with
    | all =>
        refine .grown _ (le_trans ?_ (le_size_rent _ _))
        exact Nat.le_max_right _ _
    | unread =>
        dsimp only
        split
        · rename_i hroom
          split at hroom <;> cases hroom
        · rename_i hroom
          split at hroom
          · cases hroom
          · exact .compacted (by omega)
        · rename_i hroom
          split at hroom
          · cases hroom
            exact .moved _ (le_size_rent _ _)
          · cases hroom

namespace Roomier

variable {w w' : Window}

theorem ended (h : Roomier w required retain w') : w'.ended = w.ended := by
  cases h <;> simp only [Window.compact, Window.rebase, Window.moveInto]

theorem cursor (h : Roomier w required retain w') : w'.cursor = w.cursor := by
  cases h with
  | enough => rfl
  | compacted => exact w.cursor_compact
  | moved block => exact Window.cursor_rebase _
  | grown => rfl

theorem consumed (h : Roomier w required retain w') :
    w'.consumed ≤ w.cursor ∧ (retain = .all → w'.consumed = w.consumed) := by
  have hle : w.consumed ≤ w.cursor := Nat.le_add_right _ _
  cases h with
  | enough => exact ⟨hle, fun _ => rfl⟩
  | compacted => exact ⟨le_rfl, nofun⟩
  | moved => exact ⟨le_rfl, nofun⟩
  | grown => exact ⟨hle, fun _ => rfl⟩

theorem holds (h : Roomier w required retain w') (hw : w.Holds delivered) :
    w'.Holds delivered := by
  cases h with
  | enough => exact hw
  | compacted => exact hw.compact
  | moved block => exact hw.moveUnread block
  | grown block hblock => exact hw.moveInto (by omega)

/-- There is room for more than was required. -/
theorem spare (h : Roomier w required retain w') (hw : w.Holds delivered) :
    required < w'.spare := by
  have hpos := hw.pos_le
  have hused : w.used ≤ w.data.size := hw.used_le
  cases h with
  | enough _ h =>
      unfold Window.spare
      omega
  | compacted h =>
      change required < w.compact.capacity - w.unreadCount
      rw [hw.capacity_compact]
      omega
  | moved block h =>
      simp only [Window.spare, Window.rebase, Window.moveInto, Window.capacity,
        Window.unreadCount, ByteArray.size_append, ByteArray.size_extract] at h ⊢
      omega
  | grown block h =>
      simp only [Window.spare, Window.moveInto, Window.capacity, ByteArray.size_append,
        ByteArray.size_extract]
      omega

/-- No unread bytes are dropped. -/
theorem unread (h : Roomier w required retain w') : w'.pos + w.used ≤ w'.used + w.pos := by
  cases h with
  | enough => omega
  | compacted =>
      simp only [Window.compact, Window.rebase, Window.unreadCount]
      omega
  | moved block =>
      simp only [Window.rebase, Window.moveInto, Window.unreadCount]
      omega
  | grown => exact (Nat.add_comm _ _).le

end Roomier

theorem source_makeRoom (feed : Feed) (required : Nat) (retain : Retain) :
    (feed.makeRoom required retain).source = feed.source := by
  unfold makeRoom
  split <;> rfl

theorem offers_makeRoom (feed : Feed) (required : Nat) (retain : Retain) :
    (feed.makeRoom required retain).offers = feed.offers := by
  unfold makeRoom
  split <;> rfl

end Feed

/-! ## Events -/

/-- A read from the source: how many bytes were required, the window with the room that was made for
them, and what the source delivered. -/
structure Fetch where
  required : Nat
  window : Window
  delivery : Delivery

/-- What can be seen of a feed from outside: its fetches, and its window between two questions. -/
inductive Event where
  | fetched (fetch : Fetch)
  | paused (window : Window)

/-- The bytes that an event brought. -/
def Event.bytes : Event → List UInt8
  | fetched fetch => fetch.delivery.bytes
  | paused _ => []

/-- The rooms that an event offered to the source, one for each time it was asked. -/
def Event.rooms : Event → List Nat
  | fetched fetch => List.replicate fetch.delivery.reads fetch.window.spare
  | paused _ => []

/-- A read that brought nothing, though there was room. -/
def Delivery.isLast (delivery : Delivery) : Bool :=
  match delivery.result with
  | .ok data => data.isEmpty
  | .error _ => false

/-- Events that may follow each other: every window holds what was delivered before it, every fetch
finds more room than it required, and there is none behind one that brought nothing. -/
inductive Course : List UInt8 → Bool → List Event → List UInt8 → Bool → Prop where
  | nil (delivered : List UInt8) (ended : Bool) : Course delivered ended [] delivered ended
  | fetched {delivered delivered' : List UInt8} {ended' : Bool} {events : List Event}
      (fetch : Fetch) (hholds : fetch.window.Holds delivered)
      (hspare : fetch.required < fetch.window.spare)
      (hrest : Course (delivered ++ fetch.delivery.bytes) fetch.delivery.isLast events delivered'
        ended') : Course delivered false (.fetched fetch :: events) delivered' ended'
  | paused {delivered delivered' : List UInt8} {ended ended' : Bool} {events : List Event}
      (w : Window) (hholds : w.Holds delivered)
      (hrest : Course delivered ended events delivered' ended') :
      Course delivered ended (.paused w :: events) delivered' ended'

namespace Course

variable {delivered' delivered'' : List UInt8} {ended ended' ended'' : Bool}
  {events events' : List Event}

theorem append (h : Course delivered ended events delivered' ended')
    (h' : Course delivered' ended' events' delivered'' ended'') :
    Course delivered ended (events ++ events') delivered'' ended'' := by
  induction h with
  | nil => exact h'
  | fetched fetch hholds hspare _ ih => exact .fetched fetch hholds hspare (ih h')
  | paused w hholds _ ih => exact .paused w hholds (ih h')

theorem delivered_eq (h : Course delivered ended events delivered' ended') :
    delivered' = delivered ++ events.flatMap Event.bytes := by
  induction h with
  | nil => simp
  | fetched fetch _ _ _ ih => rw [ih, List.flatMap_cons, Event.bytes, List.append_assoc]
  | paused w _ _ ih => rw [ih, List.flatMap_cons, Event.bytes, List.nil_append]

theorem length_le (h : Course delivered ended events delivered' ended') :
    delivered.length ≤ delivered'.length := by
  rw [h.delivered_eq, List.length_append]
  exact Nat.le_add_right _ _

end Course

namespace Feed

/-- What a fetch shows. -/
def fetchEvents (feed : Feed) (required : Nat) (retain : Retain) : List Event :=
  if feed.window.ended || (feed.heedsCancel && feed.cancelled) then []
  else
    let roomy := feed.makeRoom required retain
    [.fetched {
      required
      window := roomy.window
      delivery := (roomy.source.read roomy.window.spare).1 }]

/-- What the fetches for a byte show. -/
def ensureEvents (ahead : Nat) (retain : Retain) : Nat → Feed → List Event
  | 0, _ => []
  | missing + 1, feed =>
    if feed.window.pos + ahead < feed.window.used then []
    else
      let required := feed.window.pos + ahead + 1 - feed.window.used
      feed.fetchEvents required retain ++
        match feed.fetch required retain with
        | (.ok (_ + 1), feed) => ensureEvents ahead retain missing feed
        | _ => []

/-- What the answer to a question shows before it is given. -/
def answerEvents : Query → Feed → List Event
  | .byte ahead retain, feed =>
    ensureEvents ahead retain (feed.window.pos + ahead + 1 - feed.window.used) feed
  | _, _ => []

/-- What a scan on a feed shows. -/
def scanEvents {α : Type} : Scan α → Feed → List Event
  | .done _, _ => []
  | .ask q next, feed =>
    answerEvents q feed ++
      .paused (answer q feed).2.window :: scanEvents (next (answer q feed).1) (answer q feed).2

/-! ## Fetching -/

/-- The window holds what was delivered, and the source has the rest of the stream. -/
structure Follows (stream delivered : List UInt8) (feed : Feed) : Prop where
  holds : feed.window.Holds delivered
  split : delivered ++ feed.source.bytes = stream

/-- The source is fair, and all of its bytes were delivered if it has ended. -/
structure Fair (feed : Feed) : Prop where
  source : feed.source.Fair
  ended : feed.window.ended = true → feed.source.bytes = []

/-- The rooms that events offered, the latest first. -/
def offered (events : List Event) : List Nat :=
  events.reverse.flatMap Event.rooms

theorem offered_append (events events' : List Event) :
    offered (events ++ events') = offered events' ++ offered events := by
  simp only [offered, List.reverse_append, List.flatMap_append]

/-- From one state of a feed to a later one with the same cursor. -/
structure Feeds (stream : List UInt8) (retain : Retain) (delivered : List UInt8) (feed : Feed)
    (events : List Event) (delivered' : List UInt8) (feed' : Feed) : Prop where
  follows : feed'.Follows stream delivered'
  course : Course delivered feed.window.ended events delivered' feed'.window.ended
  cursor : feed'.window.cursor = feed.window.cursor
  consumed : feed'.window.consumed ≤ feed.window.cursor ∧
    (retain = .all → feed'.window.consumed = feed.window.consumed)
  offers : feed'.offers = offered events ++ feed.offers
  fair : feed.Fair → feed'.Fair

variable {stream : List UInt8}

theorem Feeds.refl (h : feed.Follows stream delivered) :
    Feeds stream retain delivered feed [] delivered feed :=
  ⟨h, .nil _ _, rfl, ⟨Nat.le_add_right _ _, fun _ => rfl⟩, rfl, fun h => h⟩

theorem Feeds.trans {delivered₁ delivered₂ : List UInt8} {feed₁ feed₂ : Feed}
    {events events' : List Event} (h : Feeds stream retain delivered feed events delivered₁ feed₁)
    (h' : Feeds stream retain delivered₁ feed₁ events' delivered₂ feed₂) :
    Feeds stream retain delivered feed (events ++ events') delivered₂ feed₂ := by
  refine ⟨h'.follows, h.course.append h'.course, h'.cursor.trans h.cursor, ⟨?_, ?_⟩, ?_, ?_⟩
  · exact h.cursor ▸ h'.consumed.1
  · exact fun hr => (h'.consumed.2 hr).trans (h.consumed.2 hr)
  · rw [offered_append, h'.offers, h.offers, List.append_assoc]
  · exact fun hf => h'.fair (h.fair hf)

theorem feeds_fetch (h : feed.Follows stream delivered) (required : Nat) (retain : Retain) :
    ∃ delivered', Feeds stream retain delivered feed (feed.fetchEvents required retain) delivered'
      (feed.fetch required retain).2 := by
  unfold fetch fetchEvents
  by_cases hended : feed.window.ended
  · simp only [hended, Bool.true_or, if_true]
    exact ⟨delivered, .refl h⟩
  by_cases hcancel : feed.heedsCancel && feed.cancelled
  · simp only [hcancel, hended, Bool.or_true, if_true]
    exact ⟨delivered, .refl h⟩
  simp only [hended, hcancel, Bool.false_eq_true, if_false, Bool.or_false]
  have hended' : feed.window.ended = false := Bool.eq_false_iff.mpr hended
  have hroom := feed.roomier_makeRoom required retain
  have hsource := feed.source_makeRoom required retain
  have hoffers := feed.offers_makeRoom required retain
  generalize feed.makeRoom required retain = roomy at hroom hsource hoffers ⊢
  have hholds := hroom.holds h.holds
  have hspare := hroom.spare h.holds
  have hbytes := roomy.source.read_bytes roomy.window.spare
  have hsize := fun data (hd : (roomy.source.read roomy.window.spare).1.result = .ok data) =>
    Source.read_size hd
  have hfair : feed.Fair → (roomy.source.read roomy.window.spare).2.Fair :=
    fun hf => (hsource ▸ hf.source).read _
  have hnothing := fun (hf : feed.Fair) data
      (hd : (roomy.source.read roomy.window.spare).1.result = .ok data) =>
    Source.Fair.nothing (hsource ▸ hf.source) (Nat.zero_lt_of_lt hspare) hd
  generalize roomy.source.read roomy.window.spare = outcome at hbytes hsize hfair hnothing ⊢
  obtain ⟨delivery, source⟩ := outcome
  have hsplit : delivered ++ delivery.bytes ++ source.bytes = stream := by
    rw [List.append_assoc, hbytes, hsource, h.split]
  have hcourse : Course delivered feed.window.ended
      [.fetched { required, window := roomy.window, delivery }] (delivered ++ delivery.bytes)
      delivery.isLast := by
    rw [hended']
    exact .fetched _ hholds hspare (.nil _ _)
  have hroomy : roomy.window.ended = false := hroom.ended.trans hended'
  have hoffered : List.replicate delivery.reads roomy.window.spare ++ roomy.offers =
      offered [.fetched { required, window := roomy.window, delivery }] ++ feed.offers := by
    simp [offered, Event.rooms, hoffers]
  refine ⟨delivered ++ delivery.bytes, ?_⟩
  dsimp only
  cases hresult : delivery.result with
  | ok data =>
      have hdelivered : delivery.bytes = data.data.toList := by simp [Delivery.bytes, hresult]
      have hlast : delivery.isLast = (roomy.window.commit data).ended := by
        simp [Delivery.isLast, Window.commit, hresult, hroomy]
      refine ⟨⟨?_, hsplit⟩, hlast ▸ hcourse, hroom.cursor, hroom.consumed, hoffered, ?_⟩
      · rw [hdelivered]
        exact hholds.commit (hsize data hresult)
      · refine fun hf => ⟨hfair hf, fun he => ?_⟩
        have hempty : data.size = 0 := by
          simpa [Window.commit, hroomy, ByteArray.isEmpty] using he
        have hnone := hnothing hf data hresult hempty
        rw [← hbytes] at hnone
        exact (List.append_eq_nil_iff.mp hnone).2
  | error message =>
      have hdelivered : delivery.bytes = [] := by simp [Delivery.bytes, hresult]
      have hlast : delivery.isLast = roomy.window.ended := by
        simp [Delivery.isLast, hresult, hroomy]
      refine ⟨⟨?_, hsplit⟩, hlast ▸ hcourse, hroom.cursor, hroom.consumed, hoffered, ?_⟩
      · rw [hdelivered, List.append_nil]
        exact hholds
      · refine fun hf => ⟨hfair hf, fun he => ?_⟩
        exact absurd (hroomy.symm.trans he) Bool.false_ne_true

theorem feeds_ensure (h : feed.Follows stream delivered) (ahead : Nat) (retain : Retain)
    (missing : Nat) :
    ∃ delivered', Feeds stream retain delivered feed (ensureEvents ahead retain missing feed)
      delivered' (ensure ahead retain missing feed).2 := by
  induction missing generalizing feed delivered with
  | zero => exact ⟨delivered, .refl h⟩
  | succ missing ih =>
      unfold ensure ensureEvents
      split
      · exact ⟨delivered, .refl h⟩
      obtain ⟨delivered₁, h₁⟩ :=
        feeds_fetch h (feed.window.pos + ahead + 1 - feed.window.used) retain
      dsimp only
      generalize feed.fetch (feed.window.pos + ahead + 1 - feed.window.used) retain = outcome at h₁ ⊢
      obtain ⟨result, feed₁⟩ := outcome
      cases result with
      | error fault => exact ⟨delivered₁, by simpa using h₁⟩
      | ok n =>
          cases n with
          | zero => exact ⟨delivered₁, by simpa using h₁⟩
          | succ n =>
              obtain ⟨delivered₂, h₂⟩ := ih h₁.follows
              exact ⟨delivered₂, h₁.trans h₂⟩

/-- What a fetch brings is missing less, and a fetch that brings nothing is the last one. -/
theorem fetch_brings {n : Nat} (h : (feed.fetch required retain).1 = .ok n) :
    (feed.fetch required retain).2.window.pos + feed.window.used + n ≤
        (feed.fetch required retain).2.window.used + feed.window.pos ∧
      (n = 0 → (feed.fetch required retain).2.window.ended = true) := by
  unfold fetch at h ⊢
  by_cases hended : feed.window.ended
  · simp only [hended, if_true] at h ⊢
    cases h
    exact ⟨by omega, fun _ => trivial⟩
  by_cases hcancel : feed.heedsCancel && feed.cancelled
  · simp only [hended, hcancel, Bool.false_eq_true, if_false, if_true] at h
    cases h
  simp only [hended, hcancel, Bool.false_eq_true, if_false] at h ⊢
  have hunread := (feed.roomier_makeRoom required retain).unread
  generalize feed.makeRoom required retain = roomy at hunread h ⊢
  generalize roomy.source.read roomy.window.spare = outcome at h ⊢
  obtain ⟨delivery, source⟩ := outcome
  dsimp only at h ⊢
  cases hresult : delivery.result with
  | error message =>
      rw [hresult] at h
      cases h
  | ok data =>
      rw [hresult] at h
      cases h
      refine ⟨?_, fun hsize => ?_⟩
      · simp only [Window.commit]
        omega
      · simp [Window.commit, ByteArray.isEmpty, hsize]

/-- With as many fetches as bytes are missing and none of them failing, the byte is there or the
source has ended. -/
theorem ensure_brings {ahead missing : Nat}
    (hmissing : feed.window.pos + ahead + 1 ≤ feed.window.used + missing)
    (hok : (ensure ahead retain missing feed).1 = .ok ()) :
    (ensure ahead retain missing feed).2.window.pos + ahead <
        (ensure ahead retain missing feed).2.window.used ∨
      (ensure ahead retain missing feed).2.window.ended = true := by
  induction missing generalizing feed with
  | zero => exact .inl hmissing
  | succ missing ih =>
      unfold ensure at hok ⊢
      split
      · exact .inl ‹_›
      rename_i hmiss
      rw [if_neg hmiss] at hok
      have hfetch := fun n (hn : (feed.fetch (feed.window.pos + ahead + 1 - feed.window.used)
        retain).1 = .ok n) => fetch_brings hn
      generalize feed.fetch (feed.window.pos + ahead + 1 - feed.window.used) retain = outcome
        at hfetch hok ⊢
      obtain ⟨result, feed₁⟩ := outcome
      cases result with
      | error fault => cases hok
      | ok n =>
          obtain ⟨hbrought, hended⟩ := hfetch n rfl
          cases n with
          | zero => exact .inr (hended rfl)
          | succ n =>
              have hleft : feed₁.window.pos + ahead + 1 ≤ feed₁.window.used + missing := by
                dsimp only at hbrought
                omega
              exact ih hleft hok

/-- Before the byte is looked up, its fetches are all that happens. -/
theorem snd_byte? (feed : Feed) (ahead : Nat) (retain : Retain) :
    (feed.byte? ahead retain).2 =
      (ensure ahead retain (feed.window.pos + ahead + 1 - feed.window.used) feed).2 := by
  unfold Feed.byte?
  dsimp only
  split <;> simp_all

theorem byte?_of_ok {ahead : Nat} {b : Option UInt8}
    (h : (feed.byte? ahead retain).1 = .ok b) :
    b = (feed.byte? ahead retain).2.window.byte? ahead := by
  unfold Feed.byte? at h ⊢
  dsimp only at h ⊢
  split at h <;> simp_all

end Feed

end JsonPull
