import JsonPull.Proofs.Checked
import JsonPull.Proofs.Stream.Answer

/-! # A watch over the window

A watch goes along with a run and checks every index into the window before it is used: none may be
negative or out of range, the cursor may not leave the fetched bytes, and bytes that were looked up
or referred to may not have moved since. No run of a reading that asks permitted questions trips
it. -/

namespace JsonPull

/-- A part of the stream that was looked up or referred to, with the epoch of the window and the
offset of its first byte at that time. -/
structure Mark where
  span : Span
  epoch : UInt32
  base : Nat
deriving DecidableEq, Repr

namespace Mark

/-- A mark that is made in a window. -/
def make (w : Window) (first last : Nat) : Mark :=
  { span := { first, last }, epoch := w.epoch, base := w.consumed }

/-- No byte of the window was moved since the mark was made. -/
def Fresh (w : Window) (m : Mark) : Prop :=
  m.epoch = w.epoch ∧ m.base = w.consumed

instance (w : Window) (m : Mark) : Decidable (m.Fresh w) :=
  inferInstanceAs (Decidable (_ ∧ _))

theorem fresh_make (w : Window) (first last : Nat) : (make w first last).Fresh w := ⟨rfl, rfl⟩

end Mark

namespace Window

/-- The cursor stands among the held bytes, and all of them are in the block. -/
def InBounds (w : Window) : Prop :=
  w.pos ≤ w.used ∧ w.used ≤ w.capacity

/-- The bytes between two offsets are held. -/
def Covers (w : Window) (first last : Nat) : Prop :=
  w.consumed ≤ first ∧ first ≤ last ∧ last ≤ w.consumed + w.used ∧ w.used ≤ w.capacity

instance (w : Window) : Decidable w.InBounds := inferInstanceAs (Decidable (_ ∧ _))

instance (w : Window) (first last : Nat) : Decidable (w.Covers first last) :=
  inferInstanceAs (Decidable (_ ∧ _))

/-- Checks the bytes that are moved to make room, and the block that they are moved into. -/
def checkRoom (w : Window) (required : Nat) (retain : Retain) : Checked Unit :=
  match w.room required retain with
  | .enough => return ()
  | .compact => check w.InBounds .index
  | .grow capacity start =>
    check (start ≤ w.used ∧ w.used ≤ w.capacity ∧ w.used - start ≤ capacity) .index

end Window

namespace Feed

/-- Checks the number of missing bytes, the room that is made for them, and that what arrives fits
into the room. -/
def checkFetch (feed : Feed) (ahead : Nat) (retain : Retain) : Checked Unit := do
  let w := feed.window
  check (w.used ≤ w.pos + ahead) .index
  let required := w.pos + ahead + 1 - w.used
  if w.ended || (feed.heedsCancel && feed.cancelled) then return ()
  else
    w.checkRoom required retain
    let roomy := feed.makeRoom required retain
    check roomy.window.InBounds .index
    match (roomy.source.read roomy.window.spare).1.result with
    | .ok bytes => check (roomy.window.used + bytes.size ≤ roomy.window.capacity) .index
    | .error _ => return ()

/-- Checks the fetches for the byte `ahead`. -/
def checkEnsure (ahead : Nat) (retain : Retain) : Nat → Feed → Checked Unit
  | 0, _ => return ()
  | missing + 1, feed =>
    if feed.window.pos + ahead < feed.window.used then return ()
    else do
      feed.checkFetch ahead retain
      match feed.fetch (feed.window.pos + ahead + 1 - feed.window.used) retain with
      | (.ok (_ + 1), feed) => checkEnsure ahead retain missing feed
      | _ => return ()

end Feed

/-- What a watch remembers: where the cursor was looked up, and what was referred to. -/
structure Watch where
  looks : List Mark := []
  refs : List Mark := []

namespace Watch

/-- Checks that what lies behind `first` was looked up and did not move since. -/
def checkLook (watch : Watch) (w : Window) (first : Nat) : Checked Unit :=
  check (∃ m ∈ watch.looks, m.Fresh w ∧ m.span.first ≤ first) .stale

/-- Checks that a part was referred to and did not move since. -/
def checkRef (watch : Watch) (w : Window) (span : Span) : Checked Unit :=
  check (∃ m ∈ watch.refs, m.Fresh w ∧ m.span = span) .stale

/-- Checks the indices that a question to a feed is answered with. -/
def checkQuery (watch : Watch) (feed : Feed) : Query → Checked Unit
  | .byte ahead retain => do
    feed.checkEnsure ahead retain (feed.window.pos + ahead + 1 - feed.window.used)
    check (feed.byte? ahead retain).2.window.InBounds .index
  | .advance count => check (feed.window.pos + count ≤ feed.window.used) .cursor
  | .settle => check feed.window.InBounds .index
  | .cursor => return ()
  | .past count => check (feed.window.pos + count ≤ feed.window.used) .cursor
  | .behind count => check (count ≤ feed.window.pos) .index
  | .hold first last => do
    check (feed.window.Covers first last) .index
    watch.checkLook feed.window first
  | .slice first last => do
    check (feed.window.Covers first last) .index
    watch.checkLook feed.window first
  | .resolve first last => do
    watch.checkRef feed.window { first, last }
    check (feed.window.Covers first last) .index
  | .budget => return ()

/-- Remembers what a question looks up or refers to. -/
def note (watch : Watch) (feed : Feed) : Query → Watch
  | .cursor =>
    let w := feed.window
    { watch with looks := .make w w.cursor w.cursor :: watch.looks }
  | .hold first last => { watch with refs := .make feed.window first last :: watch.refs }
  | _ => watch

/-- Goes along with a scan on a feed. -/
def follow {α : Type} (watch : Watch) : Scan α → Feed → Checked Watch
  | .done _, _ => return watch
  | .ask q next, feed => do
    watch.checkQuery feed q
    (watch.note feed q).follow (next (feed.answer q).1) (feed.answer q).2

/-- A cursor that would leave the fetched bytes trips the watch. -/
example : (Watch.follow {} (Scan.query (.advance 1)) (Feed.start { script := [] } 1 none false)).isOk =
    false :=
  rfl

end Watch

/-! ## Moving nothing -/

namespace Feed

variable {stream delivered : List UInt8} {feed : Feed} {required : Nat} {retain : Retain}

theorem Roomier.epoch_eq {w w' : Window} (h : Roomier w required .all w') : w'.epoch = w.epoch := by
  cases h <;> rfl

/-- Where all held bytes stay, none is moved for a fetch. -/
theorem epoch_fetch (feed : Feed) (required : Nat) :
    (feed.fetch required .all).2.window.epoch = feed.window.epoch := by
  have hroom := (feed.roomier_makeRoom required .all).epoch_eq
  unfold fetch
  split
  · rfl
  split
  · rfl
  dsimp only
  split
  · exact hroom
  · exact hroom

theorem epoch_ensure (ahead missing : Nat) (feed : Feed) :
    (ensure ahead .all missing feed).2.window.epoch = feed.window.epoch := by
  induction missing generalizing feed with
  | zero => rfl
  | succ missing ih =>
      have hfetch := feed.epoch_fetch (feed.window.pos + ahead + 1 - feed.window.used)
      unfold ensure
      split
      · rfl
      generalize feed.fetch (feed.window.pos + ahead + 1 - feed.window.used) .all = outcome at hfetch ⊢
      obtain ⟨result, feed'⟩ := outcome
      cases result with
      | error fault => exact hfetch
      | ok n =>
          cases n with
          | zero => exact hfetch
          | succ n => exact (ih feed').trans hfetch

/-! ## Fetches are in bounds -/

theorem checkRoom_holds {w : Window} (h : w.Holds delivered) (required : Nat) (retain : Retain) :
    w.checkRoom required retain = .ok () := by
  have hpos := h.pos_le
  have hused := h.used_le
  unfold Window.checkRoom
  split
  · rfl
  · exact check_of ⟨hpos, hused⟩ _
  · rename_i capacity start hroom
    have hunread : w.unreadCount = w.used - w.pos := rfl
    refine check_of ?_ _
    unfold Window.room at hroom
    split at hroom
    · cases hroom
    · cases retain with
      | all =>
          cases hroom
          exact ⟨Nat.zero_le _, hused, by omega⟩
      | unread =>
          dsimp only at hroom
          split at hroom
          · cases hroom
            exact ⟨hpos, hused, by omega⟩
          · cases hroom

theorem checkFetch_follows (h : feed.Follows stream delivered) {ahead : Nat}
    (hmissing : ¬feed.window.pos + ahead < feed.window.used) (retain : Retain) :
    feed.checkFetch ahead retain = .ok () := by
  unfold checkFetch
  rw [Checked.bind_of (check_of (by omega) _)]
  dsimp only
  split
  · rfl
  rw [Checked.bind_of (checkRoom_holds h.holds _ _)]
  have hroomy := (feed.roomier_makeRoom (feed.window.pos + ahead + 1 - feed.window.used)
    retain).holds h.holds
  rw [Checked.bind_of (check_of ⟨hroomy.pos_le, hroomy.used_le⟩ _)]
  split
  · rename_i bytes hresult
    have hsize := Source.read_size hresult
    have hused := hroomy.used_le
    unfold Window.spare at hsize
    exact check_of (by omega) _
  · rfl

theorem checkEnsure_follows (h : feed.Follows stream delivered) (ahead : Nat) (retain : Retain)
    (missing : Nat) : feed.checkEnsure ahead retain missing = .ok () := by
  induction missing generalizing feed delivered with
  | zero => rfl
  | succ missing ih =>
      unfold checkEnsure
      split
      · rfl
      rename_i hmissing
      rw [Checked.bind_of (checkFetch_follows h hmissing retain)]
      obtain ⟨delivered', h'⟩ :=
        feeds_fetch h (feed.window.pos + ahead + 1 - feed.window.used) retain
      split
      · rename_i n feed' hfetch
        rw [hfetch] at h'
        exact ih h'.follows
      · rfl

end Feed

/-! ## What a watch remembers -/

namespace Watch

variable {stream delivered : List UInt8} {feed : Feed} {watch : Watch}

/-- A watch remembers what is known to be where it was. -/
structure Keeps (watch : Watch) (w : Window) {total : Nat} (d : Reach total) : Prop where
  looks : ∀ a, d.anchor = some a → ∃ m ∈ watch.looks, m.Fresh w ∧ m.span.first = a
  refs : ∀ span ∈ d.marks, ∃ m ∈ watch.refs, m.Fresh w ∧ m.span = span

variable {d d' : Reach stream.length} {w w' : Window}

theorem Keeps.of_eq (h : watch.Keeps w d) (hepoch : w'.epoch = w.epoch)
    (hconsumed : w'.consumed = w.consumed) (hanchor : d'.anchor = d.anchor)
    (hmarks : d'.marks = d.marks) : watch.Keeps w' d' := by
  have hfresh : ∀ m : Mark, m.Fresh w → m.Fresh w' := fun m hm =>
    ⟨hm.1.trans hepoch.symm, hm.2.trans hconsumed.symm⟩
  refine ⟨fun a ha => ?_, fun span hspan => ?_⟩
  · obtain ⟨m, hmem, hm, hfirst⟩ := h.looks a (hanchor ▸ ha)
    exact ⟨m, hmem, hfresh m hm, hfirst⟩
  · obtain ⟨m, hmem, hm, heq⟩ := h.refs span (hmarks ▸ hspan)
    exact ⟨m, hmem, hfresh m hm, heq⟩

/-- Nothing is known to be where it was. -/
theorem keeps_nothing (watch : Watch) (w : Window) (hanchor : d.anchor = none)
    (hmarks : d.marks = []) : watch.Keeps w d := by
  refine ⟨fun a ha => ?_, fun span hspan => ?_⟩
  · rw [hanchor] at ha
    cases ha
  · rw [hmarks] at hspan
    cases hspan

theorem Keeps.checkLook (h : watch.Keeps w d) {first : Nat} (hfirst : d.Anchors first) :
    watch.checkLook w first = .ok () := by
  obtain ⟨a, ha, hle⟩ := hfirst
  obtain ⟨m, hmem, hfresh, rfl⟩ := h.looks a ha
  exact check_of ⟨m, hmem, hfresh, hle⟩ _

theorem Keeps.checkRef (h : watch.Keeps w d) {span : Span} (hspan : span ∈ d.marks) :
    watch.checkRef w span = .ok () :=
  check_of (h.refs span hspan) _

theorem Keeps.look (h : watch.Keeps w d) (hpos : d.pos = w.cursor) :
    Keeps { watch with looks := .make w w.cursor w.cursor :: watch.looks } w d.look := by
  refine ⟨?_, h.refs⟩
  rintro _ ⟨⟩
  cases ha : d.anchor with
  | none =>
      exact ⟨_, List.mem_cons_self .., Mark.fresh_make .., hpos.symm⟩
  | some a =>
      obtain ⟨m, hmem, hm⟩ := h.looks a ha
      exact ⟨m, List.mem_cons_of_mem _ hmem, hm⟩

theorem Keeps.mark (h : watch.Keeps w d) {span : Span}
    (hspan : d.Anchors span.first ∧ span.first ≤ span.last ∧ span.last ≤ d.pos) :
    Keeps { watch with refs := .make w span.first span.last :: watch.refs } w (d.mark span hspan) := by
  refine ⟨h.looks, fun span' hspan' => ?_⟩
  rcases List.mem_cons.mp hspan' with rfl | hspan'
  · exact ⟨_, List.mem_cons_self .., Mark.fresh_make .., rfl⟩
  · obtain ⟨m, hmem, hm⟩ := h.refs span' hspan'
    exact ⟨m, List.mem_cons_of_mem _ hmem, hm⟩

/-! ## Questions and scans -/

/-- A permitted question does not trip the watch. -/
theorem checkQuery_permitted (hfits : feed.Fits stream delivered d) (h : watch.Keeps feed.window d)
    {q : Query} (hq : q.Permitted d) : watch.checkQuery feed q = .ok () := by
  have hholds := hfits.follows.holds
  have hcursor : d.pos = feed.window.consumed + feed.window.pos := hfits.cursor
  have hfetched := hholds.fetched
  have hseen := hfits.seen
  have hcovers : ∀ {first last}, (Query.slice first last).Permitted d →
      feed.window.Covers first last := by
    intro first last ⟨hfirst, hle, hlast⟩
    exact ⟨hfits.consumed_le hfirst, hle, by omega, hholds.used_le⟩
  have hconsume : ∀ {count}, d.pos + count ≤ d.seen →
      feed.window.pos + count ≤ feed.window.used := by
    intro count hcount
    omega
  cases q with
  | byte ahead retain =>
      obtain ⟨delivered', h'⟩ := Feed.feeds_ensure hfits.follows ahead retain
        (feed.window.pos + ahead + 1 - feed.window.used)
      rw [← Feed.snd_byte?] at h'
      have hholds' := h'.follows.holds
      exact (Checked.bind_of (Feed.checkEnsure_follows hfits.follows ahead retain _)).trans
        (check_of ⟨hholds'.pos_le, hholds'.used_le⟩ _)
  | advance count => exact check_of (hconsume hq) _
  | settle => exact check_of ⟨hholds.pos_le, hholds.used_le⟩ _
  | cursor => rfl
  | past count => exact check_of (hconsume hq) _
  | behind count =>
      have hfirst := hfits.consumed_le hq.2
      exact check_of (by have hcount := hq.1; omega) _
  | hold first last =>
      obtain ⟨hanchor, hle, hlast⟩ := hq
      exact (Checked.bind_of (check_of (hcovers ⟨hanchor, hle, hlast.trans d.pos_le⟩) _)).trans
        (h.checkLook hanchor)
  | slice first last =>
      exact (Checked.bind_of (check_of (hcovers hq) _)).trans (h.checkLook hq.1)
  | resolve first last =>
      exact (Checked.bind_of (h.checkRef hq)).trans
        (check_of (hcovers (Query.permitted_slice hq)) _)
  | budget => rfl

/-- Behind a question, a watch remembers what is known then. -/
theorem Keeps.note (hfits : feed.Fits stream delivered d) (h : watch.Keeps feed.window d)
    {q : Query} (hy : q.Yields d (feed.answer q).1 d') :
    (watch.note feed q).Keeps (feed.answer q).2.window d' := by
  cases q with
  | byte ahead retain =>
      obtain ⟨delivered', h'⟩ := Feed.feeds_ensure hfits.follows ahead retain
        (feed.window.pos + ahead + 1 - feed.window.used)
      have hepoch := Feed.epoch_ensure ahead (feed.window.pos + ahead + 1 - feed.window.used) feed
      rw [← Feed.snd_byte?] at h' hepoch
      cases retain with
      | all => exact h.of_eq hepoch (h'.consumed.2 rfl) hy.1 hy.2.1
      | unread => exact keeps_nothing _ _ hy.1 hy.2.1
  | advance count => exact h.of_eq rfl rfl hy.1 hy.2.1
  | settle => exact keeps_nothing _ _ hy.1 hy.2.1
  | cursor =>
      obtain ⟨-, rfl⟩ := hy
      exact h.look hfits.cursor
  | past count =>
      obtain ⟨-, rfl⟩ := hy
      exact h
  | behind count =>
      obtain ⟨-, rfl⟩ := hy
      exact h
  | hold first last =>
      obtain ⟨hspan, rfl⟩ := hy
      exact h.mark hspan
  | slice first last =>
      obtain ⟨-, rfl⟩ := hy
      exact h
  | resolve first last =>
      obtain ⟨-, rfl⟩ := hy
      exact h
  | budget =>
      obtain ⟨-, rfl⟩ := hy
      exact h

/-- A scan that asks permitted questions only does not trip the watch. -/
theorem follow_ensures {α : Type} {post : α → Reach stream.length → Prop} {scan : Scan α}
    (hscan : scan.Ensures post d) (hfits : feed.Fits stream delivered d)
    (h : watch.Keeps feed.window d) :
    ∃ watch' d' delivered', watch.follow scan feed = .ok watch' ∧ post (feed.run scan).1 d' ∧
      (feed.run scan).2.Fits stream delivered' d' ∧ watch'.Keeps (feed.run scan).2.window d' := by
  induction scan generalizing feed d delivered watch with
  | done a => exact ⟨watch, d, delivered, rfl, hscan, hfits, h⟩
  | ask q next ih =>
      obtain ⟨d₁, delivered₁, hyields, hmoves⟩ := Feed.answer_yields hfits hscan.1
      obtain ⟨watch', d', delivered', hfollow, hrest⟩ :=
        ih _ (hscan.2 _ d₁ hyields) hmoves.fits (h.note hfits hyields)
      refine ⟨watch', d', delivered', ?_, hrest⟩
      unfold follow
      rw [Checked.bind_of (checkQuery_permitted hfits h hscan.1)]
      exact hfollow

end Watch

end JsonPull
