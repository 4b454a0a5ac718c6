import JsonPull.Proofs.Reading.Ensures
import JsonPull.Proofs.Stream.Feed

/-! # A feed answers as a stream may

Whatever a reading ensures under all answers that a stream can give, it ensures on a feed. -/

namespace JsonPull.Feed

variable {stream delivered : List UInt8} {feed : Feed}

/-- What is known of a stream holds of a feed over it. -/
structure Fits (stream delivered : List UInt8) (feed : Feed) (d : Reach stream.length) : Prop where
  follows : feed.Follows stream delivered
  anchored : ∀ a, d.anchor = some a → feed.window.consumed ≤ a
  cursor : d.pos = feed.window.cursor
  seen : d.seen ≤ delivered.length

variable {d : Reach stream.length}

/-- What lies behind an anchor is held. -/
theorem Fits.consumed_le {d : Reach stream.length} (h : feed.Fits stream delivered d) {first : Nat}
    (hfirst : d.Anchors first) : feed.window.consumed ≤ first := by
  obtain ⟨a, ha, hle⟩ := hfirst
  exact (h.anchored a ha).trans hle

theorem Follows.length_le (h : feed.Follows stream delivered) :
    delivered.length ≤ stream.length := by
  rw [← h.split, List.length_append]
  exact Nat.le_add_right _ _

theorem Follows.cursor_le (h : feed.Follows stream delivered) :
    feed.window.cursor ≤ delivered.length := by
  have hpos := h.holds.pos_le
  have hfetched := h.holds.fetched
  unfold Window.cursor
  omega

/-- From one state of a feed to a later one. -/
structure Moves (stream delivered : List UInt8) (feed : Feed) (d : Reach stream.length)
    (events : List Event) (delivered' : List UInt8) (feed' : Feed) (d' : Reach stream.length) :
    Prop where
  fits : feed'.Fits stream delivered' d'
  pos_le : d.pos ≤ d'.pos
  course : Course delivered feed.window.ended events delivered' feed'.window.ended
  offers : feed'.offers = offered events ++ feed.offers
  fair : feed.Fair → feed'.Fair

theorem Moves.refl (h : feed.Fits stream delivered d) :
    Moves stream delivered feed d [] delivered feed d :=
  ⟨h, le_rfl, .nil _ _, rfl, fun h => h⟩

theorem Moves.trans {delivered₁ delivered₂ : List UInt8} {feed₁ feed₂ : Feed}
    {d₁ d₂ : Reach stream.length} {events events' : List Event}
    (h : Moves stream delivered feed d events delivered₁ feed₁ d₁)
    (h' : Moves stream delivered₁ feed₁ d₁ events' delivered₂ feed₂ d₂) :
    Moves stream delivered feed d (events ++ events') delivered₂ feed₂ d₂ := by
  refine ⟨h'.fits, h.pos_le.trans h'.pos_le, h.course.append h'.course, ?_, ?_⟩
  · rw [offered_append, h'.offers, h.offers, List.append_assoc]
  · exact fun hf => h'.fair (h.fair hf)

/-- The feed is as it was, but for its window, which lost nothing. -/
theorem Moves.of_window {w : Window} {d d' : Reach stream.length}
    (h : Fits stream delivered { feed with window := w } d') (hpos : d.pos ≤ d'.pos)
    (hended : w.ended = feed.window.ended) :
    Moves stream delivered feed d [] delivered { feed with window := w } d' := by
  refine ⟨h, hpos, ?_, rfl, fun hf => ⟨hf.source, fun he => hf.ended (hended ▸ he)⟩⟩
  rw [hended]
  exact .nil _ _

/-- Where a byte is asked for, more of the stream may be fetched. -/
theorem answer_yields_byte (h : feed.Fits stream delivered d) (ahead : Nat) (retain : Retain) :
    ∃ d' delivered', (Query.byte ahead retain).Yields d (answer (.byte ahead retain) feed).1 d' ∧
      Moves stream delivered feed d (answerEvents (.byte ahead retain) feed) delivered'
        (answer (.byte ahead retain) feed).2 d' := by
  obtain ⟨delivered', h'⟩ := feeds_ensure h.follows ahead retain
    (feed.window.pos + ahead + 1 - feed.window.used)
  rw [← snd_byte?] at h'
  have hcursor := h.cursor.trans h'.cursor.symm
  have hle := h'.follows.length_le
  have hbyte : ∀ b, (feed.byte? ahead retain).1 = .ok (some b) →
      d.pos + ahead < delivered'.length := by
    intro b hb
    have hlookup := byte?_of_ok hb
    have hcursor' := h'.cursor
    rw [h'.follows.holds.byte?] at hlookup
    have hlt := (List.getElem?_eq_some_iff.mp hlookup.symm).1
    omega
  have hseen : d.seen ≤ delivered'.length := h.seen.trans h'.course.length_le
  let d' := d.fetch retain delivered'.length (!(feed.byte? ahead retain).1.isOk || d.faulted)
    hseen hle
  refine ⟨d', delivered', ⟨rfl, rfl, rfl, hseen, hbyte, rfl⟩,
    ⟨h'.follows, ?_, hcursor, le_rfl⟩, le_rfl, h'.course, h'.offers, h'.fair⟩
  cases retain with
  | all => exact fun a ha => (h'.consumed.2 rfl).trans_le (h.anchored a ha)
  | unread => exact nofun

/-- What is answered to a permitted question is an answer that the question may get. -/
theorem answer_yields (h : feed.Fits stream delivered d) {q : Query} (hq : q.Permitted d) :
    ∃ d' delivered', q.Yields d (answer q feed).1 d' ∧
      Moves stream delivered feed d (answerEvents q feed) delivered' (answer q feed).2 d' := by
  have hholds := h.follows.holds
  have hcursor := h.cursor
  have hseen := h.seen
  have hfetched := hholds.fetched
  have hpos := hholds.pos_le
  have hw : feed.window.cursor = feed.window.consumed + feed.window.pos := rfl
  cases q with
  | byte ahead retain => exact answer_yields_byte h ahead retain
  | advance count =>
      have hcount : d.pos + count ≤ d.seen := hq
      have hfits : Fits stream delivered { feed with window := feed.window.advance count }
          (d.consume count hcount) := by
        refine ⟨⟨hholds.advance (by omega), h.follows.split⟩, h.anchored, ?_, hseen⟩
        change d.pos + count = (feed.window.advance count).cursor
        rw [Window.cursor_advance, hcursor]
      have hmoves := Moves.of_window hfits (Nat.le_add_right d.pos count) rfl
      refine ⟨_, delivered, ?_, hmoves⟩
      exact ⟨rfl, rfl, rfl, rfl, rfl⟩
  | settle =>
      have hfits : Fits stream delivered { feed with window := feed.window.settle }
          (d.fetch .unread d.seen d.faulted le_rfl d.seen_le) :=
        ⟨⟨hholds.settle, h.follows.split⟩, nofun, hcursor.trans feed.window.cursor_settle.symm,
          hseen⟩
      have hmoves := Moves.of_window hfits (le_refl d.pos) feed.window.ended_settle
      refine ⟨_, delivered, ?_, hmoves⟩
      exact ⟨rfl, rfl, rfl, rfl, rfl⟩
  | cursor =>
      have hfits : Fits stream delivered { feed with window := feed.window } d.look := by
        refine ⟨h.follows, ?_, hcursor, hseen⟩
        rintro _ ⟨⟩
        cases ha : d.anchor with
        | none => exact hcursor.symm ▸ Nat.le_add_right _ _
        | some a => exact h.anchored a ha
      exact ⟨d.look, delivered, ⟨hcursor.symm, rfl⟩, .of_window hfits le_rfl rfl⟩
  | past count => exact ⟨d, delivered, ⟨by rw [hcursor]; rfl, rfl⟩, .refl h⟩
  | behind count => exact ⟨d, delivered, ⟨by rw [hcursor]; rfl, rfl⟩, .refl h⟩
  | hold first last =>
      have hfits : Fits stream delivered { feed with window := feed.window }
          (d.mark { first, last } hq) := ⟨h.follows, h.anchored, hcursor, hseen⟩
      exact ⟨_, delivered, ⟨hq, rfl⟩, .of_window hfits (le_refl d.pos) rfl⟩
  | slice first last =>
      obtain ⟨hanchor, hle, hlast⟩ := hq
      have hfirst := h.consumed_le hanchor
      refine ⟨d, delivered, ⟨⟨_, hholds.slice? (by omega) hle (by omega), ?_⟩, rfl⟩, .refl h⟩
      rw [List.length_take, List.length_drop]
      omega
  | resolve first last =>
      obtain ⟨hanchor, hle, hlast⟩ := Query.permitted_slice hq
      have hslice := hholds.slice? (h.consumed_le hanchor) hle (by omega)
      exact ⟨d, delivered, ⟨Option.isSome_iff_exists.mpr ⟨_, hslice⟩, rfl⟩, .refl h⟩
  | budget =>
      refine ⟨d, delivered, ⟨?_, rfl⟩, .refl h⟩
      have hlength := congrArg List.length h.follows.split
      rw [List.length_append, Source.length_bytes] at hlength
      change feed.window.unreadCount + feed.source.remaining = stream.length - d.pos
      unfold Window.unreadCount
      omega

variable {α : Type}

/-- What all runs of a scan end with, its run on a feed ends with. -/
theorem run_ensures {post : α → Reach stream.length → Prop} {scan : Scan α}
    (h : scan.Ensures post d) (hfits : feed.Fits stream delivered d) :
    ∃ d' delivered', post (feed.run scan).1 d' ∧
      Moves stream delivered feed d (scanEvents scan feed) delivered' (feed.run scan).2 d' := by
  induction scan generalizing feed d delivered with
  | done a => exact ⟨d, delivered, h, .refl hfits⟩
  | ask q next ih =>
      obtain ⟨d₁, delivered₁, hyields, h₁⟩ := answer_yields hfits h.1
      obtain ⟨d₂, delivered₂, hpost, h₂⟩ := ih _ (h.2 _ d₁ hyields) h₁.fits
      refine ⟨d₂, delivered₂, hpost, h₁.trans ⟨h₂.fits, h₂.pos_le, ?_, ?_, h₂.fair⟩⟩
      · exact .paused _ h₁.fits.follows.holds h₂.course
      · have hpaused := offered_append [.paused (answer q feed).2.window]
          (scanEvents (next (answer q feed).1) (answer q feed).2)
        refine h₂.offers.trans ?_
        rw [← List.singleton_append, hpaused]
        simp [offered, Event.rooms]

end JsonPull.Feed
