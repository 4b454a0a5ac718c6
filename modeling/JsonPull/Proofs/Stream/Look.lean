import JsonPull.Proofs.Stream.Tape
import JsonPull.Proofs.Stream.Watch

/-! # Looking ahead

A question for a byte fetches what is missing and leaves the cursor where it is. Where all held bytes
are to stay, an index into them finds the same byte afterwards. -/

namespace JsonPull

variable {stream delivered more : List UInt8} {retain : Retain}

namespace Window

variable {w w' w'' : Window}

/-- No held byte was moved or dropped: an index into the window finds the same byte as before, and a
part that was referred to is still valid. -/
structure Stays (w w' : Window) : Prop where
  pos : w'.pos = w.pos
  consumed : w'.consumed = w.consumed
  epoch : w'.epoch = w.epoch
  used_le : w.used ≤ w'.used
  bytes : ∀ i < w.used, w'.data[i]? = w.data[i]?

theorem Stays.refl (w : Window) : w.Stays w :=
  ⟨rfl, rfl, rfl, le_rfl, fun _ _ => rfl⟩

theorem Stays.trans (h : w.Stays w') (h' : w'.Stays w'') : w.Stays w'' where
  pos := h'.pos.trans h.pos
  consumed := h'.consumed.trans h.consumed
  epoch := h'.epoch.trans h.epoch
  used_le := h.used_le.trans h'.used_le
  bytes i hi := (h'.bytes i (hi.trans_le h.used_le)).trans (h.bytes i hi)

theorem Holds.getElem?_data (h : w.Holds delivered) {i : Nat} (hi : i < w.used) :
    w.data[i]? = delivered[w.consumed + i]? := by
  rw [getElem?_toList, ← List.getElem?_drop, ← h.held, List.getElem?_take_of_lt hi]

/-- Two windows that begin at the same offset hold the same bytes as far as both reach. -/
theorem Holds.stays (h : w.Holds delivered) (h' : w'.Holds (delivered ++ more))
    (hconsumed : w'.consumed = w.consumed) (hcursor : w'.cursor = w.cursor)
    (hepoch : w'.epoch = w.epoch) : w.Stays w' := by
  have hfetched := h.fetched
  have hfetched' := h'.fetched
  rw [List.length_append, hconsumed] at hfetched'
  have hpos : w'.pos = w.pos := by
    unfold cursor at hcursor
    omega
  refine ⟨hpos, hconsumed, hepoch, by omega, fun i hi => ?_⟩
  rw [h'.getElem?_data (by omega), h.getElem?_data hi, hconsumed,
    List.getElem?_append_left (by omega)]

end Window

namespace Feed

variable {feed feed' feed'' : Feed} {ahead : Nat}

/-- A feed over a source that does not fail, wherever its window stands in the stream. -/
structure Flows (stream : List UInt8) (feed : Feed) : Prop where
  follows : ∃ delivered, feed.Follows stream delivered
  steady : feed.Steady

/-- From one state of a feed to one in which more bytes may have been fetched. -/
structure Serves (stream : List UInt8) (retain : Retain) (feed feed' : Feed) : Prop where
  flows : feed'.Flows stream
  cursor : feed'.window.cursor = feed.window.cursor
  stays : retain = .all → feed.window.Stays feed'.window

theorem Flows.serves (h : feed.Flows stream) : feed.Serves stream retain feed :=
  ⟨h, rfl, fun _ => .refl _⟩

theorem Serves.trans (h : feed.Serves stream retain feed')
    (h' : feed'.Serves stream retain feed'') : feed.Serves stream retain feed'' :=
  ⟨h'.flows, h'.cursor.trans h.cursor, fun hall => (h.stays hall).trans (h'.stays hall)⟩

/-- Whatever has to be fetched for it, a byte is answered. -/
theorem Flows.byte? (h : feed.Flows stream) (ahead : Nat) (retain : Retain) :
    (feed.byte? ahead retain).1 = .ok stream[feed.window.cursor + ahead]? ∧
      feed.Serves stream retain (feed.byte? ahead retain).2 := by
  obtain ⟨delivered, hfollows⟩ := h.follows
  obtain ⟨hok, hsteady⟩ := byte?_steady h.steady hfollows ahead retain
  obtain ⟨hbyte, hcursor⟩ := byte?_fair h.steady.fair hfollows hok
  obtain ⟨delivered', hfeeds⟩ := feeds_ensure hfollows ahead retain
    (feed.window.pos + ahead + 1 - feed.window.used)
  rw [← snd_byte?] at hfeeds
  refine ⟨hbyte, ⟨⟨delivered', hfeeds.follows⟩, hsteady⟩, hcursor, ?_⟩
  rintro rfl
  have hepoch := epoch_ensure ahead (feed.window.pos + ahead + 1 - feed.window.used) feed
  rw [← snd_byte?] at hepoch
  have hholds := hfeeds.follows.holds
  rw [hfeeds.course.delivered_eq] at hholds
  exact hfollows.holds.stays hholds (hfeeds.consumed.2 rfl) hcursor hepoch

/-- Where the last of several bytes is held, all of them are. -/
theorem Flows.slice? (h : feed.Flows stream) {count : Nat} {b : UInt8}
    (hbyte : feed.window.byte? (ahead + count) = some b) :
    feed.window.slice? (feed.window.cursor + ahead) (feed.window.cursor + ahead + (count + 1)) =
      some ((stream.drop (feed.window.cursor + ahead)).take (count + 1)) := by
  obtain ⟨delivered, hfollows⟩ := h.follows
  rw [hfollows.holds.byte?] at hbyte
  have hlt := (List.getElem?_eq_some_iff.mp hbyte).1
  have hfirst : feed.window.consumed ≤ feed.window.cursor + ahead :=
    (Nat.le_add_right _ _).trans (Nat.le_add_right _ _)
  rw [hfollows.slice? hfirst (Nat.le_add_right _ _) (by omega), Nat.add_sub_cancel_left]

end Feed

end JsonPull
