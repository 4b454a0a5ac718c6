import JsonPull.Proofs.Stream.Tape

/-! # The end of a stream

A byte that is not there tells that the source has ended. A feed at its end answers every look ahead
at once, and does not ask its source again. -/

namespace JsonPull

variable {delivered : List UInt8} {feed : Feed} {required ahead : Nat} {retain : Retain}

namespace Feed

/-- The source has ended, and nothing is left unread. -/
structure AtEnd (feed : Feed) : Prop where
  ended : feed.window.ended = true
  used_le : feed.window.used ≤ feed.window.pos

/-! ## Coming to the end -/

/-- Where a byte is not there, the window does not hold it, and no more bytes will come. -/
structure Lacks (feed : Feed) (ahead : Nat) : Prop where
  byte_eq : feed.window.byte? ahead = none
  awaited : feed.window.pos + ahead < feed.window.used ∨ feed.window.ended = true

theorem lacks_of_byte? (h : (feed.byte? ahead retain).1 = .ok none) :
    (feed.byte? ahead retain).2.Lacks ahead := by
  have hensured := ensure_of_byte? (congrArg Except.isOk h)
  have hbrought := ensure_brings (by omega) hensured
  rw [← snd_byte?] at hbrought
  exact ⟨(byte?_of_ok h).symm, hbrought⟩

theorem Lacks.atEnd (h : feed.Lacks 0) (hholds : feed.window.Holds delivered) : feed.AtEnd := by
  have hused : feed.window.used ≤ feed.window.data.size := hholds.used_le
  have hle : feed.window.used ≤ feed.window.pos := by
    by_contra hlt
    have hbyte := h.byte_eq
    have hget : feed.window.data[feed.window.pos]? = some feed.window.data[feed.window.pos] :=
      getElem?_pos _ _ (by omega)
    rw [Window.byte?, if_pos (by omega), Nat.add_zero, hget] at hbyte
    cases hbyte
  exact ⟨h.awaited.resolve_left (by omega), hle⟩

/-! ## At the end -/

theorem ensure_ended (h : feed.window.ended = true) (missing : Nat) :
    ensure ahead retain missing feed = (.ok (), feed) := by
  cases missing with
  | zero => rfl
  | succ missing =>
      unfold ensure
      split
      · rfl
      · rw [fetch, if_pos h]

/-- At the end there is no byte ahead, and looking for one changes nothing. -/
theorem AtEnd.byte? (h : feed.AtEnd) (ahead : Nat) (retain : Retain) :
    feed.byte? ahead retain = (.ok none, feed) := by
  have hused := h.used_le
  have hnone : feed.window.byte? ahead = none := if_neg (by omega)
  rw [Feed.byte?, ensure_ended h.ended, ← hnone]

theorem atEnd_release (feed : Feed) : feed.release.AtEnd := ⟨rfl, le_rfl⟩

/-- Once the source has ended, no answer fetches, and none makes it start again. -/
theorem answer_ended (h : feed.window.ended = true) (q : Query) :
    (answer q feed).2.window.ended = true ∧ answerEvents q feed = [] := by
  cases q with
  | byte ahead retain =>
      have hevents : ∀ missing, ensureEvents ahead retain missing feed = [] := by
        intro missing
        cases missing with
        | zero => rfl
        | succ missing => simp [ensureEvents, fetchEvents, fetch, h]
      refine ⟨?_, hevents _⟩
      change (feed.byte? ahead retain).2.window.ended = true
      rw [snd_byte?, ensure_ended h]
      exact h
  | settle => exact ⟨feed.window.ended_settle.trans h, rfl⟩
  | advance | cursor | past | behind | hold | slice | resolve | budget => exact ⟨h, rfl⟩

theorem scanEvents_ended {α : Type} (scan : Scan α) (h : feed.window.ended = true)
    (fetch : Fetch) : .fetched fetch ∉ scanEvents scan feed := by
  induction scan generalizing feed with
  | done a => exact List.not_mem_nil
  | ask q next ih =>
      obtain ⟨hended, hevents⟩ := answer_ended h q
      rw [scanEvents, hevents, List.nil_append, List.mem_cons, not_or]
      exact ⟨nofun, ih _ hended⟩

end Feed

end JsonPull
