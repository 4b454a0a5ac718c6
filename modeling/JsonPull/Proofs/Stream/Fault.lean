import JsonPull.Proofs.Reading.Straight
import JsonPull.Proofs.Stream.Feed

/-! # Faults while fetching

Only a question about a byte that is neither held nor behind the end of the source is answered by
fetching. Such a question is refused at once if the feed was cancelled. A scan that obeys its first
fault fetches no more behind it. -/

namespace JsonPull

namespace Event

/-- A read from the source. -/
def IsFetch : Event → Prop
  | fetched _ => True
  | paused _ => False

/-- A read from the source that failed. -/
def Fails (message : String) : Event → Prop
  | fetched fetch => fetch.delivery.result = .error message
  | paused _ => False

end Event

variable {events events' before after : List Event} {fault? : Option FetchFault}
  {fault : FetchFault}

/-- Events that meet a fault, or none. Behind a fault there is no fetch, and the fault is that of
the fetch that failed, or a refusal to fetch. -/
inductive Meets : List Event → Option FetchFault → Prop where
  | nothing : Meets [] none
  | refused {events : List Event} (hquiet : ∀ e ∈ events, ¬e.IsFetch) :
      Meets events (some .cancelled)
  | failed (fetch : Fetch) {message : String} (hresult : fetch.delivery.result = .error message)
      {events : List Event} (hquiet : ∀ e ∈ events, ¬e.IsFetch) :
      Meets (.fetched fetch :: events) (some (.io message))
  | fetched (fetch : Fetch) {bytes : ByteArray} (hresult : fetch.delivery.result = .ok bytes)
      {events : List Event} {fault? : Option FetchFault} (hrest : Meets events fault?) :
      Meets (.fetched fetch :: events) fault?
  | paused (w : Window) {events : List Event} {fault? : Option FetchFault}
      (hrest : Meets events fault?) : Meets (.paused w :: events) fault?

namespace Meets

theorem append (h : Meets events none) (h' : Meets events' fault?) :
    Meets (events ++ events') fault? := by
  generalize hnone : (none : Option FetchFault) = first at h
  induction h with
  | nothing => exact h'
  | refused => cases hnone
  | failed => cases hnone
  | fetched fetch hresult _ ih => exact .fetched fetch hresult (ih hnone)
  | paused w _ ih => exact .paused w (ih hnone)

theorem append_quiet (h : Meets events (some fault)) (hquiet : ∀ e ∈ events', ¬e.IsFetch) :
    Meets (events ++ events') (some fault) := by
  generalize hsome : some fault = first at h
  induction h with
  | nothing => cases hsome
  | refused hbefore =>
      exact .refused fun e he => (List.mem_append.mp he).elim (hbefore e) (hquiet e)
  | failed fetch hresult hbefore =>
      exact .failed fetch hresult fun e he => (List.mem_append.mp he).elim (hbefore e) (hquiet e)
  | fetched fetch hresult _ ih => exact .fetched fetch hresult (ih hsome)
  | paused w _ ih => exact .paused w (ih hsome)

/-- A fetch that failed is the last one, and its fault was met. -/
theorem of_failed {e : Event} {message : String} (h : Meets (before ++ e :: after) fault?)
    (he : e.Fails message) : fault? = some (.io message) ∧ ∀ later ∈ after, ¬later.IsFetch := by
  generalize hevents : before ++ e :: after = events at h
  induction h generalizing before with
  | nothing => simp at hevents
  | refused hquiet =>
      have hmem := hquiet e (by simp [← hevents])
      cases e with
      | fetched fetch => exact absurd trivial hmem
      | paused w => exact he.elim
  | failed fetch hresult hquiet =>
      cases before with
      | nil =>
          obtain ⟨rfl, rfl⟩ := List.cons.inj hevents
          obtain rfl := Except.error.inj (hresult.symm.trans he)
          exact ⟨rfl, hquiet⟩
      | cons first before =>
          obtain ⟨-, rfl⟩ := List.cons.inj hevents
          have hmem := hquiet e (by simp)
          cases e with
          | fetched fetch => exact absurd trivial hmem
          | paused w => exact he.elim
  | fetched fetch hresult _ ih =>
      cases before with
      | nil =>
          obtain ⟨rfl, rfl⟩ := List.cons.inj hevents
          cases hresult.symm.trans he
      | cons first before => exact ih (List.cons.inj hevents).2
  | paused w _ ih =>
      cases before with
      | nil =>
          obtain ⟨rfl, rfl⟩ := List.cons.inj hevents
          exact he.elim
      | cons first before => exact ih (List.cons.inj hevents).2

end Meets

namespace Feed

variable {feed : Feed} {q : Query} {ahead missing : Nat} {retain : Retain}

/-! ## Questions -/

/-- A question that cannot be answered without fetching. -/
def Awaits (feed : Feed) : Query → Prop
  | .byte ahead _ => feed.window.used ≤ feed.window.pos + ahead ∧ feed.window.ended = false
  | _ => False

/-- Cancels the fetches to come. -/
def cancel (feed : Feed) : Feed := { feed with cancelled := true }

theorem awaits_cancel (feed : Feed) (q : Query) : feed.cancel.Awaits q ↔ feed.Awaits q := by
  cases q <;> exact Iff.rfl

theorem ensure_idle (h : feed.window.pos + ahead < feed.window.used ∨ feed.window.ended = true) :
    ensure ahead retain missing feed = (.ok (), feed) ∧
      ensureEvents ahead retain missing feed = [] := by
  cases missing with
  | zero => exact ⟨rfl, rfl⟩
  | succ missing =>
      unfold ensure ensureEvents
      by_cases hheld : feed.window.pos + ahead < feed.window.used
      · rw [if_pos hheld, if_pos hheld]
        exact ⟨rfl, rfl⟩
      · have hended := h.resolve_left hheld
        simp [hheld, fetch, fetchEvents, hended]

/-- What can be answered at once is answered alike if the feed was cancelled. -/
theorem answer_idle (h : ¬feed.Awaits q) :
    answerEvents q feed = [] ∧ q.fault? (answer q feed).1 = none ∧
      (answer q feed).2.heedsCancel = feed.heedsCancel ∧
      (answer q feed).2.cancelled = feed.cancelled ∧
      answer q feed.cancel = ((answer q feed).1, (answer q feed).2.cancel) := by
  cases q with
  | byte ahead retain =>
      have hidle : feed.window.pos + ahead < feed.window.used ∨ feed.window.ended = true := by
        by_contra hnot
        obtain ⟨hheld, hended⟩ := not_or.mp hnot
        exact h ⟨not_lt.mp hheld, Bool.eq_false_iff.mpr hended⟩
      have hbyte : ∀ feed' : Feed, feed'.window = feed.window →
          feed'.byte? ahead retain = (.ok (feed'.window.byte? ahead), feed') := by
        intro feed' hwindow
        rw [Feed.byte?, (ensure_idle (hwindow ▸ hidle)).1]
      have hanswer : answer (.byte ahead retain) feed = _ := hbyte feed rfl
      have hcancel : answer (.byte ahead retain) feed.cancel = _ := hbyte feed.cancel rfl
      refine ⟨(ensure_idle hidle).2, ?_⟩
      rw [hanswer, hcancel]
      exact ⟨rfl, rfl, rfl, rfl⟩
  | _ => exact ⟨rfl, rfl, rfl, rfl, rfl⟩

/-- A cancelled feed refuses to fetch. -/
theorem answer_refused (h : feed.Awaits q) (hheeds : feed.heedsCancel = true)
    (hcancelled : feed.cancelled = true) :
    answerEvents q feed = [] ∧ q.fault? (answer q feed).1 = some .cancelled ∧
      (answer q feed).2 = feed := by
  cases q with
  | byte ahead retain =>
      obtain ⟨hused, hended⟩ := h
      obtain ⟨missing, hmissing⟩ : ∃ missing,
          feed.window.pos + ahead + 1 - feed.window.used = missing + 1 :=
        ⟨feed.window.pos + ahead - feed.window.used, by omega⟩
      have hheld : ¬feed.window.pos + ahead < feed.window.used := by omega
      have hfetch : ∀ required retain, feed.fetch required retain = (.error .cancelled, feed) := by
        simp [fetch, hended, hheeds, hcancelled]
      have hanswer : answer (.byte ahead retain) feed = (.error .cancelled, feed) := by
        rw [answer, Feed.byte?, hmissing, ensure, if_neg hheld, hfetch]
      refine ⟨?_, ?_⟩
      · simp [answerEvents, hmissing, ensureEvents, hheld, fetchEvents, hheeds, hcancelled, hfetch]
      · rw [hanswer]
        exact ⟨rfl, rfl⟩
  | _ => exact h.elim

/-- A feed that was not cancelled does fetch. -/
theorem answer_fetches (h : feed.Awaits q) (hlive : (feed.heedsCancel && feed.cancelled) = false) :
    ∃ fetch, .fetched fetch ∈ answerEvents q feed := by
  cases q with
  | byte ahead retain =>
      obtain ⟨hused, hended⟩ := h
      obtain ⟨missing, hmissing⟩ : ∃ missing,
          feed.window.pos + ahead + 1 - feed.window.used = missing + 1 :=
        ⟨feed.window.pos + ahead - feed.window.used, by omega⟩
      have hheld : ¬feed.window.pos + ahead < feed.window.used := by omega
      rw [answerEvents, hmissing, ensureEvents, if_neg hheld]
      simp only [fetchEvents, hended, hlive]
      exact ⟨_, List.mem_cons_self⟩
  | _ => exact h.elim

/-! ## Faults that are met -/

theorem meets_fetch (feed : Feed) (required : Nat) (retain : Retain) :
    Meets (feed.fetchEvents required retain) (faultOf? (feed.fetch required retain).1) := by
  unfold fetch fetchEvents
  by_cases hended : feed.window.ended
  · simp only [hended, Bool.true_or, if_true]
    exact .nothing
  by_cases hcancel : feed.heedsCancel && feed.cancelled
  · simp only [hcancel, hended, Bool.false_eq_true, Bool.or_true, if_true, if_false]
    exact .refused (List.forall_mem_nil _)
  simp only [hended, hcancel, Bool.false_eq_true, if_false, Bool.or_false]
  generalize feed.makeRoom required retain = roomy
  generalize roomy.source.read roomy.window.spare = outcome
  obtain ⟨delivery, source⟩ := outcome
  dsimp only
  cases hresult : delivery.result with
  | ok bytes => exact .fetched _ hresult .nothing
  | error message => exact .failed _ hresult (List.forall_mem_nil _)

theorem meets_ensure (ahead : Nat) (retain : Retain) (missing : Nat) (feed : Feed) :
    Meets (ensureEvents ahead retain missing feed)
      (faultOf? (ensure ahead retain missing feed).1) := by
  induction missing generalizing feed with
  | zero => exact .nothing
  | succ missing ih =>
      unfold ensure ensureEvents
      split
      · exact .nothing
      have hfetch := feed.meets_fetch (feed.window.pos + ahead + 1 - feed.window.used) retain
      dsimp only
      generalize feed.fetch (feed.window.pos + ahead + 1 - feed.window.used) retain = outcome
        at hfetch ⊢
      obtain ⟨result, feed₁⟩ := outcome
      cases result with
      | error fault =>
          dsimp only
          rw [List.append_nil]
          exact hfetch
      | ok n =>
          cases n with
          | zero =>
              dsimp only
              rw [List.append_nil]
              exact hfetch
          | succ n => exact hfetch.append (ih feed₁)

theorem meets_answer (q : Query) (feed : Feed) :
    Meets (answerEvents q feed) (q.fault? (answer q feed).1) := by
  cases q with
  | byte ahead retain =>
      have hensure := meets_ensure ahead retain
        (feed.window.pos + ahead + 1 - feed.window.used) feed
      rw [answerEvents, answer, Feed.byte?]
      generalize ensure ahead retain (feed.window.pos + ahead + 1 - feed.window.used) feed = outcome
        at hensure ⊢
      obtain ⟨fault | _, feed'⟩ := outcome <;> exact hensure
  | _ => exact .nothing

/-! ## Scans -/

variable {α : Type} {scan : Scan (Except ReadError α × State)} {kind : ErrorKind}

/-- The faults that the questions of a scan on a feed were answered with. -/
def scanFaults {α : Type} : Scan α → Feed → List FetchFault
  | .done _, _ => []
  | .ask q next, feed =>
    (q.fault? (answer q feed).1).toList ++ scanFaults (next (answer q feed).1) (answer q feed).2

/-- How a run ends that met a fault, or none. -/
def EndsWith (r : Except ReadError α) : Option FetchFault → Prop
  | none => ∀ e, r = .error e → e.kind.isFault = false
  | some fault => ∃ e, r = .error e ∧ e.kind = .ofFault fault

theorem EndsWith.map {β : Type} {r : Except ReadError α} (h : EndsWith r fault?) (f : α → β) :
    EndsWith (r.map f) fault? := by
  cases r with
  | error e =>
      cases fault? with
      | none =>
          rintro _ ⟨⟩
          exact h e rfl
      | some fault =>
          obtain ⟨_, ⟨⟩, hkind⟩ := h
          exact ⟨e, rfl, hkind⟩
  | ok a =>
      cases fault? with
      | none => exact nofun
      | some fault =>
          obtain ⟨e, he, -⟩ := h
          cases he

/-- A scan that only fails meets no fault and does not fetch. -/
theorem run_of_fails (h : scan.Fails kind) (feed : Feed) :
    (∃ e, (feed.run scan).1.1 = .error e ∧ e.kind = kind) ∧ scanFaults scan feed = [] ∧
      ∀ e ∈ scanEvents scan feed, ¬e.IsFetch := by
  induction scan generalizing feed with
  | done r => exact ⟨h, rfl, List.forall_mem_nil _⟩
  | ask q next ih =>
      have hidle : ¬feed.Awaits q := by
        cases q with
        | byte => cases h.1
        | _ => exact id
      obtain ⟨hevents, hfault, -⟩ := answer_idle hidle
      obtain ⟨hresult, hfaults, hquiet⟩ := ih _ (h.2 (answer q feed).1) (answer q feed).2
      refine ⟨hresult, ?_, ?_⟩
      · rw [scanFaults, hfault, hfaults]
        rfl
      · rw [scanEvents, hevents]
        exact List.forall_mem_cons.mpr ⟨id, hquiet⟩

/-- A scan that obeys its first fault ends with it, and meets no other. -/
theorem run_obeys (h : scan.Obeys) (feed : Feed) :
    ∃ fault?, Meets (scanEvents scan feed) fault? ∧ scanFaults scan feed = fault?.toList ∧
      EndsWith (feed.run scan).1.1 fault? := by
  induction scan generalizing feed with
  | done r => exact ⟨none, .nothing, rfl, h⟩
  | ask q next ih =>
      have hanswer := meets_answer q feed
      obtain ⟨hfault, hnone⟩ := h (answer q feed).1
      cases hq : q.fault? (answer q feed).1 with
      | some fault =>
          rw [hq] at hanswer
          obtain ⟨hresult, hfaults, hquiet⟩ := run_of_fails (hfault fault hq) (answer q feed).2
          refine ⟨some fault, ?_, ?_, hresult⟩
          · exact hanswer.append_quiet (List.forall_mem_cons.mpr ⟨id, hquiet⟩)
          · rw [scanFaults, hq, hfaults]
            rfl
      | none =>
          rw [hq] at hanswer
          obtain ⟨fault?, hmeets, hfaults, hends⟩ :=
            ih _ (hnone hq) (answer q feed).2
          refine ⟨fault?, hanswer.append (.paused _ hmeets), ?_, hends⟩
          rw [scanFaults, hq, hfaults]
          rfl

/-- A scan that is cancelled from the start does what it would have done, unless it would have
fetched. Then it does not fetch, and fails. -/
theorem run_cancel (h : scan.Obeys) (hheeds : feed.heedsCancel = true)
    (hlive : feed.cancelled = false) :
    (∀ e ∈ scanEvents scan feed, ¬e.IsFetch) ∧
      feed.cancel.run scan = ((feed.run scan).1, (feed.run scan).2.cancel) ∧
      EndsWith (feed.run scan).1.1 none ∨
    (∃ fetch, .fetched fetch ∈ scanEvents scan feed) ∧
      (∀ e ∈ scanEvents scan feed.cancel, ¬e.IsFetch) ∧
      EndsWith (feed.cancel.run scan).1.1 (some .cancelled) := by
  induction scan generalizing feed with
  | done r => exact .inl ⟨List.forall_mem_nil _, rfl, h⟩
  | ask q next ih =>
      by_cases hawaits : feed.Awaits q
      · obtain ⟨hevents, hfault, -⟩ :=
          answer_refused ((awaits_cancel feed q).mpr hawaits) hheeds rfl
        obtain ⟨fetch, hfetch⟩ := answer_fetches hawaits (by rw [hlive, Bool.and_false])
        obtain ⟨hresult, -, hquiet⟩ :=
          run_of_fails ((h (answer q feed.cancel).1).1 _ hfault) (answer q feed.cancel).2
        refine .inr ⟨⟨fetch, List.mem_append_left _ hfetch⟩, ?_, hresult⟩
        rw [scanEvents, hevents]
        exact List.forall_mem_cons.mpr ⟨id, hquiet⟩
      · obtain ⟨hevents, hfault, hheeds', hlive', hcancel⟩ := answer_idle hawaits
        obtain ⟨hevents', -⟩ := answer_idle (mt (awaits_cancel feed q).mp hawaits)
        have hrun : feed.cancel.run (.ask q next) =
            (answer q feed).2.cancel.run (next (answer q feed).1) := by
          rw [run, Scan.runWith, hcancel]
          rfl
        have hshown : scanEvents (.ask q next) feed.cancel =
            .paused (answer q feed).2.window ::
              scanEvents (next (answer q feed).1) (answer q feed).2.cancel := by
          rw [scanEvents, hevents', hcancel]
          rfl
        rw [scanEvents, hevents, hrun, hshown]
        rcases ih _ ((h (answer q feed).1).2 hfault) (hheeds'.trans hheeds) (hlive'.trans hlive) with
          ⟨hquiet, hsame, hends⟩ | ⟨⟨fetch, hfetch⟩, hquiet, hends⟩
        · exact .inl ⟨List.forall_mem_cons.mpr ⟨id, hquiet⟩, hsame, hends⟩
        · exact .inr ⟨⟨fetch, List.mem_cons_of_mem _ hfetch⟩,
            List.forall_mem_cons.mpr ⟨id, hquiet⟩, hends⟩

end Feed

end JsonPull
