import JsonPull.Proofs.Tokenizer.Call

/-! # Operations

The window of a tokenizer is faithful to its source, whatever is done with the tokenizer, as long as
it is open. Closed tokenizers leave their source alone. -/

namespace JsonPull

/-- What can be done with a tokenizer. Calls that heed cancellation fail before they fetch when they
are cancelled; the others pay no attention to it. -/
inductive Operation where
  | call (c : Call)
  | heed (b : Bool)
  | cancel
  | uncancel
  | close
deriving DecidableEq, Repr

namespace Tokenizer

/-- The tokenizer after an operation, whether it succeeded or not. -/
def after : Operation → Tokenizer → Tokenizer
  | .call c, t => (t.call c).2
  | .heed b, t => { t with feed := { t.feed with heedsCancel := b } }
  | .cancel, t => t.cancel
  | .uncancel, t => t.uncancel
  | .close, t => t.close

/-- What an operation shows of the feed. -/
def operationEvents : Operation → Tokenizer → List Event
  | .call c, t => t.callEvents c
  | _, _ => []

/-- The tokenizer after several operations. -/
def afterAll : List Operation → Tokenizer → Tokenizer
  | [], t => t
  | op :: ops, t => afterAll ops (t.after op)

/-- What several operations show of the feed. -/
def events : List Operation → Tokenizer → List Event
  | [], _ => []
  | op :: ops, t => t.operationEvents op ++ events ops (t.after op)

end Tokenizer

/-- The bytes that events brought, in their order. -/
def deliveredBy (events : List Event) : List UInt8 :=
  events.flatMap Event.bytes

/-! ## What events tell -/

namespace Course

variable {delivered delivered' : List UInt8} {ended ended' : Bool} {before after : List Event}
  {w : Window} {fetch : Fetch}

theorem no_fetch {events : List Event} (h : Course delivered true events delivered' ended')
    (fetch : Fetch) : .fetched fetch ∉ events := by
  generalize hended : true = ended at h
  induction h with
  | nil => exact List.not_mem_nil
  | fetched => cases hended
  | paused w _ _ ih =>
      intro hmem
      rcases List.mem_cons.mp hmem with heq | hmem
      · cases heq
      · exact ih hended hmem

theorem paused_holds (h : Course delivered ended (before ++ .paused w :: after) delivered' ended') :
    w.Holds (delivered ++ deliveredBy before) := by
  induction before generalizing delivered ended with
  | nil =>
      cases h with
      | paused _ hholds _ => simpa [deliveredBy] using hholds
  | cons e before ih =>
      cases h with
      | fetched fetch _ _ hrest =>
          have hholds := ih hrest
          rwa [List.append_assoc] at hholds
      | paused w' _ hrest => exact ih hrest

theorem fetched_holds
    (h : Course delivered ended (before ++ .fetched fetch :: after) delivered' ended') :
    fetch.window.Holds (delivered ++ deliveredBy before) ∧ fetch.required < fetch.window.spare ∧
      (fetch.delivery.isLast = true → ∀ later, .fetched later ∉ after) := by
  induction before generalizing delivered ended with
  | nil =>
      cases h with
      | fetched _ hholds hspare hrest =>
          refine ⟨by simpa [deliveredBy] using hholds, hspare, fun hlast later => ?_⟩
          rw [hlast] at hrest
          exact hrest.no_fetch later
  | cons e before ih =>
      cases h with
      | fetched first _ _ hrest =>
          have hholds := ih hrest
          rwa [List.append_assoc] at hholds
      | paused w' _ hrest => exact ih hrest

end Course

/-! ## Open tokenizers -/

namespace Tokenizer

variable {stream delivered : List UInt8} {d : Reach stream.length} {t : Tokenizer}

theorem moves_after {op : Operation} (hfits : t.feed.Fits stream delivered d)
    (hop : op ≠ .close) :
    ∃ delivered' d', Feed.Moves stream delivered t.feed d (t.operationEvents op) delivered'
      (t.after op).feed d' := by
  -- The switches of cancellation touch neither the window nor the source.
  have hswitch : ∀ cancelled heedsCancel, Feed.Moves stream delivered t.feed d [] delivered
      { t.feed with cancelled, heedsCancel } d := fun _ _ =>
    ⟨⟨⟨hfits.follows.holds, hfits.follows.split⟩, hfits.anchored, hfits.cursor, hfits.seen⟩, le_rfl,
      .nil _ _, rfl, fun hf => ⟨hf.source, hf.ended⟩⟩
  cases op with
  | call c =>
      obtain ⟨delivered', d', hcalled⟩ := called c hfits
      exact ⟨delivered', d', hcalled.moves⟩
  | heed b => exact ⟨delivered, d, hswitch _ _⟩
  | cancel => exact ⟨delivered, d, hswitch _ _⟩
  | uncancel => exact ⟨delivered, d, hswitch _ _⟩
  | close => exact absurd rfl hop

theorem moves_afterAll {ops : List Operation} (hfits : t.feed.Fits stream delivered d)
    (hops : .close ∉ ops) :
    ∃ delivered' d', Feed.Moves stream delivered t.feed d (t.events ops) delivered'
      (t.afterAll ops).feed d' := by
  induction ops generalizing t delivered d with
  | nil => exact ⟨delivered, d, .refl hfits⟩
  | cons op ops ih =>
      obtain ⟨hop, hrest⟩ := not_or.mp (mt List.mem_cons.mpr hops)
      obtain ⟨delivered₁, d₁, h₁⟩ := moves_after hfits fun h => hop h.symm
      obtain ⟨delivered₂, d₂, h₂⟩ := ih h₁.fits hrest
      exact ⟨delivered₂, d₂, h₁.trans h₂⟩

/-! ## Closed tokenizers -/

theorem run_done {α : Type} {x : Reading α} {r : Except ReadError α} {s : State}
    (h : (x.run t.options.settings).run.run t.state = .done (r, s)) :
    (t.run x).2.state = s ∧ t.runEvents x = [] := by
  unfold run runEvents
  rw [h]
  exact ⟨rfl, rfl⟩

/-- On a closed tokenizer, a call only clears the value. -/
theorem run_program_closed (settings : Settings) {s : State} (c : Call) (h : s.phase = .closed) :
    ∃ r, (c.program.run settings).run.run s = .done (.ok r, s.clearSlot) := by
  obtain ⟨lines, phase, token, slot, quote, frames⟩ := s
  cases h
  cases c with
  | read => exact ⟨false, rfl⟩
  | readAs form => exact ⟨(), rfl⟩

theorem after_closed (op : Operation) (h : t.phase = .closed) :
    (t.after op).phase = .closed ∧ t.operationEvents op = [] := by
  have hclear : t.state.clearSlot.phase = .closed := h
  cases op with
  | call c =>
      obtain ⟨r, hrun⟩ := run_program_closed t.options.settings c h
      obtain ⟨hstate, hevents⟩ := run_done hrun
      refine ⟨?_, (callEvents_eq c t).trans hevents⟩
      change (t.call c).2.state.phase = .closed
      rw [call_eq, hstate, hclear]
  | heed b => exact ⟨h, rfl⟩
  | cancel => exact ⟨h, rfl⟩
  | uncancel => exact ⟨h, rfl⟩
  | close =>
      refine ⟨?_, rfl⟩
      change t.close.phase = .closed
      rwa [close, if_pos h]

theorem events_closed {ops : List Operation} (h : t.phase = .closed) : t.events ops = [] := by
  induction ops generalizing t with
  | nil => rfl
  | cons op ops ih =>
      have hclosed := after_closed op h
      rw [events, hclosed.2, List.nil_append, ih hclosed.1]

theorem phase_close (t : Tokenizer) : t.close.phase = .closed := by
  unfold close
  split
  · assumption
  · rfl

/-! ## All runs -/

/-- What is seen of a run over a source while it goes on: the window before and after each event
holds what was delivered until then, nothing was delivered twice or lost, and every room that the
source was offered is larger than required, until a read brings nothing. -/
structure Faithful (source : Source) (events : List Event) (t : Tokenizer) : Prop where
  window : t.feed.window.Holds (deliveredBy events)
  split : deliveredBy events ++ t.feed.source.bytes = source.bytes
  paused : ∀ before w after, events = before ++ .paused w :: after → w.Holds (deliveredBy before)
  fetched : ∀ before fetch after, events = before ++ .fetched fetch :: after →
    fetch.window.Holds (deliveredBy before) ∧ fetch.required + 1 ≤ fetch.window.spare ∧
      (fetch.delivery.isLast = true → ∀ later, .fetched later ∉ after)
  offered : t.feed.offers = Feed.offered events
  ended : source.Fair → t.feed.window.ended = true → deliveredBy events = source.bytes

/-- However a tokenizer is used before it is closed, its window is a faithful view of its source and
its cursor never goes back. Nothing is asked of the source once it is closed. -/
theorem afterAll_faithful (options : Options) (source : Source) (pool : Pool) (heeds : Bool)
    (ops : List Operation) (hops : .close ∉ ops) :
    let start := ofSource options source pool heeds
    let t := start.afterAll ops
    Faithful source (start.events ops) t ∧
      (∀ op, op ≠ .close → t.feed.window.cursor ≤ (t.after op).feed.window.cursor) ∧
      ∀ later, (t.after .close).events later = [] := by
  intro start t
  obtain ⟨delivered, d, hmoves⟩ := moves_afterAll (fits_ofSource options source pool heeds) hops
  have hdelivered : delivered = deliveredBy (start.events ops) := by
    simpa [deliveredBy] using hmoves.course.delivered_eq
  subst hdelivered
  have hsplit := hmoves.fits.follows.split
  refine ⟨⟨hmoves.fits.follows.holds, hsplit, ?_, ?_, ?_, ?_⟩, ?_, ?_⟩
  · intro before w after heq
    have hcourse := hmoves.course
    rw [show start.events ops = _ from heq] at hcourse
    exact hcourse.paused_holds
  · intro before fetch after heq
    have hcourse := hmoves.course
    rw [show start.events ops = _ from heq] at hcourse
    exact hcourse.fetched_holds
  · exact hmoves.offers.trans (List.append_nil _)
  · intro hfair hended
    have hnone := (hmoves.fair ⟨hfair, nofun⟩).ended hended
    rwa [show t.feed.source.bytes = [] from hnone, List.append_nil] at hsplit
  · intro op hop
    obtain ⟨delivered', d', hafter⟩ := moves_after hmoves.fits hop
    have hle := hafter.pos_le
    rw [hmoves.fits.cursor, hafter.fits.cursor] at hle
    exact hle
  · intro later
    exact events_closed (phase_close t)

/-- A read of the text `[1`, a cancellation, and a read that it stops. -/
theorem afterAll_faithful_cancelled :
    let ops : List Operation := [.call .read, .cancel, .call (.readAs .int32)]
    let start := ofSource { initialCapacity := 2 } (Source.ofBytes ⟨#[0x5B, 0x31]⟩) {} true
    .close ∉ ops ∧ deliveredBy (start.events ops) = [0x5B, 0x31] ∧
      Faithful (Source.ofBytes ⟨#[0x5B, 0x31]⟩) (start.events ops) (start.afterAll ops) := by
  refine ⟨by decide, by decide +kernel, ?_⟩
  exact (afterAll_faithful _ _ _ _ _ (by decide)).1

end Tokenizer

end JsonPull
