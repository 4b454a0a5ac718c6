import JsonPull.Proofs.Stream.Fault
import JsonPull.Proofs.Tokenizer.Run

/-! # Cancelled calls and failed fetches

A call that heeds a cancelled token is refused at its first fetch, and is not disturbed if it needs
none. A fetch that fails is the last one of its call, and the call fails with it. -/

namespace JsonPull.Tokenizer

open Feed Reading

variable {α : Type} {manner : Manner} {t : Tokenizer}

/-- The tokenizer whose calls heed a token that is cancelled, or is not. -/
def heeding (cancelled : Bool) (t : Tokenizer) : Tokenizer :=
  { t with feed := { t.feed with heedsCancel := true, cancelled } }

/-- The faults that a program met instead of bytes. -/
def runFaults (reading : Reading α) (t : Tokenizer) : List FetchFault :=
  scanFaults ((reading.run t.options.settings).run.run t.state) t.feed

/-- The faults that a call met instead of bytes. -/
def callFaults (c : Call) (t : Tokenizer) : List FetchFault :=
  t.runFaults c.program

/-! ## Programs -/

theorem run_meets {x : Reading α} (hx : x.Straight manner) (t : Tokenizer) :
    ∃ fault?, Meets (t.runEvents x) fault? ∧ t.runFaults x = fault?.toList ∧
      EndsWith (t.run x).1 fault? :=
  run_obeys (hx.obeys t.options.settings t.state) t.feed

theorem run_cancelled {x : Reading α} (hx : x.Straight manner)
    (hheeds : t.feed.heedsCancel = true) (hlive : t.feed.cancelled = false) :
    (∀ e ∈ t.runEvents x, ¬e.IsFetch) ∧
      t.cancel.run x = ((t.run x).1, (t.run x).2.cancel) ∧ EndsWith (t.run x).1 none ∨
    (∃ fetch, .fetched fetch ∈ t.runEvents x) ∧ (∀ e ∈ t.cancel.runEvents x, ¬e.IsFetch) ∧
      EndsWith (t.cancel.run x).1 (some .cancelled) := by
  rcases run_cancel (hx.obeys t.options.settings t.state) hheeds hlive with
    ⟨hquiet, hsame, hends⟩ | hrefused
  · refine .inl ⟨hquiet, ?_, hends⟩
    have hrun : t.cancel.run x = _ := congrArg
      (fun r : (Except ReadError α × State) × Feed =>
        (r.1.1, ({ t.cancel with state := r.1.2, feed := r.2 } : Tokenizer))) hsame
    exact hrun
  · exact .inr hrefused

/-! ## Calls -/

theorem call_meets (c : Call) (t : Tokenizer) :
    ∃ fault?, Meets (t.callEvents c) fault? ∧ t.callFaults c = fault?.toList ∧
      EndsWith (t.call c).1 fault? := by
  obtain ⟨fault?, hmeets, hfaults, hends⟩ := run_meets (straight_program c) t
  rw [callEvents_eq, call_eq]
  exact ⟨fault?, hmeets, hfaults, hends.map _⟩

theorem call_cancelled (c : Call) (hheeds : t.feed.heedsCancel = true)
    (hlive : t.feed.cancelled = false) :
    (∀ e ∈ t.callEvents c, ¬e.IsFetch) ∧
      t.cancel.call c = ((t.call c).1, (t.call c).2.cancel) ∧ EndsWith (t.call c).1 none ∨
    (∃ fetch, .fetched fetch ∈ t.callEvents c) ∧ (∀ e ∈ t.cancel.callEvents c, ¬e.IsFetch) ∧
      EndsWith (t.cancel.call c).1 (some .cancelled) := by
  rw [callEvents_eq, callEvents_eq, call_eq, call_eq]
  rcases run_cancelled (straight_program c) hheeds hlive with
    ⟨hquiet, hsame, hends⟩ | ⟨hfetch, hquiet, hends⟩
  · refine .inl ⟨hquiet, ?_, hends.map _⟩
    rw [hsame]
    rfl
  · exact .inr ⟨hfetch, hquiet, hends.map _⟩

/-- With a cancelled token, a call fails as cancelled and does not read from the source exactly if
it would read from it with a token that is not cancelled; else it ends as it would with that token
and leaves the same tokenizer. A read from the source that fails is the last one of its call. Every
fault that a call meets is what the call fails with, and it fails with a fault for no other
reason. -/
theorem call_all_or_nothing (c : Call) (t : Tokenizer) :
    (((∃ e, ((t.heeding true).call c).1 = .error e ∧ e.kind = .cancelled) ∧
        ∀ fetch, .fetched fetch ∉ (t.heeding true).callEvents c) ↔
      ∃ fetch, .fetched fetch ∈ (t.heeding false).callEvents c) ∧
    ((∀ fetch, .fetched fetch ∉ (t.heeding false).callEvents c) →
      (t.heeding true).call c =
        (((t.heeding false).call c).1, ((t.heeding false).call c).2.cancel)) ∧
    (∀ before fetch after message, t.callEvents c = before ++ .fetched fetch :: after →
      fetch.delivery.result = .error message →
      (∀ later, .fetched later ∉ after) ∧
        ∃ e, (t.call c).1 = .error e ∧ e.kind = .io message) ∧
    (∀ fault ∈ t.callFaults c, t.callFaults c = [fault] ∧
      ∃ e, (t.call c).1 = .error e ∧ e.kind = .ofFault fault) ∧
    ∀ e, (t.call c).1 = .error e → e.kind.isFault = true →
      ∃ fault ∈ t.callFaults c, e.kind = .ofFault fault := by
  have hcancelled := call_cancelled (t := t.heeding false) c rfl rfl
  obtain ⟨fault?, hmeets, hfaults, hends⟩ := call_meets c t
  refine ⟨⟨?_, ?_⟩, ?_, ?_, ?_, ?_⟩
  · rintro ⟨⟨e, he, hkind⟩, -⟩
    rcases hcancelled with ⟨-, hsame, hends⟩ | ⟨hfetch, -⟩
    · have hfault := hends e ((congrArg Prod.fst hsame).symm.trans he)
      rw [hkind] at hfault
      cases hfault
    · exact hfetch
  · rintro ⟨fetch, hfetch⟩
    rcases hcancelled with ⟨hquiet, -⟩ | ⟨-, hquiet, hends⟩
    · exact (hquiet _ hfetch trivial).elim
    · exact ⟨hends, fun fetch hfetch => hquiet _ hfetch trivial⟩
  · intro hnone
    rcases hcancelled with ⟨-, hsame, -⟩ | ⟨⟨fetch, hfetch⟩, -⟩
    · exact hsame
    · exact absurd hfetch (hnone fetch)
  · intro before fetch after message hevents hresult
    rw [hevents] at hmeets
    obtain ⟨rfl, hquiet⟩ := hmeets.of_failed hresult
    exact ⟨fun later hlater => hquiet _ hlater trivial, hends⟩
  · intro fault hfault
    rw [hfaults, Option.mem_toList] at hfault
    obtain rfl : fault? = some fault := hfault
    exact ⟨hfaults, hends⟩
  · intro e he hkind
    cases fault? with
    | none => exact absurd ((hends e he).symm.trans hkind) Bool.false_ne_true
    | some fault =>
        obtain ⟨e', he', hkind'⟩ := hends
        obtain rfl := Except.error.inj (he.symm.trans he')
        exact ⟨fault, by simp [hfaults], hkind'⟩

/-- The first read is refused; once the digit is there and the source has ended, none is. -/
example :
    let t := ofSource { initialCapacity := 2 } (.ofBytes "1".toUTF8) {} true
    t.cancel.callFaults .read = [.cancelled] ∧
      ((t.call .read).2.cancel.callFaults .read = []) := by
  decide +kernel

end JsonPull.Tokenizer
