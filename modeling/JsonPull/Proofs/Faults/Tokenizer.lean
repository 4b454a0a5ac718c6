import JsonPull.Proofs.Faults.Between
import JsonPull.Proofs.Tokenizer.Fair

/-! # Reading on after a fault

A caller may read again after a fetch has failed. If the fault struck between two tokens, nothing is
lost. If it struck within a token, what was consumed of the token is gone. -/

namespace JsonPull

namespace Source

/-- The source without its faults. -/
def healed (source : Source) : Source :=
  { source with script := source.script.filter (·.isQuiet source.waiting) }

theorem scriptBytes_filter {waiting : Waiting} (script : List Part) :
    scriptBytes (script.filter (·.isQuiet waiting)) = scriptBytes script := by
  induction script with
  | nil => rfl
  | cons part rest ih =>
      cases part with
      | bytes data start =>
          have hkept : (Part.bytes data start :: rest).filter (·.isQuiet waiting) =
              .bytes data start :: rest.filter (·.isQuiet waiting) := rfl
          rw [hkept, scriptBytes, scriptBytes, ih]
      | failure | interrupted | pending | cancel =>
          rw [List.filter_cons]
          split <;> exact ih

theorem bytes_healed (source : Source) : source.healed.bytes = source.bytes :=
  scriptBytes_filter source.script

theorem Fair.healed {source : Source} (h : source.Fair) : source.healed.Steady := by
  refine ⟨⟨h.isOpen, h.limit, fun data start hmem => ?_⟩, fun part hmem => ?_⟩
  · exact h.filled data start (List.mem_of_mem_filter hmem)
  · exact (List.mem_filter.mp hmem).2

end Source

theorem State.clearSlot_of_empty {s : State} (h : s.slot = .empty) : s.clearSlot = s := by
  cases s
  cases h
  rfl

namespace Tokenizer

/-- A read left off between two tokens: it passed nothing but blanks, comments that are not surfaced
and a separator. -/
def LeftBetween (stream : List UInt8) (t t' : Tokenizer) : Prop :=
  Reading.Between t.options.settings stream t.state.clearSlot t.feed.window.cursor t'.state
    t'.feed.window.cursor

/-- Plain reads, and what is seen after those that succeed. After a fault that struck between two
tokens, reading goes on. -/
inductive Retried (stream : List UInt8) : Tokenizer → List (Bool × View) → Tokenizer → Prop where
  | done (t : Tokenizer) : Retried stream t [] t
  | read {t t' last : Tokenizer} {b : Bool} {seen : List (Bool × View)} (h : t.read = (.ok b, t'))
      (hrest : Retried stream t' seen last) : Retried stream t ((b, t'.view) :: seen) last
  | retry {t t' last : Tokenizer} {e : ReadError} {seen : List (Bool × View)}
      (h : t.read = (.error e, t')) (hfault : e.kind.isFault = true)
      (hbetween : LeftBetween stream t t')
      (hrest : Retried stream t' seen last) : Retried stream t seen last

variable {stream : List UInt8} {t last : Tokenizer} {seen : List (Bool × View)}

/-- A reader of the whole stream that is where the next token of the tokenizer can be read from sees
the tokens of all the reads that succeed. -/
theorem Retried.whole (hretried : t.Retried stream seen last) (h : t.Upright stream) (w : Whole)
    (hw : ∀ post, Reading.token.Succeeds t.options.settings stream t.state.clearSlot
      t.feed.window.cursor post →
        Reading.token.Succeeds t.options.settings stream w.state.clearSlot w.cursor post) :
    w.observe t.options.settings stream (List.replicate seen.length .read) =
      seen.map fun (b, v) => (.ok (.found b), v) := by
  induction hretried generalizing w with
  | done => rfl
  | @read t t' last b seen hread _ ih =>
      have hupright := h.call .read
      have hoptions := options_call .read t
      rw [call_read_eq hread] at hupright hoptions
      obtain ⟨_, _, _, hrun, rfl, rfl, rfl⟩ := hw
        (fun b' s' pos' => b = b' ∧ t'.state = s' ∧ t'.feed.window.cursor = pos')
        ⟨_, _, _, read_ends h hread, rfl, rfl, rfl⟩
      have hnext : w.run t.options.settings stream next = (.ok b, t'.whole) :=
        Whole.run_iff_ends.mpr hrun
      have hcall : w.call t.options.settings stream .read = (.ok (.found b), t'.whole) := by
        rw [Whole.call, hnext]
        rfl
      have hrest := ih hupright t'.whole fun _ => id
      rw [hoptions] at hrest
      rw [List.length_cons, List.replicate_succ, Whole.observe, hcall, List.map_cons, hupright.view]
      exact congrArg (_ :: ·) hrest
  | @retry t t' last e seen hread _ hbetween _ ih =>
      have hupright := h.call .read
      have hoptions := options_call .read t
      rw [call_read_eq hread] at hupright hoptions
      have hrest := ih hupright w
      rw [hoptions] at hrest
      refine hrest fun post hsucceeds => hw post (hbetween.token ?_)
      rw [State.clearSlot_of_empty hbetween.slot_eq] at hsucceeds
      exact hsucceeds

/-- If all faults strike between tokens, the reads that succeed are those of the source without its
faults, whatever they show. -/
theorem retried_reads_healed (options : Options) {source : Source} (hfair : source.Fair)
    (pool pool' : Pool) (heeds heeds' : Bool)
    (h : (ofSource options source pool heeds).Retried source.bytes seen last) :
    (ofSource options source.healed pool' heeds').observe (List.replicate seen.length .read) =
      seen.map fun (b, v) => (.ok (.found b), v) := by
  have hsound := sound_ofSource options hfair.healed pool' heeds'
  rw [observe_whole hsound, source.bytes_healed]
  exact h.whole (upright_ofSource options hfair pool heeds) {} fun _ => id

/-- The text `[1 , 2]`, with a fault before the comma and one before the second number. -/
theorem retried_reads_healed_list :
    let source : Source :=
      { script := [.bytes ⟨#[0x5B, 0x31, 0x20]⟩ 0, .failure "reset", .bytes ⟨#[0x2C, 0x20]⟩ 0,
          .failure "reset", .bytes ⟨#[0x32, 0x5D]⟩ 0] }
    let start := ofSource { initialCapacity := 2 } source {} false
    ∃ seen last, source.Fair ∧ start.Retried source.bytes seen last ∧
      seen.map (fun r => r.2.value?) = [none, some (.integer 1), some (.integer 2), none] ∧
      (ofSource { initialCapacity := 2 } source.healed {} false).observe
        (List.replicate seen.length .read) = seen.map fun (b, v) => (.ok (.found b), v) := by
  intro source start
  have hfair : source.Fair := by
    refine ⟨rfl, nofun, fun data first hmem => ?_⟩
    simp only [source, List.mem_cons, Part.bytes.injEq, reduceCtorEq, List.not_mem_nil, or_false,
      false_or] at hmem
    rcases hmem with ⟨rfl, rfl⟩ | ⟨rfl, rfl⟩ | ⟨rfl, rfl⟩ <;> decide
  have hopening : start.read.1 = .ok true := by decide +kernel
  have hone : start.read.2.read.1 = .ok true := by decide +kernel
  have hfault : start.read.2.read.2.read.1 = .error ⟨.io "reset", "[0]", 1, 3⟩ := by decide +kernel
  have hfault' : start.read.2.read.2.read.2.read.1 = .error ⟨.io "reset", "[0]", 1, 5⟩ := by
    decide +kernel
  have htwo : start.read.2.read.2.read.2.read.2.read.1 = .ok true := by decide +kernel
  have hclosing : start.read.2.read.2.read.2.read.2.read.2.read.1 = .ok true := by decide +kernel
  have hblank : LeftBetween source.bytes start.read.2.read.2 start.read.2.read.2.read.2 := by
    have hstate : start.read.2.read.2.read.2.state = start.read.2.read.2.state.clearSlot := by
      decide +kernel
    have hcursor : start.read.2.read.2.read.2.feed.window.cursor =
        start.read.2.read.2.feed.window.cursor + 1 := by decide +kernel
    have hspace : source.bytes[start.read.2.read.2.feed.window.cursor]? = some 0x20 := by
      decide +kernel
    unfold LeftBetween
    rw [hstate, hcursor]
    exact .blank (.ascii hspace (by decide) (by decide) (by decide) rfl) (by decide +kernel)
      (.here _ _)
  have hcomma : LeftBetween source.bytes start.read.2.read.2.read.2
      start.read.2.read.2.read.2.read.2 := by
    have hstate : start.read.2.read.2.read.2.read.2.state =
        start.read.2.read.2.read.2.state.clearSlot.resumeContainer
          start.read.2.read.2.read.2.options.settings := by decide +kernel
    have hcursor : start.read.2.read.2.read.2.read.2.feed.window.cursor =
        start.read.2.read.2.read.2.feed.window.cursor + 1 + 1 := by decide +kernel
    have hget : source.bytes[start.read.2.read.2.read.2.feed.window.cursor]? = some 0x2C := by
      decide +kernel
    have hspace : source.bytes[start.read.2.read.2.read.2.feed.window.cursor + 1]? = some 0x20 := by
      decide +kernel
    unfold LeftBetween
    rw [hstate, hcursor]
    exact .comma (by decide +kernel) hget (.blank (.ascii hspace (by decide) (by decide) (by decide)
      rfl) (by decide +kernel) (.here _ _))
  have hretried : start.Retried source.bytes _ _ :=
    .read (pair_eq hopening) (.read (pair_eq hone) (.retry (pair_eq hfault) rfl hblank
      (.retry (pair_eq hfault') rfl hcomma (.read (pair_eq htwo) (.read (pair_eq hclosing)
        (.done _))))))
  exact ⟨_, _, hfair, hretried, by decide +kernel, retried_reads_healed _ hfair _ _ _ _ hretried⟩

/-- A fault within a number. The text is `[123]`, and the fault strikes behind the 2: the digits before
it are lost, and the number that is read is 3. -/
theorem retried_number_loses_digits :
    let source : Source :=
      { script := [.bytes ⟨#[0x5B, 0x31, 0x32]⟩ 0, .failure "reset", .bytes ⟨#[0x33, 0x5D]⟩ 0] }
    let start := ofSource { initialCapacity := 2 } source {} false
    let healed := ofSource { initialCapacity := 2 } source.healed {} false
    (start.observe [.read, .read, .read]).map (fun r => (r.1.isOk, r.2.value?)) =
        [(true, none), (false, none), (true, some (.integer 3))] ∧
      (healed.observe [.read, .read]).map (fun r => (r.1.isOk, r.2.value?)) =
        [(true, none), (true, some (.integer 123))] := by
  decide +kernel

end Tokenizer

end JsonPull
