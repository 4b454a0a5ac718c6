import JsonPull.Proofs.Grammar.Soundness
import JsonPull.Proofs.Lines.Token
import JsonPull.Proofs.Tokenizer.Fair

/-! # The lines that a tokenizer shows

However the bytes of a stream arrive, the line and the position are those of the bytes that were
consumed, and no call that succeeds ends within a line break. -/

namespace JsonPull

variable {stream : List UInt8} {t : Tokenizer}

namespace Whole

variable {α : Type} {settings : Settings} {r : Whole}

theorem counted_run {x : Reading α} {a : α} (hcounted : Counted stream r.state.lines r.cursor)
    (hx : Counted stream r.state.clearSlot.lines r.cursor →
      x.Counts settings stream r.state.clearSlot r.cursor)
    (hok : (r.run settings stream (do modify State.clearSlot; x)).1 = .ok a) :
    Counted stream (r.run settings stream (do modify State.clearSlot; x)).2.state.lines
      (r.run settings stream (do modify State.clearSlot; x)).2.cursor := by
  have hgives : (do modify State.clearSlot; x).Counts settings stream r.state r.cursor := by
    unfold Reading.Counts
    rw [Reading.gives_bind, Reading.gives_modify]
    exact hx hcounted
  unfold run at hok ⊢
  have hpost := hgives.run
  generalize (((do modify State.clearSlot; x : Reading α).run settings).run.run r.state).runWith
    (tape stream) r.cursor = outcome at hok hpost ⊢
  obtain ⟨⟨e | b, s⟩, pos⟩ := outcome
  · cases hok
  · exact hpost b s pos rfl

/-- A call that succeeds counts the lines of what it consumed. -/
theorem counted_call (hcounted : Counted stream r.state.lines r.cursor) {c : Call} {a : Answer}
    (hok : (r.call settings stream c).1 = .ok a) :
    Counted stream (r.call settings stream c).2.state.lines (r.call settings stream c).2.cursor := by
  cases c with
  | read =>
      cases hrun : (r.run settings stream Tokenizer.next).1 with
      | error e => simp [call, hrun, Except.map] at hok
      | ok b => exact counted_run hcounted Reading.counts_token hrun
  | readAs form =>
      cases hrun : (r.run settings stream (Tokenizer.requesting form.request)).1 with
      | error e => simp [call, hrun, Except.map] at hok
      | ok b => exact counted_run hcounted (Reading.counts_requested form.request) hrun

end Whole

namespace Tokenizer

theorem counted_call (h : t.Upright stream)
    (hcounted : Counted stream t.state.lines t.feed.window.cursor) {c : Call} {a : Answer}
    (hok : (t.call c).1 = .ok a) :
    Counted stream (t.call c).2.state.lines (t.call c).2.feed.window.cursor := by
  have hwhole := h.call_whole (hok ▸ settled_ok a)
  have hlines := congrArg (fun r => r.2.state.lines) hwhole
  have hcursor := congrArg (fun r => r.2.cursor) hwhole
  have hresult := congrArg (·.1) hwhole
  dsimp only [whole] at hlines hcursor hresult
  rw [hlines, hcursor]
  exact Whole.counted_call hcounted (hresult.symm.trans hok)

theorem Upright.cursor_le (h : t.Upright stream) : t.feed.window.cursor ≤ stream.length := by
  obtain ⟨delivered, d, hfits, -⟩ := h.held
  exact hfits.follows.cursor_le.trans hfits.follows.length_le

/-- Behind any calls that succeed, on whatever input in whatever parts: the line is one more than the
line breaks in the bytes that were consumed, the position is the number of them behind the last line
break, and they do not end between a return and its feed. -/
theorem follow_counts_lines (options : Options) {source : Source} (hfair : source.Fair)
    (pool : Pool) (heeds : Bool) (calls : List Call) {tokens : List Token} {t : Tokenizer}
    (h : Grammar.follow calls (ofSource options source pool heeds) = some (tokens, t)) :
    ∃ consumed rest, source.bytes = consumed ++ rest ∧
      consumed.length = t.feed.window.cursor ∧
      t.line = 1 + lineBreaks consumed ∧
      t.position = lastLine consumed ∧
      ¬ SplitsBreak consumed rest := by
  have hcall : ∀ (t : Tokenizer) (c : Call) (a : Answer),
      t.Upright source.bytes ∧ Counted source.bytes t.state.lines t.feed.window.cursor →
      (t.call c).1 = .ok a → (t.call c).2.Upright source.bytes ∧
        Counted source.bytes (t.call c).2.state.lines (t.call c).2.feed.window.cursor :=
    fun _ c _ h hok => ⟨h.1.call c, counted_call h.1 h.2 hok⟩
  obtain ⟨hupright, hcounted⟩ := Grammar.follow_keeps hcall
    ⟨upright_ofSource options hfair pool heeds, counted_zero source.bytes⟩ h
  refine ⟨_, _, (List.take_append_drop t.feed.window.cursor source.bytes).symm, ?_, hcounted.line,
    ?_, hcounted.whole⟩
  · exact List.length_take_of_le hupright.cursor_le
  · have hstart := hcounted.start
    unfold position Lines.position
    omega

/-- The text `[`, a return with its feed, a lone return, a lone feed, `1 `, one byte at a time. The
number takes the reader to the fourth line. -/
theorem follow_counts_lines_mixed :
    let source : Source :=
      { script := [.bytes ⟨#[0x5B, 0x0D, 0x0A, 0x0D, 0x0A, 0x0A, 0x31, 0x20]⟩ 0], limit := some 1 }
    let start := ofSource { initialCapacity := 1 } source {} false
    source.Fair ∧ ∃ tokens t, Grammar.follow [.read, .readAs .int32] start = some (tokens, t) ∧
      tokens = [.opening .array, .scalar .integer] ∧ t.line = 4 ∧ t.position = 1 ∧
      ∃ consumed rest, source.bytes = consumed ++ rest ∧
        consumed.length = t.feed.window.cursor ∧
        t.line = 1 + lineBreaks consumed ∧
        t.position = lastLine consumed ∧
        ¬ SplitsBreak consumed rest := by
  intro source start
  have hfair : source.Fair := (by decide : source.Steady).fair
  have hrun : (Grammar.follow [.read, .readAs .int32] start).map
      (fun r => (r.1, r.2.line, r.2.position)) =
        some ([.opening .array, .scalar .integer], 4, 1) := by decide +kernel
  obtain ⟨⟨tokens, t⟩, hfollow, hshown⟩ := Option.map_eq_some_iff.mp hrun
  simp only [Prod.mk.injEq] at hshown
  exact ⟨hfair, tokens, t, hfollow, hshown.1, hshown.2.1, hshown.2.2,
    follow_counts_lines { initialCapacity := 1 } hfair {} false _ hfollow⟩

end Tokenizer

end JsonPull
