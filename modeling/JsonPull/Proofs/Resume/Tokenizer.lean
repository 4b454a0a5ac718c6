import JsonPull.Proofs.Advance.Tokenizer
import JsonPull.Proofs.Lines.Tokenizer
import JsonPull.Proofs.Resume.Next
import JsonPull.Proofs.Resume.Token

/-! # A failed conversion resumes behind its value

A call that reads a number or a string, and fails only to convert it, leaves the tokenizer where a
call that succeeds leaves it, and the next call behaves as if the element had been read. -/

namespace JsonPull

variable {stream scalar rest bytes : List UInt8}

/-! ## Lines within a scalar -/

theorem isBreak_of_lineBreaks (h : lineBreaks bytes = 0) : ∀ b ∈ bytes, isBreak b = false := by
  induction bytes using lineBreaks.induct with
  | case1 => exact fun b hb => absurd hb List.not_mem_nil
  | case2 bytes ih => simp [lineBreaks] at h
  | case3 b bytes hpair hbreak ih => simp [lineBreaks.eq_3 b bytes hpair, hbreak] at h
  | case4 b bytes hpair hbreak ih =>
      rw [lineBreaks.eq_3 b bytes hpair, if_neg hbreak] at h
      intro c hc
      rcases List.mem_cons.mp hc with rfl | hc
      · simpa using hbreak
      · exact ih h c hc

theorem lastLine_append_of_breaks (before : List UInt8) (h : lineBreaks bytes ≠ 0) :
    lastLine (before ++ bytes) = lastLine bytes := by
  have hbreak : ¬ ∀ b ∈ bytes.reverse, (!isBreak b) = true := by
    intro hclear
    refine h (lineBreaks_clear fun b hb => ?_)
    simpa using hclear b (List.mem_reverse.mpr hb)
  unfold lastLine
  rw [List.reverse_append, List.takeWhile_append, if_neg]
  intro hlength
  have hall : bytes.reverse.takeWhile (fun b => !isBreak b) = bytes.reverse :=
    List.IsPrefix.eq_of_length (List.takeWhile_prefix _) hlength
  exact hbreak (List.takeWhile_eq_self_iff.mp hall)

/-- A scalar begins with no line feed. -/
theorem IsScalar.head_ne (h : IsScalar scalar rest) : scalar.head? ≠ some 0x0A := by
  cases h with
  | number hfirst hbytes =>
      rintro ⟨⟩
      have hbyte := hbytes 0x0A (by simp)
      exact absurd hbyte (by decide)
  | quoted hquote =>
      rintro ⟨⟩
      rcases hquote with hquote | hquote <;> cases hquote

/-- What was counted before a scalar and behind it tells the line breaks in it. -/
theorem Counted.across {lines lines' : Lines} {pos : Nat} (hscalar : IsScalar scalar rest)
    (hahead : Ahead stream pos (scalar ++ rest)) (h : Counted stream lines pos)
    (h' : Counted stream lines' (pos + scalar.length)) :
    lines'.line = lines.line + lineBreaks scalar ∧
      if lineBreaks scalar = 0 then lines'.start = lines.start
      else lines'.start + lastLine scalar = pos + scalar.length := by
  have htake : stream.take (pos + scalar.length) = stream.take pos ++ scalar := by
    rw [List.take_add, hahead.slice]
  have hsplit : ¬ SplitsBreak (stream.take pos) scalar := fun hs => hscalar.head_ne hs.2
  have hstart := h.start
  have hstart' := h'.start
  have hline' := h'.line
  rw [htake] at hstart' hline'
  constructor
  · rw [hline', lineBreaks_append hsplit, h.line, Nat.add_assoc]
  · split
    · rename_i hnone
      rw [lastLine_append_clear _ (isBreak_of_lineBreaks hnone)] at hstart'
      omega
    · rename_i hbreaks
      rwa [lastLine_append_of_breaks _ hbreaks] at hstart'

namespace Whole

variable {α : Type} {settings : Settings} {r : Whole}

theorem overcomes_run {x : Reading α}
    (h : x.Overcomes settings stream r.state.clearSlot r.cursor scalar)
    (hscanned : Scanned (r.run settings stream (do modify State.clearSlot; x)).1) :
    (r.run settings stream (do modify State.clearSlot; x)).2.cursor = r.cursor + scalar.length ∧
      Behind settings stream r.state.clearSlot
        (r.run settings stream (do modify State.clearSlot; x)).2.state
        (r.run settings stream (do modify State.clearSlot; x)).2.cursor :=
  h.run _ _ _ rfl hscanned

/-- A call that is completed ends behind the scalar at the cursor. -/
theorem overcomes_call (hphase : r.state.phase.expectsValue = true) (hscalar : IsScalar scalar rest)
    (hahead : Ahead stream r.cursor (scalar ++ rest))
    (hcounted : Counted stream r.state.lines r.cursor) {c : Call}
    (hscanned : Scanned (r.call settings stream c).1) :
    (r.call settings stream c).2.cursor = r.cursor + scalar.length ∧
      Behind settings stream r.state.clearSlot (r.call settings stream c).2.state
        (r.call settings stream c).2.cursor := by
  rw [call_eq] at hscanned ⊢
  have hrun := scanned_map hscanned
  cases c with
  | read => exact overcomes_run (Reading.overcomes_token hphase hscalar hahead hcounted) hrun
  | readAs form =>
      exact overcomes_run (Reading.overcomes_requested form.request hphase hscalar hahead hcounted)
        hrun

end Whole

namespace Tokenizer

variable {t t' : Tokenizer} {c : Call}

/-- Where a tokenizer is behind the scalar at the cursor of another one: the lines are those of the
bytes between, the innermost container is at its next element, and a value is complete. -/
structure Resumed (t : Tokenizer) (scalar : List UInt8) (t' : Tokenizer) : Prop where
  cursor_eq : t'.feed.window.cursor = t.feed.window.cursor + scalar.length
  line_eq : t'.line = t.line + lineBreaks scalar
  start_eq : if lineBreaks scalar = 0 then t'.state.lines.start = t.state.lines.start
    else t'.state.lines.start + lastLine scalar = t'.feed.window.cursor
  frames_eq : t'.state.frames = t.state.frames.modifyHead Frame.advance
  phase_eq : t'.phase =
    if t.state.frames ≠ [] ∨ t.options.multipleValues = true then .postValue else .finished

theorem settled_of_scanned {α : Type} {result : Except ReadError α} (h : Scanned result) :
    Settled result := by
  intro e he
  have hconversion := h e he
  cases hkind : e.kind <;> simp_all [ErrorKind.isConversion, ErrorKind.isFault]

theorem Upright.resumed (h : t.Upright stream)
    (hcounted : Counted stream t.state.lines t.feed.window.cursor)
    (hphase : t.phase.expectsValue = true) (hscalar : IsScalar scalar rest)
    (hahead : Ahead stream t.feed.window.cursor (scalar ++ rest))
    (hscanned : Scanned (t.call c).1) : t.Resumed scalar (t.call c).2 := by
  have hwhole := h.call_whole (settled_of_scanned hscanned)
  have hresult := congrArg (·.1) hwhole
  have hcursor := congrArg (fun r => r.2.cursor) hwhole
  have hstate := congrArg (fun r => r.2.state) hwhole
  dsimp only [whole] at hresult hcursor hstate
  rw [hresult] at hscanned
  obtain ⟨hend, hbehind⟩ := Whole.overcomes_call hphase hscalar hahead hcounted hscanned
  rw [← hcursor, ← hstate] at hbehind
  rw [← hcursor] at hend
  have hend : (t.call c).2.feed.window.cursor = t.feed.window.cursor + scalar.length := hend
  have hbehindCounted := hbehind.counted
  rw [hend] at hbehindCounted
  obtain ⟨hline, hstart⟩ := hcounted.across hscalar hahead hbehindCounted
  refine ⟨hend, hline, hend ▸ hstart, ?_, ?_⟩
  · rw [hbehind.frames_eq]
    cases hframes : t.state.frames <;> simp [State.clearSlot, State.countElement, hframes]
  · have hphase' := hbehind.phase_eq
    unfold phase
    rw [hphase']
    have hsettings : t.options.settings.multipleValues = t.options.multipleValues := rfl
    cases hframes : t.state.frames <;> cases hmultiple : t.options.multipleValues <;>
      simp [State.clearSlot, State.completeValue, hsettings, hframes, hmultiple]

/-! ## The next call -/

/-- The same tokenizer, behind another token with another value. -/
def showing (t : Tokenizer) (token : Token) (slot : Slot) : Tokenizer :=
  { t with state := { t.state with token, slot } }

theorem run_showing {α : Type} {x : Reading α} {token : Token} {slot : Slot}
    (hopen : t.phase ≠ .closed) (hx : x.Forgets t.options.settings) :
    ((t.showing token slot).run (do modify State.clearSlot; x)).1 =
        (t.run (do modify State.clearSlot; x)).1 ∧
      ∀ a, (t.run (do modify State.clearSlot; x)).1 = .ok a →
        (t.showing token slot).run (do modify State.clearSlot; x) =
          t.run (do modify State.clearSlot; x) := by
  have hstates : State.Open t.state.clearSlot (t.showing token slot).state.clearSlot :=
    ⟨rfl, hopen⟩
  obtain ⟨⟨hresult, hafter⟩, hfeed⟩ := (hx.run hstates).runWith Feed.answer t.feed
  refine ⟨hresult, fun a ha => ?_⟩
  have hlast : ((t.showing token slot).run (do modify State.clearSlot; x)).2 =
      (t.run (do modify State.clearSlot; x)).2 :=
    congrArg₂ (Tokenizer.mk t.options) (hafter a ha) hfeed
  exact Prod.ext hresult hlast

theorem run_program_showing (token : Token) (slot : Slot) (hopen : t.phase ≠ .closed) (c : Call) :
    ((t.showing token slot).run c.program).1 = (t.run c.program).1 ∧
      ∀ a, (t.run c.program).1 = .ok a → (t.showing token slot).run c.program = t.run c.program := by
  cases c with
  | read => exact run_showing hopen Reading.forgets_token
  | readAs form => exact run_showing hopen (Reading.forgets_requested form.request)

/-- The next call answers or fails as it would behind any other token. If it succeeds, it leaves the
same tokenizer. -/
theorem call_showing {token : Token} {slot : Slot} (hopen : t.phase ≠ .closed) (c : Call) :
    ((t.showing token slot).call c).1 = (t.call c).1 ∧
      ∀ answer, (t.call c).1 = .ok answer → (t.showing token slot).call c = t.call c := by
  obtain ⟨hresult, hequal⟩ := run_program_showing token slot hopen c
  rw [call_eq, call_eq]
  cases hrun : (t.run c.program).1 with
  | error e =>
      rw [hrun] at hresult
      rw [hresult]
      exact ⟨rfl, nofun⟩
  | ok a =>
      rw [hequal a hrun]
      simp only [hrun, implies_true, and_self]

/-! ## Failed conversions -/

/-- At a number with something behind it that may end it, or at a string that is closed and has no
invalid escape: a call that succeeds, or fails only to convert the value, leaves the tokenizer behind
it. From there the next call behaves as behind any token that could have been read. -/
theorem conversion_resumes (options : Options) {source : Source} (hfair : source.Fair)
    (pool : Pool) (heeds : Bool) (calls : List Call) {tokens : List Token} {t : Tokenizer}
    (h : Grammar.follow calls (ofSource options source pool heeds) = some (tokens, t))
    (hphase : t.phase.expectsValue = true) {scalar rest : List UInt8}
    (hahead : source.bytes.drop t.feed.window.cursor = scalar ++ rest)
    (hscalar : IsScalar scalar rest) (c : Call) (hscanned : Scanned (t.call c).1) :
    t.Resumed scalar (t.call c).2 ∧ ∀ token slot next,
      (((t.call c).2.showing token slot).call next).1 = ((t.call c).2.call next).1 ∧
        ∀ answer, ((t.call c).2.call next).1 = .ok answer →
          ((t.call c).2.showing token slot).call next = (t.call c).2.call next := by
  have hcall : ∀ (t : Tokenizer) (c : Call) (a : Answer),
      t.Upright source.bytes ∧ Counted source.bytes t.state.lines t.feed.window.cursor →
      (t.call c).1 = .ok a → (t.call c).2.Upright source.bytes ∧
        Counted source.bytes (t.call c).2.state.lines (t.call c).2.feed.window.cursor :=
    fun _ c _ h hok => ⟨h.1.call c, counted_call h.1 h.2 hok⟩
  obtain ⟨hupright, hcounted⟩ := Grammar.follow_keeps hcall
    ⟨upright_ofSource options hfair pool heeds, counted_zero source.bytes⟩ h
  have hresumed := hupright.resumed hcounted hphase hscalar hahead hscanned
  have hopen : (t.call c).2.phase ≠ .closed := by
    rw [hresumed.phase_eq]
    split <;> nofun
  exact ⟨hresumed, fun token slot next => call_showing hopen next⟩

/-- In an array, the string `"\u0041`, a line break, `x"` is no integer. The element behind it, in
the second line, is read next. -/
theorem conversion_resumes_broken_string :
    let source : Source :=
      { script := [.bytes ⟨#[0x5B, 0x22, 0x5C, 0x75, 0x30, 0x30, 0x34, 0x31, 0x0D]⟩ 0,
          .bytes ⟨#[0x0A, 0x78, 0x22, 0x2C, 0x37, 0x5D]⟩ 0], limit := some 2 }
    let start := ofSource { initialCapacity := 1 } source {} false
    let scalar : List UInt8 := 0x22 :: (0x5C :: 0x75 :: ([0x30, 0x30, 0x34, 0x31] ++
      [0x0D, 0x0A, 0x78, 0x22]))
    let rest : List UInt8 := [0x2C, 0x37, 0x5D]
    ∃ t, source.Fair ∧ Grammar.follow [.read] start = some ([.opening .array], t) ∧
      t.phase.expectsValue = true ∧ source.bytes.drop t.feed.window.cursor = scalar ++ rest ∧
      IsScalar scalar rest ∧
      (t.call (.readAs .int32)).1 = .error
        { kind := .ofNumberFault (.unconvertible "integer" "A\r\nx"), path := "[0]", line := 2,
          position := 2 } ∧
      t.Resumed scalar (t.call (.readAs .int32)).2 ∧
      ((t.call (.readAs .int32)).2.call (.readAs .int32)).1 = .ok (.int32 (some 7)) ∧
      ∀ token slot next,
        (((t.call (.readAs .int32)).2.showing token slot).call next).1 =
            ((t.call (.readAs .int32)).2.call next).1 ∧
          ∀ answer, ((t.call (.readAs .int32)).2.call next).1 = .ok answer →
            ((t.call (.readAs .int32)).2.showing token slot).call next =
              (t.call (.readAs .int32)).2.call next := by
  intro source start scalar rest
  have hfair : source.Fair := (by decide : source.Steady).fair
  have hopened : (start.call .read).1 = .ok (.found true) := by decide +kernel
  have htoken : (start.call .read).2.token = .opening .array := by decide +kernel
  have hphase : (start.call .read).2.phase.expectsValue = true := by decide +kernel
  have hahead : source.bytes.drop (start.call .read).2.feed.window.cursor = scalar ++ rest := by
    decide +kernel
  have hfailed : ((start.call .read).2.call (.readAs .int32)).1 = .error
      { kind := .ofNumberFault (.unconvertible "integer" "A\r\nx"), path := "[0]", line := 2,
        position := 2 } := by decide +kernel
  have hnext : (((start.call .read).2.call (.readAs .int32)).2.call (.readAs .int32)).1 =
      .ok (.int32 (some 7)) := by decide +kernel
  have hfollow : Grammar.follow [.read] start =
      some ([.opening .array], (start.call .read).2) := by
    rw [← htoken]
    exact follow_one (pair_eq hopened)
  have hbody : Closes 0x22 (0x5C :: 0x75 :: ([0x30, 0x30, 0x34, 0x31] ++
      [0x0D, 0x0A, 0x78, 0x22])) := by
    have hunit : Json.IsUnit [0x30, 0x30, 0x34, 0x31] (0x1000 * 0 + 0x100 * 0 + 0x10 * 4 + 1) :=
      .mk (.inl ⟨by decide, rfl⟩) (.inl ⟨by decide, rfl⟩) (.inl ⟨by decide, rfl⟩)
        (.inl ⟨by decide, rfl⟩)
    have hplain : Closes 0x22 [0x0D, 0x0A, 0x78, 0x22] :=
      .plain (by decide) (by decide) (.plain (by decide) (by decide)
        (.plain (by decide) (by decide) .quote))
    exact .unit hunit hplain
  have hscanned : Scanned ((start.call .read).2.call (.readAs .int32)).1 := by
    rw [hfailed]
    rintro _ ⟨⟩
    rfl
  obtain ⟨hresumed, hbehaves⟩ := conversion_resumes { initialCapacity := 1 } hfair {} false _ hfollow
    hphase hahead (.quoted (.inl rfl) hbody) (.readAs .int32) hscanned
  exact ⟨_, hfair, hfollow, hphase, hahead, .quoted (.inl rfl) hbody, hfailed, hresumed, hnext,
    hbehaves⟩

end Tokenizer

end JsonPull
