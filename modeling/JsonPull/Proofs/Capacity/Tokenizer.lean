import JsonPull.Proofs.Advance.Tokenizer
import JsonPull.Proofs.Capacity.Typed
import JsonPull.Proofs.Grammar.Soundness
import JsonPull.Proofs.Tokenizer.Fair

/-! # The longest token bounds the window

On a plain stream the window of a tokenizer stays within a multiple of the longest token, however
long the stream is and however its blanks are spread. A minus sign is looked behind before the window
is settled, so that it doubles wherever the sign happens to be its last byte. -/

namespace JsonPull

variable {stream : List UInt8} {longest limit : Nat}

theorem Reading.confined_program (c : Call) {h : Horizon} (hplain : Plain longest (stream.drop h.pos)) :
    c.program.Confined stream (longest + 8) h fun _ h' => Plain longest (stream.drop h'.pos) := by
  cases c with
  | read =>
      refine (confined_modify _).bind ?_
      rintro _ _ rfl
      exact confined_token hplain
  | readAs form =>
      refine (confined_modify _).bind ?_
      rintro _ _ rfl
      exact confined_requested form.request hplain

namespace Tokenizer

variable {t : Tokenizer}

/-- A tokenizer without a pool, whose window has at most `limit` bytes, at a token of a plain
stream. -/
structure Frugal (stream : List UInt8) (longest limit : Nat) (t : Tokenizer) : Prop where
  steady : t.feed.Steady
  fits : ∃ delivered, ∃ d : Reach stream.length, t.feed.Fits stream delivered d
  pool : t.feed.pool = none
  capacity_le : t.feed.window.capacity ≤ limit
  plain : Plain longest (stream.drop t.feed.window.cursor)

/-- No window of more than `limit` bytes is seen during a call or after it. If it succeeds, it leaves
the tokenizer at the next token. -/
theorem Frugal.call (h : t.Frugal stream longest limit) (hlimit : 20 * (longest + 8) ≤ limit)
    (c : Call) : Feed.Bounded limit (t.callEvents c) ∧ (t.call c).2.feed.window.capacity ≤ limit ∧
      ∀ a, (t.call c).1 = .ok a → (t.call c).2.Frugal stream longest limit := by
  obtain ⟨delivered, d, hfits⟩ := h.fits
  obtain ⟨delivered', d', hcalled⟩ := called c hfits
  have hensures := ensures_program c t.state d t.options.settings
  have hmodest : t.feed.Modest limit ⟨t.feed.window.cursor, 0, false, none⟩ :=
    ⟨⟨h.capacity_le, nofun⟩, Nat.zero_le _, nofun, h.pool⟩
  have hconfined := (Reading.confined_program c (h := ⟨t.feed.window.cursor, 0, false, none⟩)
    h.plain).run t.options.settings t.state
  obtain ⟨hevents, h', hlast, hmodest', hpos⟩ :=
    Feed.modest_run h.steady hfits hensures.run hfits.cursor.symm hconfined hmodest hlimit
  obtain ⟨-, -, hsteady⟩ := Feed.run_tape h.steady hfits hensures.run
  have hfeed : (t.call c).2.feed = (t.run c.program).2.feed := by rw [call_eq]
  refine ⟨?_, ?_, fun a ha => ?_⟩
  · rw [callEvents_eq]
    exact hevents
  · rw [hfeed]
    exact hmodest'.window.capacity_le
  · refine ⟨?_, ⟨delivered', d', hcalled.moves.fits⟩, ?_, ?_, ?_⟩
    · rw [hfeed]
      exact hsteady
    · rw [hfeed]
      exact hmodest'.pool
    · rw [hfeed]
      exact hmodest'.window.capacity_le
    · rw [hfeed]
      rw [call_eq] at ha
      cases hr : (t.run c.program).1 with
      | error e => simp [hr, Except.map] at ha
      | ok b =>
          have hplain := hlast b hr
          rw [hpos] at hplain
          exact hplain

theorem frugal_ofSource (options : Options) (hpooled : options.pooled = false) {source : Source}
    (hsteady : source.Steady) (pool : Pool) (heeds : Bool) (hplain : Plain longest source.bytes) :
    (ofSource options source pool heeds).Frugal source.bytes longest
      (max options.initialCapacity (20 * (longest + 8))) := by
  refine ⟨⟨⟨hsteady.fair, nofun⟩, hsteady.quiet, rfl⟩,
    ⟨[], _, fits_ofSource options source pool heeds⟩, ?_, ?_, hplain⟩
  · simp [ofSource, Feed.start, Feed.rent, hpooled]
  · have hcapacity : (ofSource options source pool heeds).feed.window.capacity =
        max options.initialCapacity 1 := by
      simp [ofSource, Feed.start, Feed.rent, hpooled, Window.capacity, Pool.size_zeroBlock]
    omega

/-- Without a pool and on a plain stream, the window never exceeds what it began with or twenty times
the longest token with eight bytes more, as long as calls succeed and during the call that fails. -/
theorem capacity_bounded (options : Options) (hpooled : options.pooled = false) {source : Source}
    (hsteady : source.Steady) (pool : Pool) (heeds : Bool) {longest : Nat}
    (hplain : Plain longest source.bytes) (calls : List Call) {tokens : List Token} {t : Tokenizer}
    (h : Grammar.follow calls (ofSource options source pool heeds) = some (tokens, t)) (c : Call) :
    t.feed.window.capacity ≤ max options.initialCapacity (20 * (longest + 8)) ∧
      Feed.Bounded (max options.initialCapacity (20 * (longest + 8))) (t.callEvents c) ∧
      (t.call c).2.feed.window.capacity ≤ max options.initialCapacity (20 * (longest + 8)) := by
  have hlimit : 20 * (longest + 8) ≤ max options.initialCapacity (20 * (longest + 8)) :=
    le_max_right _ _
  have hfrugal := Grammar.follow_keeps (fun t c a h ha => (Frugal.call h hlimit c).2.2 a ha)
    (frugal_ofSource options hpooled hsteady pool heeds hplain) h
  obtain ⟨hevents, hcapacity, -⟩ := hfrugal.call hlimit c
  exact ⟨hfrugal.capacity_le, hevents, hcapacity⟩

/-- The array `["x",12]`, byte by byte into a block of one byte: behind the bracket, the string is
read. -/
theorem capacity_bounded_bytewise :
    let source : Source :=
      { script := [.bytes ⟨#[0x5B, 0x22, 0x78, 0x22, 0x2C, 0x31, 0x32, 0x5D]⟩ 0], limit := some 1 }
    let start := ofSource { initialCapacity := 1 } source {} false
    ∃ t, source.Steady ∧ Plain 3 source.bytes ∧
      Grammar.follow [.read] start = some ([.opening .array], t) ∧
      (t.call .read).2.token = .scalar .string ∧
      t.feed.window.capacity ≤ max 1 (20 * (3 + 8)) ∧
      Feed.Bounded (max 1 (20 * (3 + 8))) (t.callEvents .read) ∧
      (t.call .read).2.feed.window.capacity ≤ max 1 (20 * (3 + 8)) := by
  intro source start
  have hsteady : source.Steady := by decide
  have hdigits : ∀ b ∈ [0x31, 0x32], Lexeme.isByte b = true := by decide +kernel
  have hclose : Plain 3 [0x5D] := .token (.mark (by decide) .done)
  have hnumber : Begins 3 0x31 ([0x31, 0x32] ++ [0x5D]) :=
    .number (.inl (by decide)) hdigits (.mark (by decide)) (by decide) hclose
  have hcomma : Plain 3 [0x2C, 0x31, 0x32, 0x5D] := .token (.mark (by decide) (.token hnumber))
  have hbody : Closes 0x22 [0x78, 0x22] := .plain (by decide) (by decide) .quote
  have hstring : Begins 3 0x22 ([0x22, 0x78, 0x22] ++ [0x2C, 0x31, 0x32, 0x5D]) :=
    .quoted (.inl rfl) hbody (by decide) hcomma
  have hplain : Plain 3 source.bytes := .token (.mark (by decide) (.token hstring))
  have hopened : (start.call .read).1 = .ok (.found true) := by decide +kernel
  have htoken : (start.call .read).2.token = .opening .array := by decide +kernel
  have hread : ((start.call .read).2.call .read).2.token = .scalar .string := by decide +kernel
  have hfollow : Grammar.follow [.read] start = some ([.opening .array], (start.call .read).2) := by
    rw [← htoken]
    exact follow_one (pair_eq hopened)
  exact ⟨_, hsteady, hplain, hfollow, hread,
    capacity_bounded { initialCapacity := 1 } rfl hsteady {} false hplain [.read] hfollow .read⟩

/-- A minus sign that is the last byte of a block of 101 doubles it, for a number of two bytes. -/
theorem minus_doubles_capacity :
    let source : Source :=
      { script := [.bytes ⟨(List.replicate 100 (0x20 : UInt8) ++ [0x2D, 0x31]).toArray⟩ 0] }
    ((ofSource { initialCapacity := 101 } source {} false).call .read).2.feed.window.capacity = 202 ∧
      max 101 (20 * (2 + 8)) = 200 := by
  decide +kernel

end Tokenizer

end JsonPull
