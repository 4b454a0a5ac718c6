import JsonPull.Proofs.Lines.Token
import JsonPull.Proofs.Shift.Token
import JsonPull.Proofs.Tokenizer.Whole

/-! # Calls at shifted places

Two tokenizers that are where their streams go on alike, in one phase and with the same open containers,
show the same from there on, but for quotes and places. Lines are counted as anywhere else: by those in
what is consumed. -/

namespace JsonPull

/-! ## What is seen, but for places -/

/-- An error without its place in a line, and with lines counted from a given one. -/
structure RelativeError where
  kind : ErrorKind
  path : String
  line : Int
deriving DecidableEq

/-- What a tokenizer shows, without quotes and places in a line, and with lines counted from a given
one. -/
structure RelativeView where
  token : Token
  value? : Option Value
  path : String
  depth : Nat
  phase : Phase
  line : Int
deriving DecidableEq

def ReadError.relative (line : Nat) (e : ReadError) : RelativeError where
  kind := e.kind
  path := e.path
  line := e.line - line

def View.relative (line : Nat) (v : View) : RelativeView where
  token := v.token
  value? := v.value?
  path := v.path
  depth := v.depth
  phase := v.phase
  line := v.line - line

/-- What is seen of a call, but for quotes and places. -/
def relativeSeen (line : Nat) (seen : Except ReadError Answer × View) :
    Except RelativeError Answer × RelativeView :=
  (seen.1.mapError (ReadError.relative line), seen.2.relative line)

/-- What is seen of several calls, but for quotes and places. Lines are counted from the current one. -/
def Tokenizer.observeRelative (calls : List Call) (t : Tokenizer) :
    List (Except RelativeError Answer × RelativeView) :=
  (t.observe calls).map (relativeSeen t.line)

namespace Fork

variable {f : Fork} {settings : Settings} {r r' : Whole}

theorem Outcome.relative_eq {x x' : Except ReadError Answer} (h : f.Outcome Eq x x') :
    x'.mapError (ReadError.relative f.lines') = x.mapError (ReadError.relative f.lines) := by
  cases h with
  | ok h => exact congrArg Except.ok h.symm
  | error h =>
      have hline := h.line_eq
      simp only [Except.mapError, ReadError.relative, h.kind_eq, h.path_eq]
      congr 2
      omega

theorem States.relative_eq (h : f.States r.state r'.state) :
    (r'.view f.stream').relative f.lines' = (r.view f.stream).relative f.lines := by
  have hdepth : r'.state.depth = r.state.depth := by
    unfold State.depth
    rw [h.token_eq, h.frames_eq]
  have hline := h.lines_eq
  simp only [Whole.view, View.relative, Whole.value?, h.slots.value?_eq, h.token_eq, h.path_eq, hdepth,
    h.phase_eq, RelativeView.mk.injEq, true_and]
  omega

theorem movable_program (settings : Settings) (c : Call) : c.program.Movable f settings := by
  cases c with
  | read => exact Reading.movable_clearSlot.next fun _ => Reading.movable_token
  | readAs form => exact Reading.movable_clearSlot.next fun _ => Reading.movable_requested form.request

/-- One call answers alike at both places, and leaves both readers at one place again. -/
theorem call (settings : Settings) (c : Call) (hs : f.States r.state r'.state)
    (hpos : f.At r.cursor r'.cursor) :
    f.Outcome Eq (r.call settings f.stream c).1 (r'.call settings f.stream' c).1 ∧
      f.States (r.call settings f.stream c).2.state (r'.call settings f.stream' c).2.state ∧
      f.At (r.call settings f.stream c).2.cursor (r'.call settings f.stream' c).2.cursor := by
  obtain ⟨houtcome, hs₁, hpos₁⟩ := (movable_program settings c).run hs hpos
  rw [Whole.call_eq, Whole.call_eq]
  refine ⟨houtcome.map fun a b hab => ?_, hs₁, hpos₁⟩
  have hvalue : (r'.run settings f.stream' c.program).2.value? f.stream' =
      (r.run settings f.stream c.program).2.value? f.stream := hs₁.slots.value?_eq
  rw [hab, hvalue]

theorem observe_eq (settings : Settings) (hs : f.States r.state r'.state)
    (hpos : f.At r.cursor r'.cursor) (calls : List Call) :
    (r'.observe settings f.stream' calls).map (relativeSeen f.lines') =
      (r.observe settings f.stream calls).map (relativeSeen f.lines) := by
  induction calls generalizing r r' with
  | nil => rfl
  | cons c calls ih =>
      obtain ⟨houtcome, hs₁, hpos₁⟩ := call settings c hs hpos
      simp only [Whole.observe, List.map_cons, relativeSeen, houtcome.relative_eq, hs₁.relative_eq]
      exact congrArg _ (ih hs₁ hpos₁)

end Fork

/-! ## Lines -/

theorem Ahead.take_append {stream rest : List UInt8} {pos : Nat} (h : Ahead stream pos rest) :
    stream.take pos ++ rest = stream := by
  rw [← h, List.take_append_drop]

/-- The second stream of this fork has blanks in the place of the first bytes of a stream. -/
def Fork.blanked {stream : List UInt8} {pos : Nat} (h : pos ≤ stream.length) (line : Nat) : Fork where
  front := stream.take pos
  front' := List.replicate pos 0x20
  rest := stream.drop pos
  lines := line
  lines' := 1
  empty_iff := by
    rw [← List.length_eq_zero_iff, List.length_take_of_le h, List.replicate_eq_nil_iff]

theorem Fork.at_blanked {stream : List UInt8} {pos : Nat} (h : pos ≤ stream.length) (line : Nat)
    {p p' : Nat} : (Fork.blanked h line).At p p' ↔ p' = p ∧ pos ≤ p := by
  unfold Fork.At
  rw [show (Fork.blanked h line).front.length = pos from List.length_take_of_le h,
    show (Fork.blanked h line).front'.length = pos from List.length_replicate]
  constructor
  · rintro ⟨n, rfl, rfl⟩
    exact ⟨rfl, Nat.le_add_right pos n⟩
  · rintro ⟨rfl, hle⟩
    exact ⟨p' - pos, (Nat.add_sub_cancel' hle).symm, (Nat.add_sub_cancel' hle).symm⟩

theorem isBreak_of_mem_blanks {n : Nat} {b : UInt8} (h : b ∈ List.replicate n (0x20 : UInt8)) :
    isBreak b = false := by
  rw [List.eq_of_mem_replicate h]
  rfl

/-- Behind blanks, no line break has been passed. -/
theorem counted_blanks (n : Nat) (rest : List UInt8) :
    Counted (List.replicate n 0x20 ++ rest) {} n := by
  have htake : (List.replicate n 0x20 ++ rest).take n = List.replicate n 0x20 ++ [] := by
    rw [List.take_left' List.length_replicate, List.append_nil]
  refine ⟨?_, ?_, ?_⟩
  · rw [htake, lineBreaks_clear_append fun _ => isBreak_of_mem_blanks]
    rfl
  · rw [htake, List.append_nil, lastLine, List.reverse_replicate]
    simp [isBreak]
  · rintro ⟨hlast, -⟩
    rw [htake, List.append_nil] at hlast
    cases isBreak_of_mem_blanks (List.mem_of_getLast? hlast)

namespace Reading

variable {α : Type} {settings : Settings} {stream : List UInt8} {s : State} {pos : Nat}

/-- A reading that counts lines, and does not depend on its place, counts those in what it consumes,
whatever line it begins in. -/
theorem gives_lines {x : Reading α} (hmovable : ∀ f, x.Movable f settings)
    (hcounts : ∀ stream s pos, Counted stream s.lines pos → x.Counts settings stream s pos)
    (hslot : s.slot = .empty) (hpos : pos ≤ stream.length) :
    x.Gives settings stream s pos fun _ s' pos' => ∃ consumed rest,
      Ahead stream pos (consumed ++ rest) ∧ Ahead stream pos' rest ∧
        s'.lines.line = s.lines.line + lineBreaks consumed := by
  -- Behind blanks, the lines are counted from the first one, and the count goes on alike.
  let f := Fork.blanked hpos s.lines.line
  let s₀ : State := { s with lines := {} }
  have hstates : f.States s s₀ := by
    refine ⟨rfl, rfl, rfl, ?_, Nat.add_comm _ _⟩
    change f.Slots s.slot s.slot
    rw [hslot]
    exact .empty
  have hat : f.At pos pos := (Fork.at_blanked hpos _).mpr ⟨rfl, le_rfl⟩
  refine ⟨fun a s' pos' hrun => ?_⟩
  obtain ⟨houtcome, hstates', hat'⟩ := (hmovable f).run hstates hat
  have hcount := (hcounts f.stream' s₀ pos (counted_blanks pos _)).run
  rw [show f.stream = stream from List.take_append_drop pos stream, hrun] at houtcome hstates' hat'
  generalize ((x.run settings).run.run s₀).runWith (tape f.stream') pos = r
    at houtcome hstates' hat' hcount
  obtain ⟨⟨r, s₀'⟩, pos₀'⟩ := r
  obtain ⟨hpos₀, hle⟩ : pos₀' = pos' ∧ pos ≤ pos' := (Fork.at_blanked hpos _).mp hat'
  subst hpos₀
  cases houtcome with
  | ok h =>
      obtain ⟨n, rfl⟩ := Nat.exists_eq_add_of_le hle
      refine ⟨(stream.drop pos).take n, stream.drop (pos + n), ?_, rfl, ?_⟩
      · rw [Ahead, ← List.drop_drop, List.take_append_drop]
      · have htake : f.stream'.take (pos + n) =
            List.replicate pos 0x20 ++ (stream.drop pos).take n := by
          rw [show f.stream' = List.replicate pos 0x20 ++ stream.drop pos from rfl, List.take_append,
            List.length_replicate, Nat.add_sub_cancel_left, List.take_of_length_le (by simp)]
        have hline := (hcount _ _ _ rfl).line
        rw [htake, lineBreaks_clear_append fun _ => isBreak_of_mem_blanks] at hline
        have hshift : s'.lines.line + 1 = s₀'.lines.line + s.lines.line := hstates'.lines_eq
        omega

theorem gives_program_lines (settings : Settings) (s : State) (c : Call) (hpos : pos ≤ stream.length) :
    c.program.Gives settings stream s pos fun _ s' pos' => ∃ consumed rest,
      Ahead stream pos (consumed ++ rest) ∧ Ahead stream pos' rest ∧
        s'.lines.line = s.lines.line + lineBreaks consumed := by
  cases c with
  | read =>
      refine (gives_bind _ _).mpr ((gives_modify _).mpr ?_)
      exact gives_lines (fun f => movable_token) (fun _ _ _ => counts_token) rfl hpos
  | readAs form =>
      refine (gives_bind _ _).mpr ((gives_modify _).mpr ?_)
      exact gives_lines (fun f => movable_requested form.request)
        (fun _ _ _ => counts_requested form.request) rfl hpos

end Reading

namespace Tokenizer

variable {t t' : Tokenizer} {stream stream' rest : List UInt8} {value : Value}

/-- Whatever the state is that it begins in, a call that succeeds counts the line breaks in what it
consumes. -/
theorem Sound.call_lines (h : t.Sound stream) {c : Call} {a : Answer} (hok : (t.call c).1 = .ok a) :
    ∃ consumed rest, Ahead stream t.feed.window.cursor (consumed ++ rest) ∧
      Ahead stream (t.call c).2.feed.window.cursor rest ∧
        (t.call c).2.line = t.line + lineBreaks consumed := by
  have hcall := (h.call c).1
  rw [Whole.call_eq] at hcall
  have hresult := congrArg (·.1) hcall
  have hstate := congrArg (·.2.state) hcall
  have hcursor := congrArg (·.2.cursor) hcall
  have hgives := (Reading.gives_program_lines t.options.settings t.state c h.cursor_le).run
  dsimp only [whole, Whole.run] at hresult hstate hcursor
  unfold line
  rw [hstate, hcursor]
  generalize ((c.program.run t.options.settings).run.run t.state).runWith (tape stream)
    t.feed.window.cursor = outcome at hresult hgives ⊢
  obtain ⟨⟨r, s⟩, pos⟩ := outcome
  cases r with
  | error e => cases hok.symm.trans hresult
  | ok b => exact hgives b s pos rfl

/-- Where two streams go on alike, and two tokenizers are there with the same token, in one phase and with
the same open containers, they show the same from there on. -/
theorem Sound.observeRelative_eq (h : t.Sound stream) (h' : t'.Sound stream')
    (hoptions : t'.options = t.options) (hahead : Ahead stream t.feed.window.cursor rest)
    (hahead' : Ahead stream' t'.feed.window.cursor rest)
    (hcursor : t.feed.window.cursor = 0 ↔ t'.feed.window.cursor = 0)
    (hphase : t'.state.phase = t.state.phase) (htoken : t'.state.token = t.state.token)
    (hframes : t'.state.frames = t.state.frames) (hslot : t.state.slot = .owned value)
    (hslot' : t'.state.slot = .owned value) (calls : List Call) :
    t'.observeRelative calls = t.observeRelative calls := by
  have hlength := List.length_take_of_le h.cursor_le
  have hlength' := List.length_take_of_le h'.cursor_le
  let f : Fork :=
    { front := stream.take t.feed.window.cursor
      front' := stream'.take t'.feed.window.cursor
      rest
      lines := t.line
      lines' := t'.line
      empty_iff := by
        rw [← List.length_eq_zero_iff, ← List.length_eq_zero_iff, hlength, hlength', hcursor] }
  have hstream : f.stream = stream := hahead.take_append
  have hstream' : f.stream' = stream' := hahead'.take_append
  have hslots : f.Slots t.whole.state.slot t'.whole.state.slot := by
    change f.Slots t.state.slot t'.state.slot
    rw [hslot, hslot']
    exact .owned value
  have hstates : f.States t.whole.state t'.whole.state :=
    ⟨hphase, htoken, hframes, hslots, Nat.add_comm _ _⟩
  have hat : f.At t.whole.cursor t'.whole.cursor := ⟨0, hlength.symm, hlength'.symm⟩
  have hobserve := Fork.observe_eq t.options.settings hstates hat calls
  rw [hstream, hstream', ← observe_whole h] at hobserve
  rw [← hoptions, ← observe_whole h'] at hobserve
  exact hobserve

end Tokenizer

end JsonPull
