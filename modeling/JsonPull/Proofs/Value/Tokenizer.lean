import JsonPull.Proofs.Value.Number

/-! # Calls that read a number

Integers are read exactly, whatever form their literals have, and all calls agree on which texts are
numbers. -/

namespace JsonPull

open JsonPull.Number JsonPull.Json

variable {settings : Settings} {stream text rest : List UInt8} {s : State} {pos : Nat} {c : Call}

/-- The requests that a number can answer, as one or as a truth value. -/
def Request.admitsNumbers (request : Request) : Bool :=
  request.takesNumbers || request == .boolean

namespace Reading

theorem lands_requestedNumber {request : Request} (hrequest : request.admitsNumbers = true)
    (h : IsLexeme text rest) (hahead : Ahead stream pos (text ++ rest)) :
    (requestedNumber request).Lands settings stream s pos
      (Converted settings stream rest s (Lexeme.entry settings request text)) := by
  cases request with
  | bytes | dateTime | dateTimeOffset => cases hrequest
  | boolean => exact lands_truth h hahead
  | plain | int32 | decimal | double | string => exact lands_numberValue nofun h hahead

theorem lands_negativeValue {request : Request} {number : Reading Unit} {more : List UInt8}
    (h : IsLexeme (0x2D :: more) rest) (hahead : Ahead stream pos (0x2D :: more ++ rest))
    {last : Except ReadError Unit → State → Nat → Prop}
    (hnumber : number.Lands settings stream s pos last) :
    (negativeValue request number).Lands settings stream s pos last := by
  have hletter : stream[pos + 1]? ≠ some 0x49 :=
    ne_letter_behind_minus (fun b hb => h.bytes b (List.mem_cons_of_mem _ hb)) h.terminates hahead
  unfold negativeValue
  rw [lands_bind_iff fun _ => succeeds_byte? _ _, if_neg (by simpa using hletter)]
  exact hnumber

/-- The first byte of a number announces a reading that ends as the conversion does. -/
theorem lands_number (settings : Settings) (stream : List UInt8)
    (hrequest : c.request.admitsNumbers = true) (h : IsLexeme text rest) :
    ∃ b more x, text = b :: more ∧ Solid b ∧ scalar? c (Lead.ofByte b) = some x ∧
      ∀ s pos, Ahead stream pos (text ++ rest) → x.Lands settings stream s pos
        (Converted settings stream rest s (Lexeme.entry settings c.request text)) := by
  obtain ⟨b, hb, hfirst⟩ := h.first
  obtain ⟨more, rfl⟩ := List.head?_eq_some_iff.mp hb
  by_cases hminus : b = 0x2D
  · subst hminus
    cases c with
    | read =>
        exact ⟨_, more, _, rfl, ⟨by decide, rfl⟩, rfl, fun s pos hahead =>
          lands_negativeValue h hahead (lands_numberValue nofun h hahead)⟩
    | readAs form =>
        exact ⟨_, more, _, rfl, ⟨by decide, rfl⟩, rfl, fun s pos hahead =>
          lands_negativeValue h hahead (lands_requestedNumber hrequest h hahead)⟩
  · obtain ⟨hlead, hsolid⟩ : Lead.ofByte b = .number ∧ Solid b := lead_number (by tauto)
    cases c with
    | read =>
        exact ⟨b, more, numberValue .plain, rfl, hsolid, by rw [hlead]; rfl, fun s pos hahead =>
          lands_numberValue nofun h hahead⟩
    | readAs form =>
        exact ⟨b, more, requestedNumber form.request, rfl, hsolid, by rw [hlead]; rfl,
          fun s pos hahead => lands_requestedNumber hrequest h hahead⟩

end Reading

namespace Tokenizer

variable {t : Tokenizer}

/-- What a call makes of a number: an answer, with the kind of token and the value that are shown
then, or a failure because of the format of a number. -/
def Reads (t : Tokenizer) (c : Call) : Option (Answer × Scalar × Value) → Prop
  | some (answer, kind, v) =>
    (t.call c).1 = .ok answer ∧ (t.call c).2.token = .scalar kind ∧ (t.call c).2.value? = some v
  | none => ∃ e text, (t.call c).1 = .error e ∧ e.kind = .numberFormat text

/-- A call that has published a scalar reads it. -/
theorem reads_of_published {kind : Scalar} {v : Value} {pos' : Nat}
    (hresult : (t.call c).1 = .ok (c.answer (t.call c).2.value? c.done))
    (hvalue : (t.call c).2.value? = (t.call c).2.state.slot.value? stream)
    (hpublished : Published settings stream kind (some v) rest s (t.call c).2.state pos') :
    t.Reads c (some (c.answer (some v) c.done, kind, v)) := by
  obtain ⟨slot, hslot, hsame⟩ := hpublished.published
  have hv : (t.call c).2.value? = some v := by
    rw [hvalue, hsame.slot_eq, State.slot_publishScalar, hslot]
  rw [hv] at hresult
  exact ⟨hresult, hsame.token_eq.trans (State.token_publishScalar ..), hv⟩

/-- However the source splits its bytes, a call makes of a scalar what its conversion says. -/
theorem Sound.reads_converted (h : t.Sound stream) {b : UInt8} {more : List UInt8}
    {x : Reading Unit} {entry : Except NumberFault (Scalar × Value)}
    (hx : Reading.scalar? c (Lead.ofByte b) = some x) (hsolid : Reading.Solid b)
    (hexpects : t.nextPhase.expectsValue = true) (hfaces : t.Faces stream (b :: more))
    (hlands : ∀ s' pos', Ahead stream pos' (b :: more) →
      x.Lands t.options.settings stream s' pos'
        (Reading.Converted t.options.settings stream rest s' entry)) :
    t.Reads c (entry.toOption.map fun entry => (c.answer (some entry.2) c.done, entry)) := by
  have hconverts : ∀ s' pos', Arrives t.options.settings t.state.clearSlot s' →
      Ahead stream pos' (b :: more) → x.Lands t.options.settings stream s' pos'
        fun r s pos => ∃ s', Reading.Converted t.options.settings stream rest s' entry r s pos :=
    fun s' pos' _ hahead => (hlands s' pos' hahead).mono fun r _ _ hr => ⟨s', hr⟩
  obtain ⟨u, ⟨s', hconverted⟩, hresult, hvalue⟩ := h.call_lands hx hsolid hexpects hfaces hconverts
  cases entry with
  | error fault =>
      obtain ⟨e, rfl, hkind⟩ := hconverted
      exact ⟨e, _, hresult, hkind⟩
  | ok entry =>
      obtain ⟨kind, v⟩ := entry
      obtain ⟨rfl, hpublished⟩ := hconverted
      exact reads_of_published hresult hvalue hpublished

theorem Sound.reads_number (h : t.Sound stream) (hexpects : t.nextPhase.expectsValue = true)
    (hlexeme : IsLexeme text rest) (hfaces : t.Faces stream (text ++ rest))
    (hrequest : c.request.admitsNumbers = true) :
    t.Reads c ((Lexeme.entry t.options.settings c.request text).toOption.map fun entry =>
      (c.answer (some entry.2) c.done, entry)) := by
  obtain ⟨b, more, x, rfl, hsolid, hx, hlands⟩ :=
    Reading.lands_number t.options.settings stream hrequest hlexeme
  exact h.reads_converted hx hsolid hexpects hfaces hlands

/-! ## Integers -/

theorem isLexeme_integer {z : Int} (hz : IsInteger text z) (hrest : Terminates rest) :
    IsLexeme text rest := by
  obtain ⟨b, more, hb, htext⟩ := begin_number hz.isNumber
  refine ⟨?_, isByte_number hz.isNumber, hrest⟩
  rcases htext with rfl | rfl
  · exact ⟨b, rfl, .inl (by simp [isDigit, hb])⟩
  · exact ⟨0x2D, rfl, .inr (.inl rfl)⟩

theorem isLexeme_radix {m : Nat} (hm : IsRadixLiteral text m) (hrest : Terminates rest) :
    IsLexeme text rest := by
  refine ⟨⟨0x30, ?_, .inl (by decide)⟩, hm.isByte, hrest⟩
  cases hm <;> rfl

theorem asInt32?_integer {n : Int} (h : -2 ^ 31 ≤ n ∧ n < 2 ^ 31) :
    Value.asInt32? (.integer n) = some n :=
  if_pos ⟨by omega, by omega⟩

/-- Where a number is answered, its conversion has found a value. -/
theorem Sound.entry_of_answer {answer : Answer} (h : t.Sound stream)
    (hexpects : t.nextPhase.expectsValue = true) (hlexeme : IsLexeme text rest)
    (hfaces : t.Faces stream (text ++ rest)) (hrequest : c.request.admitsNumbers = true)
    (hanswer : (t.call c).1 = .ok answer) :
    ∃ entry, Lexeme.entry t.options.settings c.request text = .ok entry ∧
      c.answer (some entry.2) c.done = answer := by
  have hread := h.reads_number hexpects hlexeme hfaces hrequest
  cases hentry : Lexeme.entry t.options.settings c.request text with
  | error fault =>
      rw [hentry] at hread
      obtain ⟨e, _, hfailed, -⟩ := hread
      rw [hfailed] at hanswer
      cases hanswer
  | ok entry =>
      rw [hentry] at hread
      exact ⟨entry, rfl, Except.ok.inj (hread.1.symm.trans hanswer)⟩

/-- These calls answer exactly the numbers of double precision. -/
theorem Sound.reads_as_double (h : t.Sound stream) (hexpects : t.nextPhase.expectsValue = true)
    (hfloats : t.options.floats = .double) (hbig : t.options.bigIntegers = false)
    (hlexeme : IsLexeme text rest) (hfaces : t.Faces stream (text ++ rest))
    (hrequest : c.request ∈ [.plain, .double, .boolean, .string]) :
    if (Lexeme.double? text).isSome then ∃ answer, (t.call c).1 = .ok answer
    else t.Reads c none := by
  have hadmits : ∀ request : Request, request ∈ [.plain, .double, .boolean, .string] →
      request.admitsNumbers = true := by
    decide
  have hok : (Lexeme.entry t.options.settings c.request text).isOk = _ :=
    Lexeme.entry_isOk hfloats hbig hrequest
  have hread := h.reads_number hexpects hlexeme hfaces (hadmits _ hrequest)
  rw [← hok]
  cases hentry : Lexeme.entry t.options.settings c.request text with
  | error fault =>
      rw [hentry] at hread
      exact hread
  | ok entry =>
      rw [hentry] at hread
      exact ⟨_, hread.1⟩

/-- The calls agree on what a number is. To read it, to read it as a number of double precision, as a
truth value or as a text all succeed or are all refused, and the text is the spelling of the number.
What can be read as an integer of 32 bits is read as an integer with the same last bits, and the same
integer if it is no radix literal. -/
theorem calls_agree_on_numbers (options : Options) (hfloats : options.floats = .double)
    (hbig : options.bigIntegers = false) {source : Source} (hsteady : source.Steady) (pool : Pool)
    (heeds : Bool) (calls : List Call) {t : Tokenizer}
    (ht : (ofSource options source pool heeds).afterAll (calls.map .call) = t)
    (hexpects : t.nextPhase.expectsValue = true) {lexeme rest : List UInt8}
    (hlexeme : IsLexeme lexeme rest) (hfaces : t.Faces source.bytes (lexeme ++ rest)) :
    ((∀ c ∈ [.read, .readAs .double, .readAs .boolean, .readAs .string],
        ∃ answer, (t.call c).1 = .ok answer) ∨
      ∀ c ∈ [.read, .readAs .double, .readAs .boolean, .readAs .string], t.Reads c none) ∧
    (∀ answer, (t.call (.readAs .string)).1 = .ok answer →
      ∃ text, answer = .string (some text) ∧ Text.toBytes text = lexeme) ∧
    ∀ answer, (t.call (.readAs .int32)).1 = .ok answer → ∃ v n, answer = .int32 (some v) ∧
      t.Reads .read (some (.found true, .integer, .integer n)) ∧ n ≡ v [ZMOD 2 ^ 32] ∧
        (isRadix lexeme = false → n = v) := by
  subst ht
  have hsound := (sound_ofSource options hsteady pool heeds).afterAll calls
  have hoptions : ((ofSource options source pool heeds).afterAll (calls.map .call)).options =
      options := options_afterAll _ calls
  generalize (ofSource options source pool heeds).afterAll (calls.map .call) = t at *
  rw [← hoptions] at hfloats hbig
  refine ⟨?_, ?_, ?_⟩
  · have hcalls : ∀ c : Call, c ∈ [.read, .readAs .double, .readAs .boolean, .readAs .string] →
        c.request ∈ [.plain, .double, .boolean, .string] := by
      decide
    have hagree : ∀ c : Call, c ∈ [.read, .readAs .double, .readAs .boolean, .readAs .string] →
        if (Lexeme.double? lexeme).isSome then ∃ answer, (t.call c).1 = .ok answer
        else t.Reads c none := fun c hc =>
      hsound.reads_as_double hexpects hfloats hbig hlexeme hfaces (hcalls c hc)
    cases hdouble : (Lexeme.double? lexeme).isSome with
    | true =>
        rw [hdouble] at hagree
        exact .inl hagree
    | false =>
        rw [hdouble] at hagree
        exact .inr hagree
  · intro answer hanswer
    obtain ⟨entry, hentry, rfl⟩ := hsound.entry_of_answer hexpects hlexeme hfaces rfl hanswer
    rw [Call.request, Form.request, Lexeme.entry_string] at hentry
    split at hentry
    · cases hentry
      exact ⟨_, rfl, Lexeme.toBytes_ofBytes hlexeme.bytes⟩
    · cases hentry
  · intro answer hanswer
    obtain ⟨entry, hentry, rfl⟩ := hsound.entry_of_answer hexpects hlexeme hfaces rfl hanswer
    rw [Call.request, Form.request, Lexeme.entry_int32] at hentry
    cases hint : Lexeme.int32 lexeme with
    | error fault => simp [hint, Except.map] at hentry
    | ok v =>
        obtain rfl : (.integer, .integer v) = entry := by simpa [hint, Except.map] using hentry
        obtain ⟨n, hplain, hcongruent, hequal⟩ :
            ∃ n, Lexeme.plain t.options.settings lexeme = _ ∧ _ :=
          Lexeme.plain_of_int32 hint
        have hread := hsound.reads_number (c := .read) hexpects hlexeme hfaces rfl
        rw [Call.request, Lexeme.entry_plain, hplain] at hread
        exact ⟨v, n, congrArg Answer.int32 (asInt32?_integer (Lexeme.fits_of_int32 hint)), hread,
          hcongruent, hequal⟩

/-- The number `0x80000001` in an array: as an integer of 32 bits it is negative. -/
theorem calls_agree_on_numbers_bits :
    let source : Source :=
      { script := [.bytes ⟨#[0x5B, 0x30, 0x78, 0x38, 0x30]⟩ 0,
          .bytes ⟨#[0x30, 0x30, 0x30, 0x30, 0x30, 0x31, 0x20, 0x5D]⟩ 0], limit := some 2 }
    let t := (ofSource { initialCapacity := 1 } source {} false).afterAll ([.read].map .call)
    let lexeme : List UInt8 := [0x30, 0x78, 0x38, 0x30, 0x30, 0x30, 0x30, 0x30, 0x30, 0x31]
    source.Steady ∧ t.nextPhase.expectsValue = true ∧ IsLexeme lexeme [0x20, 0x5D] ∧
      t.Faces source.bytes (lexeme ++ [0x20, 0x5D]) ∧
      (t.call (.readAs .int32)).1 = .ok (.int32 (some (-2147483647))) ∧
      ∃ n, t.Reads .read (some (.found true, .integer, .integer n)) ∧
        n ≡ -2147483647 [ZMOD 2 ^ 32] := by
  intro source t lexeme
  have hsteady : source.Steady := by decide
  have hexpects : t.nextPhase.expectsValue = true := by decide +kernel
  have hphase : t.state.phase ≠ .postValue := by decide +kernel
  have hspace : Terminates (Text.encode ' ' ++ [0x5D]) := .blank (by decide)
  have hlexeme : IsLexeme lexeme [0x20, 0x5D] :=
    ⟨⟨0x30, rfl, .inl (by decide)⟩, by decide +kernel, hspace⟩
  have hahead : source.bytes.drop t.feed.window.cursor = [] ++ (lexeme ++ [0x20, 0x5D]) := by
    decide +kernel
  have hfaces : t.Faces source.bytes (lexeme ++ [0x20, 0x5D]) :=
    ⟨[], .blanks hphase isBlank_nil, hahead⟩
  have hint : (t.call (.readAs .int32)).1 = .ok (.int32 (some (-2147483647))) := by decide +kernel
  obtain ⟨v, n, hv, hread, hcongruent, -⟩ := (calls_agree_on_numbers { initialCapacity := 1 } rfl rfl
    hsteady {} false [.read] rfl hexpects hlexeme hfaces).2.2 _ hint
  obtain rfl : -2147483647 = v := by simpa using hv
  exact ⟨hsteady, hexpects, hlexeme, hfaces, hint, n, hread, hcongruent⟩

end Tokenizer

end JsonPull
