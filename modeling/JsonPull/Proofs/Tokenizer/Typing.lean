import JsonPull.Proofs.Reading.Typing
import JsonPull.Proofs.Tokenizer.End
import JsonPull.Proofs.Tokenizer.Whole

/-! # Answers are typed

Whatever was done with a tokenizer before, a call that succeeds leaves a token with a value of its
kind. A typed read answers nothing only where there is no value, and loses none that was read. -/

namespace JsonPull

namespace Answer

/-- An answer without a value. -/
def isEmpty : Answer → Bool
  | found _ => false
  | int32 n => n.isNone
  | decimal x => x.isNone
  | double x => x.isNone
  | boolean b => b.isNone
  | string text => text.isNone
  | bytes data => data.isNone
  | dateTime date | dateTimeOffset date => date.isNone

/-- An answer with a date. -/
def isParsed : Answer → Bool
  | dateTime (some (.parsed _)) | dateTimeOffset (some (.parsed _)) => true
  | _ => false

/-- An answer with a text that is no date. -/
def isRaw : Answer → Bool
  | dateTime (some (.raw _)) | dateTimeOffset (some (.raw _)) => true
  | _ => false

end Answer

/-- What a typed read has to do with the token and the value that it leaves. -/
structure Form.Answers (form : Form) (a : Answer) (token : Token) (value? : Option Value) :
    Prop where
  answer_eq : a = form.answer value?
  empty_iff : a.isEmpty = true ↔ token.leavesNothing = true
  converts : token.leavesNothing = false →
    ∃ v, value? = some v ∧ (form.answer (some v)).isEmpty = false
  int32 : form = .int32 → ∀ v, value? = some v →
    ∃ n, v = .integer n ∧ -2147483648 ≤ n ∧ n ≤ 2147483647
  parsed_iff : form = .dateTime ∨ form = .dateTimeOffset →
    (a.isParsed = true ↔ token = .scalar .date)
  raw_iff : form = .dateTime ∨ form = .dateTimeOffset →
    (a.isRaw = true ↔ token = .scalar .string)

/-- Nothing is answered for a token that leaves nothing. -/
theorem Form.answers_nothing (form : Form) {token : Token} (h : token.leavesNothing = true) :
    form.Answers (form.answer none) token none := by
  have hempty : (form.answer none).isEmpty = true := by cases form <;> rfl
  have hparsed : (form.answer none).isParsed = false := by cases form <;> rfl
  have hraw : (form.answer none).isRaw = false := by cases form <;> rfl
  refine ⟨rfl, by simp [hempty, h], by simp [h], nofun, fun _ => ?_, fun _ => ?_⟩
  · rw [hparsed]
    refine ⟨nofun, ?_⟩
    rintro rfl
    cases h
  · rw [hraw]
    refine ⟨nofun, ?_⟩
    rintro rfl
    cases h

/-- A value that the form converts is answered. -/
theorem Form.answers_value {form : Form} {token : Token} {v : Value}
    (htoken : token.leavesNothing = false) (hanswer : (form.answer (some v)).isEmpty = false)
    (hint : form = .int32 → ∃ n, v = .integer n ∧ -2147483648 ≤ n ∧ n ≤ 2147483647)
    (hparsed : form = .dateTime ∨ form = .dateTimeOffset →
      ((form.answer (some v)).isParsed = true ↔ token = .scalar .date))
    (hraw : form = .dateTime ∨ form = .dateTimeOffset →
      ((form.answer (some v)).isRaw = true ↔ token = .scalar .string)) :
    form.Answers (form.answer (some v)) token (some v) := by
  refine ⟨rfl, by simp [hanswer, htoken], fun _ => ⟨v, rfl, hanswer⟩, ?_, hparsed, hraw⟩
  rintro hform _ ⟨⟩
  exact hint hform

theorem Form.request_injective : Function.Injective Form.request := by
  intro form form' h
  cases form <;> cases form' <;> first | rfl | cases h

/-- Whatever a request ends with, its form makes an answer of it. -/
theorem Request.Admits.answers {form : Form} {token : Token} {value? : Option Value}
    (h : form.request.Admits token value?) :
    form.Answers (form.answer value?) token value? := by
  generalize hrequest : form.request = request at h
  cases h with
  | nothing _ h => exact Form.answers_nothing form h
  | plain h => cases form <;> cases hrequest
  | int32 n h =>
      obtain rfl : form = .int32 := Form.request_injective hrequest
      have hbounds : -2147483648 ≤ n ∧ n ≤ 2147483647 := by
        have hpower : Number.twoPow 31 = 2147483648 := by decide
        simp only [Number.fitsSigned, hpower, Bool.and_eq_true, decide_eq_true_eq] at h
        omega
      have hanswer : Form.int32.answer (some (.integer n)) = .int32 (some n) := by
        simp [Form.answer, Value.asInt32?, hbounds]
      refine Form.answers_value rfl (by rw [hanswer]; rfl) (fun _ => ⟨n, rfl, hbounds⟩) ?_ ?_
      all_goals simp
  | decimal x =>
      obtain rfl : form = .decimal := Form.request_injective hrequest
      exact Form.answers_value rfl rfl (by simp) (by simp) (by simp)
  | double x =>
      obtain rfl : form = .double := Form.request_injective hrequest
      exact Form.answers_value rfl rfl (by simp) (by simp) (by simp)
  | boolean b =>
      obtain rfl : form = .boolean := Form.request_injective hrequest
      exact Form.answers_value rfl rfl (by simp) (by simp) (by simp)
  | string text =>
      obtain rfl : form = .string := Form.request_injective hrequest
      exact Form.answers_value rfl rfl (by simp) (by simp) (by simp)
  | bytes data =>
      obtain rfl : form = .bytes := Form.request_injective hrequest
      exact Form.answers_value rfl rfl (by simp) (by simp) (by simp)
  | date date =>
      obtain rfl : form = .dateTime := Form.request_injective hrequest
      exact Form.answers_value rfl rfl (by simp) (fun _ => iff_of_true rfl rfl)
        fun _ => iff_of_false Bool.false_ne_true (by simp)
  | undated text =>
      obtain rfl : form = .dateTime := Form.request_injective hrequest
      exact Form.answers_value rfl rfl (by simp)
        (fun _ => iff_of_false Bool.false_ne_true (by simp)) fun _ => iff_of_true rfl rfl
  | offsetDate instant east =>
      obtain rfl : form = .dateTimeOffset := Form.request_injective hrequest
      exact Form.answers_value rfl rfl (by simp) (fun _ => iff_of_true rfl rfl)
        fun _ => iff_of_false Bool.false_ne_true (by simp)
  | undatedOffset text =>
      obtain rfl : form = .dateTimeOffset := Form.request_injective hrequest
      exact Form.answers_value rfl rfl (by simp)
        (fun _ => iff_of_false Bool.false_ne_true (by simp)) fun _ => iff_of_true rfl rfl

/-! ## Calls -/

/-- What a call asks for. -/
def Call.request : Call → Request
  | read => .plain
  | readAs form => form.request

namespace Tokenizer

open State

variable {stream : List UInt8} {t : Tokenizer}

/-- The program of a call on an open tokenizer leaves what suits its request. -/
theorem leaves_program (c : Call) {settings : Settings} {s : State} (hphase : s.phase ≠ .closed) :
    c.program.Leaves settings s (fun _ s' => s'.Suits stream c.request) fun _ _ => True := by
  have hclear : (modify clearSlot : Reading Unit).Leaves settings s
      (fun _ s' => s'.phase ≠ .closed) fun _ _ => True := .modify hphase
  cases c with
  | read => exact hclear.bind fun _ s' h => Reading.leaves_token h
  | readAs form => exact hclear.bind fun _ s' h => Reading.leaves_requested form.request h

/-- The value that is shown after a call is one that its request admits. -/
theorem Standing.admits (h : t.Standing stream) {c : Call} {a : Answer}
    (ha : (t.call c).1 = .ok a) :
    c.request.Admits (t.call c).2.token (t.call c).2.value? := by
  cases h with
  | closed hphase hdrained =>
      have htoken : t.token = .none := hdrained.token_eq
      rw [hdrained.call_eq c, htoken, hdrained.value?_eq]
      exact .nothing _ rfl
  | reading delivered d hphase hfits =>
      obtain ⟨delivered', d', hcalled⟩ := called c hfits
      rw [value?_whole hcalled.moves.fits hcalled.held]
      have hleaves : c.program.Leaves t.options.settings t.state
          (fun _ s' => s'.Suits stream c.request) fun _ _ => True := leaves_program c hphase
      have hrun := run_leaves hleaves
      rw [call_eq] at ha ⊢
      cases hr : (t.run c.program).1 with
      | error e => simp [hr, Except.map] at ha
      | ok r =>
          rw [hr] at hrun
          exact hrun

/-- What a typed read answers is made of the value that it leaves. -/
theorem answer_readAs {form : Form} {a : Answer} (ha : (t.call (.readAs form)).1 = .ok a) :
    a = form.answer (t.call (.readAs form)).2.value? := by
  rw [call_eq] at ha ⊢
  cases hr : (t.run (Call.readAs form).program).1 with
  | error e => simp [hr, Except.map] at ha
  | ok r =>
      simp only [hr, Except.map, Except.ok.injEq] at ha
      exact ha.symm

/-- However a tokenizer was used before, a call that succeeds leaves a token with a value of its kind
beside it, or with none if it has none. A typed read answers nothing exactly where the input or a
container ends and for a null; any other value is one that it can answer with. An integer of 32 bits
is one, and a date is answered as a date or as the text that is none, as the token says. -/
theorem call_typed (options : Options) (source : Source) (pool : Pool) (heeds : Bool)
    (ops : List Operation) (c : Call) (a : Answer) :
    let t := (ofSource options source pool heeds).afterAll ops
    let t' := (t.call c).2
    (t.call c).1 = .ok a →
      t'.token.Carries t'.value? ∧ ∀ form, c = .readAs form → form.Answers a t'.token t'.value? := by
  intro t t' ha
  have hadmits := (standing_afterAll options source pool heeds ops).admits ha
  refine ⟨hadmits.carries, ?_⟩
  rintro form rfl
  rw [answer_readAs ha]
  exact hadmits.answers

/-- The text `["7"` and a number read from its first element. -/
theorem call_typed_quoted_number :
    let t := (ofSource { initialCapacity := 2 } (Source.ofBytes ⟨#[0x5B, 0x22, 0x37, 0x22]⟩) {}
      false).afterAll [.call .read]
    (t.call (.readAs .int32)).1 = .ok (.int32 (some 7)) ∧
      Form.int32.Answers (.int32 (some 7)) (t.call (.readAs .int32)).2.token
        (t.call (.readAs .int32)).2.value? := by
  have hread : ((ofSource { initialCapacity := 2 } (Source.ofBytes ⟨#[0x5B, 0x22, 0x37, 0x22]⟩) {}
      false).afterAll [.call .read] |>.call (.readAs .int32)).1 = .ok (.int32 (some 7)) := by
    decide +kernel
  exact ⟨hread, (call_typed _ _ _ _ _ _ _ hread).2 .int32 rfl⟩

end Tokenizer

end JsonPull
