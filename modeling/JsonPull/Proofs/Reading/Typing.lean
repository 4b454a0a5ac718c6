import JsonPull.Proofs.Reading.Change
import JsonPull.Proofs.Reading.Success

/-! # Results are typed

Which values go with which tokens, and which of them a request may end with. The value that counts is
the one that a reading publishes last; what it published before is written over. -/

namespace JsonPull

open Number

/-! ## Tokens and their values -/

namespace Token

/-- The tokens that a typed read answers nothing for. -/
def leavesNothing : Token → Bool
  | none | closing _ | scalar .null => true
  | _ => false

/-- The values that a token may have beside it. -/
def Carries : Token → Option Value → Prop
  | propertyName, value? | comment, value? | opening .constructor, value?
  | scalar .string, value? => ∃ text, value? = some (.string text)
  | scalar .integer, value? => ∃ n, value? = some (.integer n) ∨ value? = some (.bigInteger n)
  | scalar .float, value? =>
    (∃ x, value? = some (.float x)) ∨ ∃ x, value? = some (.decimal x)
  | scalar .boolean, value? => ∃ b, value? = some (.boolean b)
  | scalar .date, value? => ∃ date, value? = some (.date date)
  | scalar .bytes, value? => ∃ data, value? = some (.bytes data)
  | _, value? => value? = Option.none

theorem carries_nothing {token : Token} (h : token.leavesNothing = true) :
    token.Carries Option.none := by
  cases token with
  | none => rfl
  | closing c => rfl
  | scalar kind => cases kind <;> first | rfl | cases h
  | _ => cases h

/-- What a number becomes, it carries. -/
theorem carries_kind {value : Value}
    (h : (∃ n, value = .integer n ∨ value = .bigInteger n) ∨ (∃ x, value = .float x) ∨
      ∃ x, value = .decimal x) : (scalar (Lexeme.kind value)).Carries (some value) := by
  rcases h with ⟨n, rfl | rfl⟩ | ⟨x, rfl⟩ | ⟨x, rfl⟩
  · exact ⟨n, .inl rfl⟩
  · exact ⟨n, .inr rfl⟩
  · exact .inl ⟨x, rfl⟩
  · exact .inr ⟨x, rfl⟩

end Token

/-- The tokens that a request may end with, and the values beside them. -/
inductive Request.Admits : Request → Token → Option Value → Prop where
  | nothing (request : Request) {token : Token} (h : token.leavesNothing = true) :
      Admits request token none
  | plain {token : Token} {value? : Option Value} (h : token.Carries value?) :
      Admits .plain token value?
  | int32 (n : Int) (h : fitsSigned 32 n = true) :
      Admits .int32 (.scalar .integer) (some (.integer n))
  | decimal (x : Decimal) : Admits .decimal (.scalar .float) (some (.decimal x))
  | double (x : Double) : Admits .double (.scalar .float) (some (.float x))
  | boolean (b : Bool) : Admits .boolean (.scalar .boolean) (some (.boolean b))
  | string (text : String) : Admits .string (.scalar .string) (some (.string text))
  | bytes (data : List UInt8) : Admits .bytes (.scalar .bytes) (some (.bytes data))
  | date (date : Timestamp) : Admits .dateTime (.scalar .date) (some (.date date))
  | undated (text : String) : Admits .dateTime (.scalar .string) (some (.string text))
  | offsetDate (instant : Instant) (east : Int) :
      Admits .dateTimeOffset (.scalar .date) (some (.date (.offset instant east)))
  | undatedOffset (text : String) :
      Admits .dateTimeOffset (.scalar .string) (some (.string text))

namespace Request

variable {request : Request} {token : Token} {value? : Option Value}

/-- Whatever a request ends with, the token carries. -/
theorem Admits.carries (h : request.Admits token value?) : token.Carries value? := by
  cases h with
  | nothing _ h => exact Token.carries_nothing h
  | plain h => exact h
  | int32 n => exact ⟨n, .inl rfl⟩
  | decimal x => exact .inr ⟨x, rfl⟩
  | double x => exact .inl ⟨x, rfl⟩
  | boolean b => exact ⟨b, rfl⟩
  | string text => exact ⟨text, rfl⟩
  | bytes data => exact ⟨data, rfl⟩
  | date date => exact ⟨date, rfl⟩
  | undated text => exact ⟨text, rfl⟩
  | offsetDate instant east => exact ⟨_, rfl⟩
  | undatedOffset text => exact ⟨text, rfl⟩

/-- The requests that take a number as one. -/
def takesNumbers : Request → Bool
  | plain | int32 | decimal | double | string => true
  | boolean | bytes | dateTime | dateTimeOffset => false

end Request

/-! ## Conversions -/

theorem float_or_decimal {settings : Settings} {lexeme : List UInt8} {value : Value}
    (h : Lexeme.float settings lexeme = .ok value) :
    (∃ x, value = .float x) ∨ ∃ x, value = .decimal x := by
  unfold Lexeme.float at h
  split at h
  · split at h
    · cases h
      exact .inr ⟨_, rfl⟩
    · cases h
  · split at h
    · cases h
      exact .inl ⟨_, rfl⟩
    · cases h

/-- A number as it is written is an integer, a float or a decimal. -/
theorem carries_plain {settings : Settings} {lexeme : List UInt8} {value : Value}
    (h : Lexeme.plain settings lexeme = .ok value) :
    (Token.scalar (Lexeme.kind value)).Carries (some value) := by
  refine Token.carries_kind ?_
  unfold Lexeme.plain at h
  split at h
  · split at h
    · cases h
      exact .inl ⟨_, .inl rfl⟩
    · cases h
  · split at h
    · exact .inr (float_or_decimal h)
    · split at h
      · cases h
        exact .inl ⟨_, .inl rfl⟩
      · split at h
        · split at h
          · cases h
          · cases h
            exact .inl ⟨_, .inr rfl⟩
        · exact .inr (float_or_decimal h)

theorem fitsSigned_int32 {lexeme : List UInt8} {n : Int} (h : Lexeme.int32 lexeme = .ok n) :
    fitsSigned 32 n = true := by
  unfold Lexeme.int32 at h
  split at h
  · split at h
    · rename_i m hm
      cases h
      unfold radixInteger? at hm
      obtain ⟨bits, -, hbits⟩ := Option.bind_eq_some_iff.mp hm
      split at hbits
      · rename_i hlt
        cases hbits
        exact fitsSigned_twosComplement (by decide) hlt
      · cases hbits
    · cases h
  · split at h
    · cases h
    · split at h
      · rename_i hfits
        cases h
        exact hfits
      · cases h

/-- A number becomes what its request admits, and stays a text only for a request for one. -/
theorem admits_convert {settings : Settings} {request : Request} {spelling : List UInt8}
    {value? : Option Value} (hrequest : request.takesNumbers = true)
    (h : Lexeme.convert settings request spelling = .ok value?) :
    match value? with
    | none => request = .string
    | some value => request.Admits (.scalar (Lexeme.kind value)) (some value) := by
  unfold Lexeme.convert at h
  cases request with
  | plain =>
      cases hplain : Lexeme.plain settings spelling with
      | error fault => simp [hplain, Except.map] at h
      | ok value =>
          simp only [hplain, Except.map, Except.ok.injEq] at h
          subst h
          exact .plain (carries_plain hplain)
  | int32 =>
      cases hint : Lexeme.int32 spelling with
      | error fault => simp [hint, Except.map] at h
      | ok n =>
          simp only [hint, Except.map, Except.ok.injEq] at h
          subst h
          exact .int32 n (fitsSigned_int32 hint)
  | decimal =>
      dsimp only at h
      split at h
      · cases h
        exact .decimal _
      · cases h
  | double =>
      dsimp only at h
      split at h
      · cases h
        exact .double _
      · cases h
  | string =>
      dsimp only at h
      split at h
      · split at h
        · cases h
          rfl
        · cases h
      · split at h
        · cases h
          rfl
        · cases h
  | _ => cases hrequest

/-- A text becomes what its request admits. -/
theorem admits_text {request : Request} {text : String} {kind : Scalar} {value : Value}
    (h : TextNumber.convert? request text = some (kind, value)) :
    request.Admits (.scalar kind) (some value) := by
  unfold TextNumber.convert? at h
  split at h
  · obtain ⟨n, hn, heq⟩ := Option.map_eq_some_iff.mp h
    cases heq
    exact .int32 n (Option.filter_eq_some_iff.mp hn).2
  · obtain ⟨x, -, heq⟩ := Option.map_eq_some_iff.mp h
    cases heq
    exact .decimal x
  · obtain ⟨x, -, heq⟩ := Option.map_eq_some_iff.mp h
    cases heq
    exact .double x
  · obtain ⟨b, -, heq⟩ := Option.map_eq_some_iff.mp h
    cases heq
    exact .boolean b
  · cases h

/-- A date that keeps its offset has one. -/
theorem offset_of_ofBytes? {bytes : List UInt8} {date : Timestamp}
    (h : DateText.ofBytes? true bytes = some date) : ∃ instant east, date = .offset instant east := by
  unfold DateText.ofBytes? at h
  split at h
  · obtain ⟨⟨millis, offset⟩, -, rfl⟩ := Option.map_eq_some_iff.mp h
    exact ⟨_, _, rfl⟩
  · obtain ⟨⟨time, zone⟩, -, rfl⟩ := Option.map_eq_some_iff.mp h
    exact ⟨_, _, rfl⟩

/-- A text becomes a date where one is asked for, and keeps its offset if that is asked for. -/
theorem admits_date {settings : Settings} {request : Request} {text : String} {date : Timestamp}
    (h : Reading.dateOf? (request.dates settings) text = some date) :
    request.Admits (.scalar .date) (some (.date date)) := by
  cases request with
  | plain => exact .plain ⟨date, rfl⟩
  | dateTime => exact .date date
  | dateTimeOffset =>
      obtain ⟨instant, east, rfl⟩ := offset_of_ofBytes? h
      exact .offsetDate instant east
  | _ => cases h

/-- No byte alone opens a constructor. -/
theorem Lead.ofByte_ne_constructor (b : UInt8) : Lead.ofByte b ≠ .opening .constructor := by
  have hall : ∀ n < 256, Lead.ofByte (UInt8.ofNat n) ≠ .opening .constructor := by decide +kernel
  have hb := hall b.toNat b.toNat_lt
  rwa [UInt8.ofNat_toNat] at hb

/-! ## What a reading publishes last -/

namespace State

variable {stream : List UInt8} {settings : Settings} {request : Request} {s : State}

/-- The token and the value are those of a request. -/
def Suits (stream : List UInt8) (request : Request) (s : State) : Prop :=
  request.Admits s.token (s.slot.value? stream)

theorem suits_publishScalar {kind : Scalar} {slot : Slot} {counted : Bool}
    (h : request.Admits (.scalar kind) (slot.value? stream)) :
    (s.publishScalar settings kind slot counted).Suits stream request := by
  have hkept : (s.publishScalar settings kind slot counted).token = .scalar kind ∧
      (s.publishScalar settings kind slot counted).slot = slot := by
    unfold publishScalar countElement
    cases counted with
    | false => exact ⟨rfl, rfl⟩
    | true =>
        dsimp only
        rw [if_pos rfl]
        split <;> exact ⟨rfl, rfl⟩
  unfold Suits
  rw [hkept.1, hkept.2]
  exact h

end State

namespace Reading

open State

variable {α β τ : Type} {settings : Settings} {s : State} {stream : List UInt8} {request : Request}
  {post : α → State → Prop}

/-- Whatever a reading does, it leaves something. -/
theorem leaves_anything (x : Reading α) :
    x.Leaves settings s (fun _ _ => True) fun _ _ => True := by
  refine ⟨?_⟩
  induction (x.run settings).run.run s with
  | done r =>
      obtain ⟨e | a, s'⟩ := r <;> trivial
  | ask q next ih => exact fun a => ih a

/-- However a reading succeeds, the state ends as `post` says. What it was before does not
matter. -/
structure Publishes (x : Reading α) (post : α → State → Prop) : Prop where
  leaves : ∀ settings s, x.Leaves settings s post fun _ _ => True

namespace Publishes

/-- Only the last part matters. -/
theorem last (x : Reading β) {f : β → Reading α} (h : ∀ b, (f b).Publishes post) :
    (x >>= f).Publishes post :=
  ⟨fun settings _ => (leaves_anything x).bind fun b s' _ => (h b).leaves settings s'⟩

theorem last_read {f : Settings → Reading α} (h : ∀ settings, (f settings).Publishes post) :
    (read >>= f).Publishes post :=
  ⟨fun settings s => .read_bind ((h settings).leaves settings s)⟩

/-- What is published stays until the end. -/
theorem before_pure {x : Reading β} {f : β → α} (h : x.Publishes fun b => post (f b)) :
    (x >>= fun b => pure (f b)).Publishes post :=
  ⟨fun settings s => (h.leaves settings s).bind fun _ _ hpost => .pure hpost⟩

theorem map {x : Reading β} {f : β → α} (h : x.Publishes fun b => post (f b)) :
    (f <$> x).Publishes post := by
  rw [← bind_pure_comp]
  exact h.before_pure

theorem fail (kind : ErrorKind) : (Reading.fail kind : Reading α).Publishes post :=
  ⟨fun _ _ => .fail fun _ => trivial⟩

theorem modify {f : State → State} {post : Unit → State → Prop} (h : ∀ s, post () (f s)) :
    (MonadState.modifyGet fun s => ((), f s) : Reading Unit).Publishes post :=
  ⟨fun _ s => .modify (h s)⟩

theorem update {f : Settings → State → State} {post : Unit → State → Prop}
    (h : ∀ settings s, post () (f settings s)) : (Reading.update f).Publishes post :=
  ⟨fun settings s => .update (h settings s)⟩

theorem repeating {turn : τ → Reading (Turn τ α)}
    (h : ∀ x, (turn x).Publishes (Leaves.Turned (fun _ _ => True) post)) (x : τ) :
    (Reading.repeating turn x).Publishes post :=
  ⟨fun settings _ => .repeating (fun _ _ => True) (fun x s _ => (h x).leaves settings s)
    (fun _ _ _ _ => .fail fun _ => trivial) trivial⟩

/-- A scalar that suits the request. -/
theorem scalar {kind : Scalar} {slot : Slot} {counted : Bool}
    (h : request.Admits (.scalar kind) (slot.value? stream)) :
    (Reading.update fun settings => publishScalar settings kind slot counted).Publishes
      fun _ s' => s'.Suits stream request :=
  update fun _ _ => suits_publishScalar h

end Publishes

theorem publishes_unexpected (site : CharSite) : (unexpected site : Reading α).Publishes post :=
  .last _ fun _ => .fail _

theorem publishes_unexpectedConsumed (site : CharSite) :
    (unexpectedConsumed site : Reading α).Publishes post :=
  .last _ fun _ => .last _ fun _ => .fail _

/-! ## Scalars -/

theorem publishes_failNumber (fault : NumberFault) : (failNumber fault : Reading α).Publishes post :=
  .last _ fun _ => .fail _

theorem publishes_numberValue (hrequest : request.takesNumbers = true) :
    (numberValue request).Publishes fun _ s' => s'.Suits stream request := by
  refine .last _ fun _ => .last _ fun first => .last _ fun _ => .last _ fun _ => ?_
  refine .last _ fun last => .last _ fun span => .last _ fun spelling => .last_read fun settings => ?_
  have hconvert := @admits_convert settings request spelling
  cases hvalue : Lexeme.convert settings request spelling with
  | error fault => exact publishes_failNumber fault
  | ok value? =>
      have hadmits := hconvert hrequest hvalue
      cases value? with
      | none =>
          obtain rfl : request = .string := hadmits
          exact .scalar (.string _)
      | some value => exact .scalar hadmits

/-- A special number suits a plain request and those for a double and for a text. -/
theorem publishes_specialValue (literal : Literal) (request : Request) :
    (specialValue literal request).Publishes fun _ s' => s'.Suits stream request := by
  refine .last _ fun _ => .last_read fun settings => ?_
  dsimp only
  split
  · rename_i h
    have hrequest : request = .plain ∨ request = .double := by simp_all
    rcases hrequest with rfl | rfl
    · exact .scalar (.plain (.inl ⟨_, rfl⟩))
    · exact .scalar (.double _)
  · split
    · rename_i h
      obtain rfl : request = .string := eq_of_beq h
      exact .scalar (.string _)
    · exact .fail _

theorem publishes_negativeValue {number : Reading Unit}
    (h : number.Publishes fun _ s' => s'.Suits stream request) :
    (negativeValue request number).Publishes fun _ s' => s'.Suits stream request := by
  refine .last _ fun b => ?_
  split
  · exact publishes_specialValue _ _
  · exact h

theorem publishes_publishBytes (b : Body) :
    (publishBytes b).Publishes fun _ s' => s'.Suits stream .bytes := by
  refine .last _ fun text => ?_
  split
  · exact .scalar (.bytes _)
  · exact .fail _

/-- The requests that end with a text as it is read. -/
theorem admits_body {request : Request} (b : Body) (hbytes : request ≠ .bytes)
    (hconversion : request.conversion? = none) :
    request.Admits (.scalar .string) (b.slot.value? stream) := by
  obtain ⟨text, htext⟩ : ∃ text, b.slot.value? stream = some (.string text) := by
    cases b <;> exact ⟨_, rfl⟩
  rw [htext]
  cases request with
  | plain => exact .plain ⟨text, rfl⟩
  | string => exact .string text
  | dateTime => exact .undated text
  | dateTimeOffset => exact .undatedOffset text
  | bytes => exact absurd rfl hbytes
  | _ => cases hconversion

theorem publishes_publishText (b : Body) (hbytes : request ≠ .bytes)
    (hconversion : request.conversion? = none) :
    (publishText (request.dates settings) b).Publishes fun _ s' => s'.Suits stream request := by
  unfold publishText
  dsimp only
  split
  · exact .scalar (admits_body b hbytes hconversion)
  · rw [map_eq_pure_bind, bind_assoc]
    refine .last _ fun text => ?_
    rw [pure_bind]
    split
    · rename_i date hdate
      exact .scalar (admits_date hdate)
    · exact .scalar (admits_body b hbytes hconversion)

/-- A quoted text suits its request, unless it is still to be converted. -/
theorem publishes_stringValue (quote : UInt8) (hconversion : request.conversion? = none) :
    (stringValue quote request).Publishes fun _ s' => s'.Suits stream request := by
  refine .last _ fun b => .last _ fun _ => .last _ fun _ => ?_
  by_cases hbytes : request = .bytes
  · rw [if_pos hbytes, hbytes]
    exact publishes_publishBytes b
  · rw [if_neg hbytes]
    exact .last_read fun settings => publishes_publishText b hbytes hconversion

theorem publishes_convertText {target : String} (hconversion : request.conversion? = some target) :
    (convertText request).Publishes fun _ s' => s'.Suits stream request := by
  unfold convertText
  rw [hconversion]
  refine .last _ fun text => ?_
  split
  · exact .scalar (.nothing _ rfl)
  · split
    · rename_i kind value hvalue
      exact .scalar (admits_text hvalue)
    · exact .fail _

/-- A quoted text that is read and converted suits its request. -/
theorem publishes_text (quote : UInt8) (request : Request) :
    (do
      stringValue quote request
      convertText request : Reading Unit).Publishes fun _ s' => s'.Suits stream request := by
  cases hconversion : request.conversion? with
  | none =>
      have hdone : convertText request = pure () := by
        unfold convertText
        rw [hconversion]
      rw [hdone]
      exact (publishes_stringValue quote hconversion).before_pure
  | some target => exact .last _ fun _ => publishes_convertText hconversion

theorem publishes_word (literal : Literal) {kind : Scalar} {slot : Slot}
    (h : request.Admits (.scalar kind) (slot.value? stream)) :
    (do
      requireWord literal
      update fun settings => publishScalar settings kind slot true :
        Reading Unit).Publishes fun _ s' => s'.Suits stream request :=
  .last _ fun _ => .scalar h

/-! ## Parts -/

theorem publishes_comment_true :
    (comment true).Publishes fun _ s' => s'.Suits stream .plain := by
  refine .last _ fun _ => .last _ fun mark => ?_
  split
  · exact .fail _
  · split
    · exact publishes_unexpected _
    · refine .last _ fun _ => .last _ fun first => ?_
      have hpublish : ∀ last : Nat, (do
          let span : Span := { first, last }
          let trimmed := trimSpan span (← bytesOf span)
          modify (publishComment (.held (← hold trimmed.first trimmed.last))) :
            Reading Unit).Publishes fun _ s' => s'.Suits stream .plain :=
        fun last => .last _ fun bytes => .last _ fun span =>
          .modify fun _ => Request.Admits.plain ⟨_, rfl⟩
      dsimp only
      split <;> exact .last _ hpublish

theorem publishes_nothing : nothing.Publishes fun _ s' => s'.Suits stream request :=
  .modify fun _ => Request.Admits.nothing request rfl

theorem publishes_openContainer {container : Container} {slot : Slot}
    (h : (Token.opening container).Carries (slot.value? stream)) :
    (openContainer container slot).Publishes fun _ s' => s'.Suits stream .plain := by
  refine ⟨fun settings s => ?_⟩
  have hopening : (MonadState.modifyGet fun s => ((), s.publishOpening container slot) :
      Reading Unit).Leaves settings s (fun _ s' => s'.Suits stream .plain) fun _ _ => True :=
    .modify (Request.Admits.plain h)
  refine hopening.bind fun _ s' hs' => .read_bind ?_
  split
  · refine .get_bind ?_
    split
    · exact .fail fun _ => trivial
    · exact .pure hs'
  · exact .pure hs'

theorem publishes_closeContainer (container : Container) :
    (closeContainer container).Publishes fun _ s' => s'.Suits stream request := by
  refine .last _ fun _ => ⟨fun settings s => .get_bind ?_⟩
  have hclosing : (MonadState.modifyGet fun s => ((), s.publishClosing container) :
      Reading Unit).Leaves settings s (fun _ s' => s'.Suits stream request) fun _ _ => True :=
    .modify (Request.Admits.nothing request rfl)
  refine hclosing.bind fun _ s' hs' => ?_
  split
  · exact .update hs'
  · exact .fail fun _ => trivial

theorem publishes_found {token : Reading Unit}
    (h : token.Publishes fun _ s' => s'.Suits stream request) :
    (found token : Reading (Turn τ Bool)).Publishes
      (Leaves.Turned (fun _ _ => True) fun _ s' => s'.Suits stream request) :=
  h.before_pure

/-- Only a plain request surfaces comments. -/
theorem publishes_passComment {surface : Bool} {post : Bool → State → Prop}
    (h : surface = true → ∀ s', s'.Suits stream .plain → post true s') :
    (passComment surface).Publishes (Leaves.Turned (fun _ _ => True) post) := by
  cases surface with
  | false => exact .last _ fun _ => ⟨fun _ _ => .pure trivial⟩
  | true => exact ⟨fun settings s => (publishes_comment_true.leaves settings s).bind
      fun _ s' hs' => .pure (h rfl s' hs')⟩

theorem publishes_constructorStart :
    constructorStart.Publishes fun _ s' => s'.Suits stream .plain := by
  refine .last _ fun _ => .last _ fun _ => .last _ fun first => .last _ fun last => ?_
  refine .last _ fun name => .last _ fun mark => ?_
  split
  · exact .last _ fun _ => publishes_openContainer ⟨_, rfl⟩
  · exact publishes_unexpected _

theorem publishes_nullOrConstructor :
    nullOrConstructor.Publishes fun _ s' => s'.Suits stream .plain := by
  refine .last _ fun b => ?_
  split
  · exact .last _ fun _ => .fail _
  · exact publishes_word _ (.nothing _ rfl)
  · exact publishes_constructorStart
  · exact .fail _

theorem publishes_otherValue : otherValue.Publishes fun _ s' => s'.Suits stream .plain := by
  refine .last _ fun r => ?_
  split
  · split
    · exact publishes_numberValue rfl
    · exact publishes_unexpected _
  · exact publishes_unexpected _

theorem publishes_value : value.Publishes fun _ s' => s'.Suits stream .plain := by
  refine .repeating (fun _ => .last _ fun b => ?_) ()
  split
  · exact publishes_nothing.before_pure
  · split
    · exact publishes_found (publishes_stringValue _ rfl)
    · exact publishes_found (publishes_word _ (.plain ⟨_, rfl⟩))
    · exact publishes_found publishes_nullOrConstructor
    · exact publishes_found (publishes_word _ (.plain rfl))
    · exact publishes_found (publishes_specialValue _ _)
    · exact publishes_found (publishes_negativeValue (publishes_numberValue rfl))
    · exact publishes_found (publishes_numberValue rfl)
    · exact .last_read fun _ => publishes_passComment fun _ _ h => h
    · rename_i lead container hlead
      have hcontainer : (Token.opening container).Carries (Slot.empty.value? stream) := by
        cases container with
        | constructor => exact absurd hlead (Lead.ofByte_ne_constructor _)
        | _ => rfl
      exact publishes_found (.last _ fun _ => publishes_openContainer hcontainer)
    · exact publishes_found (publishes_unexpected _)
    · exact publishes_found (publishes_closeContainer _)
    · exact publishes_found (.scalar (.plain rfl))
    · exact publishes_found publishes_otherValue

theorem publishes_property : property.Publishes fun _ s' => s'.Suits stream .plain := by
  refine .last _ fun b => .last_read fun settings => .last _ fun name => .last _ fun colon => ?_
  split
  · exact .last _ fun _ => .modify fun _ => Request.Admits.plain ⟨_, rfl⟩
  · exact publishes_unexpected _

theorem publishes_member : member.Publishes fun _ s' => s'.Suits stream .plain := by
  refine .repeating (fun _ => .last _ fun b => ?_) ()
  split
  · exact publishes_nothing.before_pure
  · exact publishes_found (publishes_closeContainer _)
  · exact .last_read fun _ => publishes_passComment fun _ _ h => h
  · exact publishes_found publishes_property

/-- Behind the last value there is at most a comment. -/
theorem publishes_epilogue (surface : Bool) (h : surface = true → request = .plain) :
    (epilogue surface).Publishes fun _ s' => s'.Suits stream request := by
  refine .repeating (fun _ => .last _ fun b => ?_) ()
  split
  · exact publishes_nothing.before_pure
  · exact publishes_passComment fun hsurface s' hs' => by rwa [h hsurface]
  · exact publishes_unexpected _

/-- What a separator leaves: a token, or a reader that goes on. -/
def Separated (stream : List UInt8) (request : Request) : Bool → State → Prop
  | true, s' => s'.Suits stream request
  | false, s' => s'.phase ≠ .closed

theorem publishes_separator (surface : Bool) (h : surface = true → request = .plain) :
    (separator surface).Publishes (Separated stream request) := by
  have hresume : (do
      update resumeContainer
      return .stop false : Reading (Turn Unit Bool)).Publishes
        (Leaves.Turned (fun _ _ => True) (Separated stream request)) :=
    (Publishes.update resumeContainer_ne_closed).before_pure
  have hended : (do
      modify fun s => { s with phase := .finished }
      return .stop false : Reading (Turn Unit Bool)).Publishes
        (Leaves.Turned (fun _ _ => True) (Separated stream request)) :=
    (Publishes.modify fun _ => nofun).before_pure
  refine .repeating (fun _ => .last _ fun b => ?_) ()
  split
  · exact hended
  · split
    · exact (publishes_closeContainer _).before_pure
    · exact publishes_passComment fun hsurface s' hs' => by
        rw [h hsurface]
        exact hs'
    · exact .last _ fun _ => hresume
    · refine .last_read fun settings => .last _ fun s => ?_
      split
      · exact hresume
      · exact publishes_unexpected _

theorem leaves_part (hphase : s.phase ≠ .closed) :
    part.Leaves settings s (fun _ s' => s'.Suits stream .plain) fun _ _ => True := by
  refine .get_bind ?_
  split
  · exact publishes_value.leaves settings s
  · exact publishes_value.leaves settings s
  · exact publishes_member.leaves settings s
  · exact publishes_member.leaves settings s
  · exact publishes_value.leaves settings s
  · exact publishes_value.leaves settings s
  · exact .read_bind ((publishes_epilogue _ fun _ => rfl).leaves settings s)
  · contradiction
  · exact .fail fun _ => trivial

/-- Every token that is found carries its value. -/
theorem leaves_token (hphase : s.phase ≠ .closed) :
    token.Leaves settings s (fun _ s' => s'.Suits stream .plain) fun _ _ => True := by
  refine .get_bind ?_
  split
  · have hseparator : (separator settings.surfaceComments).Publishes (Separated stream .plain) :=
      publishes_separator _ fun _ => rfl
    refine .read_bind ((hseparator.leaves settings s).bind fun b s' hs' => ?_)
    cases b with
    | true => exact .pure hs'
    | false => exact leaves_part hs'
  · exact leaves_part hphase

/-! ## Typed reads -/

theorem publishes_requireNull : requireNull.Publishes fun _ s' => s'.Suits stream request := by
  refine .last _ fun b => ?_
  split
  · exact .last _ fun _ => .fail _
  · exact publishes_word _ (.nothing _ rfl)
  · exact .last _ fun _ => .last _ fun _ => .fail _

theorem publishes_requestedNumber (request : Request) :
    (requestedNumber request).Publishes fun _ s' => s'.Suits stream request := by
  cases request with
  | boolean => exact .last _ fun _ => .last _ fun _ => .scalar (.boolean _)
  | bytes => exact publishes_unexpectedConsumed _
  | dateTime => exact publishes_unexpectedConsumed _
  | dateTimeOffset => exact publishes_unexpectedConsumed _
  | _ => exact publishes_numberValue rfl

theorem publishes_requestedBoolean (truth : Bool) (request : Request) :
    (requestedBoolean truth request).Publishes fun _ s' => s'.Suits stream request := by
  have hword : ∀ (literal : Literal) {kind : Scalar} {value : Value},
      request.Admits (.scalar kind) (some value) → (do
        if ← separateWord literal then
          update fun settings => publishScalar settings kind (.owned value) true
        else unexpected .value : Reading Unit).Publishes fun _ s' => s'.Suits stream request := by
    intro literal kind value h
    refine .last _ fun matched => ?_
    split
    · exact .scalar h
    · exact publishes_unexpected _
  cases request with
  | boolean => exact hword _ (.boolean truth)
  | string => exact hword _ (.string _)
  | _ => exact publishes_unexpectedConsumed _

/-- However the elements of an array are read, the bytes are published at its end. -/
theorem publishes_byteArray : byteArray.Publishes fun _ s' => s'.Suits stream .bytes := by
  refine .repeating (fun bytes => .last _ fun _ => .last _ fun found => ?_) []
  generalize hrest : (get >>= _ : Reading (Turn (List UInt8) Unit)) = rest
  have hpublishes : rest.Publishes
      (Leaves.Turned (fun _ _ => True) fun _ s' => s'.Suits stream .bytes) := by
    subst hrest
    refine .last _ fun s => ?_
    split
    · exact .fail _
    · split
      · split
        · exact ⟨fun _ _ => .pure trivial⟩
        · exact .fail _
      · exact .fail _
    · exact (Publishes.scalar (.bytes _)).before_pure
    · exact ⟨fun _ _ => .pure trivial⟩
    · exact .fail _
  dsimp only
  split
  · exact .last _ fun _ => hpublishes
  · exact hpublishes

theorem publishes_elidedValue {post : Unit → State → Prop} : elidedValue.Publishes post :=
  .last _ fun _ => .last _ fun _ => .last _ fun _ => ⟨fun _ _ => .throw trivial⟩

theorem publishes_endOfArray : endOfArray.Publishes fun _ s' => s'.Suits stream request := by
  refine .last _ fun s => ?_
  split
  · exact publishes_closeContainer _
  · exact .last _ fun _ => .fail _

theorem publishes_requestedValue (request : Request) :
    (requestedValue request).Publishes fun _ s' => s'.Suits stream request := by
  refine .repeating (fun _ => .last _ fun b => ?_) ()
  have hother : (Turn.stop <$> unexpectedConsumed .value : Reading (Turn Unit Unit)).Publishes
      (Leaves.Turned (fun _ _ => True) fun _ s' => s'.Suits stream request) :=
    .map (publishes_unexpectedConsumed _)
  dsimp only
  cases b with
  | none => exact publishes_nothing.map
  | some b =>
      dsimp only
      cases Lead.ofByte b with
      | quote mark => exact (publishes_text mark request).map
      | letterN => exact publishes_requireNull.map
      | special literal => exact (publishes_specialValue _ _).map
      | minus => exact (publishes_negativeValue (publishes_requestedNumber request)).map
      | number => exact (publishes_requestedNumber request).map
      | boolean truth => exact (publishes_requestedBoolean truth request).map
      | opening c =>
          cases c with
          | array =>
              dsimp only
              split
              · rename_i hbytes
                subst hbytes
                exact .map (.last _ fun _ => .last _ fun _ => publishes_byteArray)
              · exact hother
          | object => exact hother
          | constructor => exact hother
      | slash => exact .last _ fun _ => ⟨fun _ _ => .pure trivial⟩
      | comma => exact publishes_elidedValue.map
      | closing c =>
          cases c with
          | array => exact publishes_endOfArray.map
          | object => exact hother
          | constructor => exact hother
      | undefined => exact hother
      | other => exact hother

theorem leaves_requestedPart (request : Request) (hphase : s.phase ≠ .closed) :
    (requestedPart request).Leaves settings s (fun _ s' => s'.Suits stream request)
      fun _ _ => True := by
  refine .get_bind ?_
  dsimp only
  split
  · exact (publishes_requestedValue request).leaves settings s
  · split
    · exact ((publishes_epilogue false nofun).leaves settings s).bind fun _ _ hs' => .pure hs'
    · contradiction
    · exact .fail fun _ => trivial

/-- Every value that is read suits its request. -/
theorem leaves_requested (request : Request) (hphase : s.phase ≠ .closed) :
    (requested request).Leaves settings s (fun _ s' => s'.Suits stream request)
      fun _ _ => True := by
  refine .get_bind ?_
  split
  · have hseparator : (separator false).Publishes (Separated stream request) :=
      publishes_separator false nofun
    refine (hseparator.leaves settings s).bind fun b s' hs' => ?_
    cases b with
    | true => exact .pure hs'
    | false => exact leaves_requestedPart request hs'
  · exact leaves_requestedPart request hphase

end Reading

end JsonPull
