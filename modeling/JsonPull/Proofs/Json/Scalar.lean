import JsonPull.Proofs.Json.Layout
import JsonPull.Proofs.Json.Number
import JsonPull.Proofs.Json.Quoted

/-! # Scalars of JSON

Each scalar is published with the value that its text denotes, and the cursor stands behind it. -/

namespace JsonPull

open JsonPull.Json

variable {settings : Settings} {stream text rest : List UInt8} {s s₁ s' : State} {pos pos' : Nat}
  {kind : Scalar} {value : Option Value}

/-- A scalar was published with its value, and `rest` follows it. -/
structure Published (settings : Settings) (stream : List UInt8) (kind : Scalar)
    (value : Option Value) (rest : List UInt8) (s s' : State) (pos' : Nat) : Prop where
  published : ∃ slot : Slot, slot.value? stream = value ∧
    (s.publishScalar settings kind slot true).Same s'
  ahead : Ahead stream pos' rest

theorem Published.of_same (hs : s.Same s₁)
    (h : Published settings stream kind value rest s₁ s' pos') :
    Published settings stream kind value rest s s' pos' := by
  obtain ⟨slot, hslot, hsame⟩ := h.published
  exact ⟨⟨slot, hslot, (hs.publishScalar kind slot true).trans hsame⟩, h.ahead⟩

/-! ## What ends a number -/

theorem Lexeme.isByte_blank {b : UInt8} (h : Text.isBlankByte b = true ∨ 0x80 ≤ b) :
    Lexeme.isByte b = false := by
  simp only [Text.isBlankByte_iff, UInt8.le_iff_toNat_le, UInt8.reduceToNat] at h
  simp only [Lexeme.isByte, Number.isDigit, Bool.or_eq_false_iff, Bool.and_eq_false_iff,
    decide_eq_false_iff_not, beq_eq_false_iff_ne, ne_eq, UInt8.le_iff_toNat_le, ← UInt8.toNat_inj,
    UInt8.reduceToNat]
  omega

theorem Terminates.isByte_head? (h : Terminates rest) :
    ∀ b ∈ rest.head?, Lexeme.isByte b = false := by
  intro b hb
  rcases h.head b hb with hmark | hblank
  · simp only [List.mem_cons, List.not_mem_nil, or_false] at hmark
    rcases hmark with rfl | rfl | rfl | rfl | rfl <;> decide
  · exact Lexeme.isByte_blank hblank

namespace Reading

variable {post : Unit → State → Nat → Prop}

/-! ## Words -/

theorem succeeds_nullValue (hend : EndsWord s.phase rest)
    (h : Ahead stream pos ([0x6E, 0x75, 0x6C, 0x6C] ++ rest)) :
    nullValue.Succeeds settings stream s pos
      fun _ => Published settings stream .null none rest s := by
  have hword : Literal.null.bytes = [0x6E, 0x75, 0x6C, 0x6C] := rfl
  unfold nullValue
  rw [succeeds_bind, succeeds_requireWord hword (List.cons_ne_nil _ _) hend h, succeeds_update]
  exact ⟨⟨.empty, rfl, .refl _⟩, h.skip⟩

/-- The bytes of a truth value. -/
def wordOf (b : Bool) : List UInt8 :=
  if b then [0x74, 0x72, 0x75, 0x65] else [0x66, 0x61, 0x6C, 0x73, 0x65]

theorem succeeds_booleanValue {b : Bool} (hend : EndsWord s.phase rest)
    (h : Ahead stream pos (wordOf b ++ rest)) :
    (booleanValue b).Succeeds settings stream s pos
      fun _ => Published settings stream .boolean (some (.boolean b)) rest s := by
  have hword : (if b then Literal.true else Literal.false).bytes = wordOf b := by
    cases b <;> rfl
  have hne : wordOf b ≠ [] := by
    cases b <;> nofun
  unfold booleanValue
  rw [succeeds_bind, succeeds_requireWord hword hne hend h, succeeds_update]
  exact ⟨⟨.owned (.boolean b), rfl, .refl _⟩, h.skip⟩

theorem published_of_counted {slot : Slot} (hslot : slot.value? stream = value)
    (hsame : (s.completeValue settings).countElement.Same s₁) (h : Ahead stream pos rest) :
    Published settings stream kind value rest s (s₁.publishScalar settings kind slot false) pos := by
  refine ⟨⟨slot, hslot, ?_⟩, h⟩
  rw [← State.publishScalar_counted]
  exact hsame.publishScalar _ _ _

/-! ## Numbers -/

theorem succeeds_lexemeBytes (hbytes : ∀ b ∈ text, Lexeme.isByte b = true)
    (hend : ∀ b ∈ rest.head?, Lexeme.isByte b = false)
    (h : Ahead stream pos (text ++ rest)) {post : Option UInt8 → State → Nat → Prop}
    (hpost : post rest.head? s (pos + text.length)) :
    lexemeBytes.Succeeds settings stream s pos post := by
  induction text generalizing pos with
  | nil =>
      apply succeeds_repeating
      rw [succeeds_bind, succeeds_byte?, h.head?]
      cases rest with
      | nil => exact (succeeds_pure _).mpr hpost
      | cons b rest =>
          dsimp only [List.nil_append, List.head?_cons]
          rw [hend b rfl, if_neg Bool.false_ne_true, succeeds_pure]
          exact hpost
  | cons b text ih =>
      apply succeeds_repeating
      rw [succeeds_bind, succeeds_byte?, h.head?]
      dsimp only [List.cons_append, List.head?_cons]
      rw [hbytes b (List.mem_cons_self ..), if_pos rfl, succeeds_bind, succeeds_advance,
        succeeds_pure]
      refine ⟨Nat.lt_succ_self pos, h.lt, ?_⟩
      apply ih (fun b hb => hbytes b (List.mem_cons_of_mem _ hb)) h.tail
      rw [List.length_cons, Nat.add_comm text.length, ← Nat.add_assoc] at hpost
      exact hpost

theorem succeeds_lexeme (hbytes : ∀ b ∈ text, Lexeme.isByte b = true)
    (hrest : Terminates rest) (h : Ahead stream pos (text ++ rest)) :
    lexeme.Succeeds settings stream s pos
      fun _ s' pos' => s' = s ∧ pos' = pos + text.length := by
  unfold lexeme
  rw [succeeds_bind]
  apply succeeds_lexemeBytes hbytes hrest.isByte_head? h
  have hnext := h.skip
  cases hrest with
  | done => exact (succeeds_pure ()).mpr ⟨rfl, rfl⟩
  | mark hmark =>
      simp only [List.mem_cons, List.not_mem_nil, or_false] at hmark
      rcases hmark with rfl | rfl | rfl | rfl | rfl <;> exact (succeeds_pure ()).mpr ⟨rfl, rfl⟩
  | @blank c rest hblank =>
      cases hhead : (Text.encode c ++ rest).head? with
      | none => exact (succeeds_pure ()).mpr ⟨rfl, rfl⟩
      | some b =>
          dsimp only
          split
          · exact (succeeds_pure ()).mpr ⟨rfl, rfl⟩
          · rw [succeeds_bind]
            refine (succeeds_blankLength?_blank hblank hnext).mono ?_
            rintro _ _ _ ⟨rfl, rfl, rfl⟩
            rw [if_pos (by rfl)]
            exact (succeeds_pure ()).mpr ⟨rfl, rfl⟩

theorem succeeds_finishValue : finishValue.Succeeds settings stream s pos post ↔
    post () ((s.completeValue settings).countElement) pos :=
  succeeds_update _

/-- A number is read if it has a value, and then as that value. -/
theorem succeeds_numberValue (hbytes : ∀ b ∈ text, Lexeme.isByte b = true) (hend : Terminates rest)
    (h : Ahead stream pos (text ++ rest)) :
    (numberValue .plain).Succeeds settings stream s pos post ↔
      ∃ v, Lexeme.convert settings .plain text = .ok (some v) ∧
        post () ((s.completeValue settings).countElement.publishScalar settings (Lexeme.kind v)
          (.owned v) false) (pos + text.length) := by
  have hlexeme : lexeme.Succeeds settings stream s pos fun _ s' pos' =>
      s' = s ∧ pos' = pos + text.length := succeeds_lexeme hbytes hend h
  obtain ⟨_, _, _, ⟨rfl, rfl⟩, hexact⟩ := hlexeme.exact
  have hslice : (stream.drop pos).take (pos + text.length - pos) = text := by
    rw [Nat.add_sub_cancel_left, h.slice]
  have hplain : Lexeme.convert settings .plain text = (Lexeme.plain settings text).map some := rfl
  unfold numberValue
  rw [succeeds_bind, succeeds_settle, succeeds_bind, succeeds_cursor, succeeds_bind, hexact,
    succeeds_bind, succeeds_finishValue, succeeds_bind, succeeds_cursor, succeeds_bind,
    succeeds_hold, succeeds_bind, succeeds_bytesOf, succeeds_bind, succeeds_read, hslice, hplain]
  cases Lexeme.plain settings text with
  | ok v =>
      rw [Except.map]
      dsimp only
      rw [succeeds_update]
      exact ⟨fun hpost => ⟨v, rfl, hpost⟩, fun ⟨_, rfl, hpost⟩ => hpost⟩
  | error fault =>
      rw [Except.map]
      dsimp only
      rw [failNumber, succeeds_bind, succeeds_update]
      exact ⟨fun hfail => absurd hfail (not_succeeds_fail _), nofun⟩

theorem published_number (v : Value) (h : Ahead stream pos (text ++ rest)) :
    Published settings stream (Lexeme.kind v) (some v) rest s
      ((s.completeValue settings).countElement.publishScalar settings (Lexeme.kind v) (.owned v)
        false) (pos + text.length) :=
  published_of_counted rfl (.refl _) h.skip

theorem succeeds_negativeValue {request : Request} {b : UInt8} {number : Reading Unit}
    (hb : b ≠ 0x49) (h : Ahead stream pos (0x2D :: b :: rest)) :
    (negativeValue request number).Succeeds settings stream s pos post ↔
      number.Succeeds settings stream s pos post := by
  have hbyte : stream[pos + 1]? = some b := h.getElem? 1
  unfold negativeValue
  rw [succeeds_bind, succeeds_byte?, hbyte, if_neg (by simpa using hb)]

/-! ## Strings -/

theorem value?_slot (stream : List UInt8) (b : Body) :
    b.slot.value? stream = some (.string (b.text stream)) := by
  cases b <;> rfl

/-- What a string is read as: a date where dates are wanted and it writes one. -/
def textEntry (dates : DateHandling) (string : String) : Scalar × Value :=
  match dateOf? dates string with
  | some date => (.date, .date date)
  | none => (.string, .string string)

theorem succeeds_publishText {string : String} {b : Body} (dates : DateHandling)
    (hb : b.text stream = string) (hsame : (s.completeValue settings).countElement.Same s₁)
    (h : Ahead stream pos rest) :
    (publishText dates b).Succeeds settings stream s₁ pos
      fun _ => Published settings stream (textEntry dates string).1
        (some (textEntry dates string).2) rest s := by
  have hslot : b.slot.value? stream = some (.string string) := by rw [value?_slot, hb]
  unfold publishText
  split
  · rename_i hnone
    rw [succeeds_bind, succeeds_pure, hnone]
    exact (succeeds_update _).mpr (published_of_counted hslot hsame h)
  · rw [succeeds_bind, ← bind_pure_comp, succeeds_bind, succeeds_bodyText, hb, succeeds_pure,
      textEntry]
    cases dateOf? dates string with
    | some date => exact (succeeds_update _).mpr (published_of_counted rfl hsame h)
    | none => exact (succeeds_update _).mpr (published_of_counted hslot hsame h)

theorem succeeds_stringValue {string : String} (hquotes : Quotes text string)
    (h : Ahead stream pos (text ++ rest)) :
    (stringValue 0x22 .plain).Succeeds settings stream s pos
      fun _ => Published settings stream (textEntry settings.dates string).1
        (some (textEntry settings.dates string).2) rest s := by
  cases hquotes with
  | mk hbody =>
      rw [List.cons_append, List.append_assoc, List.singleton_append] at h
      unfold stringValue
      rw [succeeds_bind]
      refine succeeds_quoted hbody h fun b pos' hb hrest => ?_
      rw [succeeds_bind, succeeds_finishValue, succeeds_bind, succeeds_modify, if_neg nofun,
        succeeds_bind, succeeds_read, Request.dates]
      exact succeeds_publishText settings.dates hb ⟨rfl, rfl, rfl, rfl⟩ hrest

end Reading

end JsonPull
