import JsonPull.Proofs.Quotation.Items
import JsonPull.Proofs.Resume.Scalar

/-! # Reading well-formed strings

A string whose escapes are well formed is read to its closing quote, and what was collected by then
denotes its text. Escapes are taken over one by one, except that those behind a high surrogate are
looked at together. -/

namespace JsonPull

open JsonPull.Json JsonPull.Quotation

variable {settings : Settings} {stream rest body : List UInt8} {s : State} {pos : Nat}
  {quote b : UInt8} {items : List Item}

theorem Ahead.length_eq (h : Ahead stream pos rest) : rest.length = stream.length - pos := by
  rw [← h, List.length_drop]

theorem Quotation.simpleEscape?_letter {c : Char} (h : (b, c) ∈ letters) :
    b < 0x80 ∧ Text.simpleEscape? (Char.ofNat b.toNat) = some c := by
  rcases List.mem_cons.mp h with heq | hmem
  · cases heq
    exact ⟨by decide, rfl⟩
  · exact simpleEscape?_of_mem hmem

theorem Quotation.Spells.feed_ahead {more : List UInt8} (hbody : Spells quote items body)
    (hquote : quote ≠ 0x0A) (h : body ++ quote :: rest = 0x0A :: more) :
    ∃ items' body', Spells quote items' body' ∧ body = 0x0A :: body' ∧
      items = .byte 0x0A :: items' := by
  cases hbody with
  | nil => exact absurd (List.cons.inj h).1 hquote
  | byte hne hbackslash hrest =>
      obtain rfl := (List.cons.inj h).1
      exact ⟨_, _, hrest, rfl, rfl⟩
  | letter => cases (List.cons.inj h).1
  | unit => cases (List.cons.inj h).1

namespace Reading

/-- What is left of a body behind some characters of it: well-formed parts of at most this length,
with which the characters make up what is expected. -/
def Remains (quote : UInt8) (stream rest expected : List UInt8) (length : Nat) (chars : List Char)
    (pos : Nat) : Prop :=
  ∃ items body, Spells quote items body ∧ Ahead stream pos (body ++ quote :: rest) ∧
    body.length ≤ length ∧ chars.flatMap Text.encode ++ output none items = expected

theorem Remains.mono {expected : List UInt8} {length length' : Nat} {chars : List Char}
    (h : Remains quote stream rest expected length chars pos) (hle : length ≤ length') :
    Remains quote stream rest expected length' chars pos := by
  obtain ⟨items, body, hbody, hahead, hlength, heq⟩ := h
  exact ⟨items, body, hbody, hahead, hlength.trans hle, heq⟩

/-! ## Escapes -/

/-- Where no unit follows, a high surrogate stays alone. -/
theorem succeeds_surrogates_alone (hbody : Spells quote items body)
    (h : Ahead stream pos (body ++ quote :: rest))
    (hnext : ∀ more, body ++ quote :: rest ≠ 0x5C :: 0x75 :: more)
    (hitems : ∀ n more, items ≠ .unit n :: more) (written : List Char) (high : Nat) :
    (repeating surrogateTurn (written, high)).Succeeds settings stream s pos fun chars s' pos' =>
      s' = s ∧ Remains quote stream rest
        (written.reverse.flatMap Text.encode ++ output (some high) items) body.length chars
        pos' := by
  apply succeeds_repeating
  rw [succeeds_surrogateTurn_alone hnext _ _ h]
  refine ⟨rfl, items, body, hbody, h, le_rfl, ?_⟩
  rw [output_alone high hitems, List.reverse_cons, List.flatMap_append, List.flatMap_singleton,
    List.append_assoc]

/-- Behind a high surrogate, units are decoded until one is no high surrogate. -/
theorem succeeds_surrogates_spells (hquote : quote ≠ 0x5C) (hbody : Spells quote items body)
    (h : Ahead stream pos (body ++ quote :: rest)) (written : List Char) (high : Nat) :
    (repeating surrogateTurn (written, high)).Succeeds settings stream s pos fun chars s' pos' =>
      s' = s ∧ Remains quote stream rest
        (written.reverse.flatMap Text.encode ++ output (some high) items) body.length chars
        pos' := by
  induction hbody generalizing pos written high with
  | nil =>
      refine succeeds_surrogates_alone .nil h (fun more heq => ?_) nofun written high
      exact hquote (List.cons.inj heq).1
  | byte hne hbackslash hrest ih =>
      refine succeeds_surrogates_alone (.byte hne hbackslash hrest) h (fun more heq => ?_) nofun
        written high
      exact hbackslash (List.cons.inj heq).1
  | letter hletter hrest ih =>
      refine succeeds_surrogates_alone (.letter hletter hrest) h (fun more heq => ?_) nofun
        written high
      obtain rfl := (List.cons.inj (List.cons.inj heq).2).1
      cases (simpleEscape?_letter hletter).2
  | @unit n digits items body hunit hrest ih =>
      rw [List.cons_append, List.cons_append, List.append_assoc] at h
      have hahead := hunit.skip h
      have hle : body.length ≤ (0x5C :: 0x75 :: (digits ++ body)).length := by
        simp only [List.length_cons, List.length_append]
        omega
      apply succeeds_repeating
      rw [succeeds_surrogateTurn hunit _ _ h, output]
      cases hlow : Text.isLowSurrogate n with
      | true =>
          rw [if_pos rfl, if_pos rfl]
          refine ⟨rfl, items, body, hrest, hahead, hle, ?_⟩
          simp
      | false =>
          rw [if_neg Bool.false_ne_true, if_neg Bool.false_ne_true]
          cases hhigh : Text.isHighSurrogate n with
          | true =>
              rw [if_pos rfl, if_pos rfl]
              refine ⟨by omega, h.lt, (ih hahead _ _).mono ?_⟩
              rintro chars s' pos' ⟨rfl, hremains⟩
              refine ⟨rfl, ?_⟩
              simpa using hremains.mono hle
          | false =>
              rw [if_neg Bool.false_ne_true, if_neg Bool.false_ne_true]
              refine ⟨rfl, items, body, hrest, hahead, hle, ?_⟩
              simp

theorem succeeds_escape_spells {tail : List UInt8} (hquote : quote ≠ 0x5C)
    (hbody : Spells quote items (0x5C :: tail))
    (h : Ahead stream pos (0x5C :: (tail ++ quote :: rest))) :
    (escapeLetter quote >>= escape).Succeeds settings stream s pos fun chars s' pos' =>
      s' = s ∧ Remains quote stream rest (output none items) tail.length chars pos' := by
  cases hbody with
  | byte _ hbackslash _ => exact absurd rfl hbackslash
  | @letter b c items body hletter hrest =>
      obtain ⟨hb, hc⟩ := simpleEscape?_letter hletter
      rw [succeeds_escape_simple hb hc h]
      refine ⟨rfl, items, body, hrest, h.tail.tail, Nat.le_succ _, ?_⟩
      rw [List.flatMap_singleton, output]
  | @unit n digits items body hunit hrest =>
      rw [List.cons_append, List.append_assoc] at h
      have hahead := hunit.skip h
      have hle : body.length ≤ (0x75 :: (digits ++ body)).length := by
        simp only [List.length_cons, List.length_append]
        omega
      rw [succeeds_escape_unicode h, unicodeEscape, succeeds_bind,
        succeeds_escapeUnit hunit h.tail.tail, output]
      cases hhigh : Text.isHighSurrogate n with
      | true =>
          rw [if_pos rfl, if_pos rfl, surrogates]
          refine (succeeds_surrogates_spells hquote hrest hahead [] n).mono ?_
          rintro chars s' pos' ⟨rfl, hremains⟩
          exact ⟨rfl, hremains.mono hle⟩
      | false =>
          rw [if_neg Bool.false_ne_true, if_neg Bool.false_ne_true, succeeds_pure]
          refine ⟨rfl, items, body, hrest, hahead, hle, ?_⟩
          rw [List.flatMap_singleton]

/-! ## Bodies -/

/-- How a turn ends at a body of this length, where bytes are expected in all. It leaves a shorter
body, which makes them up with what was kept of the rest, or the string ends and is their text. -/
@[reducible] def Spelled (quote : UInt8) (first : Nat) (stream rest expected : List UInt8)
    (length : Nat) (s : State) : Turn Partial Body → State → Nat → Prop
  | .again p, s', pos' => ∃ items body text, Spells quote items body ∧
      Ahead stream pos' (body ++ quote :: rest) ∧ body.length < length ∧ s.Same s' ∧
      Kept stream first pos' p text ∧ text ++ output none items = expected
  | .stop b, s', pos' =>
      s.Same s' ∧ b.text stream = Text.ofBytes expected ∧ Ahead stream pos' rest

variable {first : Nat} {p : Partial} {text : List UInt8}

theorem succeeds_bodyTurn_spells_escape {tail : List UInt8} (hquote : quote ≠ 0x5C)
    (hkept : Kept stream first pos p text) (hbody : Spells quote items (0x5C :: tail))
    (h : Ahead stream pos (0x5C :: (tail ++ quote :: rest))) :
    (bodyTurn quote first p).Succeeds settings stream s pos
      (Spelled quote first stream rest (text ++ output none items) (0x5C :: tail).length s) := by
  refine succeeds_bodyTurn_escape h ((succeeds_escape_spells hquote hbody h).mono ?_)
  rintro chars s' pos' ⟨rfl, items', body', hbody', hahead, hle, htext⟩
  refine ⟨items', body', _, hbody', hahead, Nat.lt_succ_of_le hle, .refl s',
    hkept.escape chars pos', ?_⟩
  rw [List.append_assoc, htext]

theorem succeeds_bodyTurn_spells_byte (hquote : quote ≠ 0x0A) (hb : b ≠ quote ∧ b ≠ 0x5C)
    (hkept : Kept stream first pos p text) (hbody : Spells quote items body)
    (h : Ahead stream pos (b :: (body ++ quote :: rest))) :
    (bodyTurn quote first p).Succeeds settings stream s pos
      (Spelled quote first stream rest (text ++ output none (.byte b :: items)) (b :: body).length
        s) := by
  have hnext : Kept stream first (pos + 1) p (text ++ [b]) := by
    have hahead : Ahead stream pos ([b] ++ (body ++ quote :: rest)) := h
    exact hkept.plain hahead
  have htext : (text ++ [b]) ++ output none items = text ++ output none (.byte b :: items) := by
    rw [output, List.append_assoc, List.singleton_append]
  by_cases hreturn : b = 0x0D
  · subst hreturn
    rw [succeeds_bodyTurn_return h]
    refine succeeds_takeReturn h ?_ fun s' _ hsame =>
      ⟨items, body, _, hbody, h.tail, Nat.lt_succ_self _, hsame, hnext, htext⟩
    -- The feed behind a return is taken in the same turn.
    intro more s' hmore hsame
    obtain ⟨items', body', hbody', rfl, rfl⟩ := hbody.feed_ahead hquote hmore
    have hfeed : Kept stream first (pos + 2) p ((text ++ [0x0D]) ++ [0x0A]) := by
      have hahead : Ahead stream (pos + 1) ([0x0A] ++ (body' ++ quote :: rest)) := h.tail
      exact hnext.plain hahead
    refine ⟨items', body', _, hbody', h.tail.tail, by simp, hsame, hfeed, ?_⟩
    rw [← htext, output, List.append_assoc (text ++ [0x0D]), List.singleton_append]
  by_cases hfeed : b = 0x0A
  · subst hfeed
    rw [succeeds_bodyTurn_feed h]
    exact ⟨items, body, _, hbody, h.tail, Nat.lt_succ_self _, same_lines s _, hnext, htext⟩
  · rw [succeeds_bodyTurn_plain ⟨hb.2, hreturn, hfeed, hb.1⟩ h]
    exact ⟨items, body, _, hbody, h.tail, Nat.lt_succ_self _, .refl s, hnext, htext⟩

theorem succeeds_bodyTurn_spells_quote (hquote : quote ≠ 0x5C ∧ quote ≠ 0x0D ∧ quote ≠ 0x0A)
    (hkept : Kept stream first pos p text) (h : Ahead stream pos (quote :: rest)) (length : Nat) :
    (bodyTurn quote first p).Succeeds settings stream s pos
      (Spelled quote first stream rest text length s) := by
  refine (succeeds_bodyTurn_quote hquote h).mpr ⟨.refl s, ?_, h.tail⟩
  rw [hkept.text_eq]
  cases hescaped : p.escaped with
  | true => rfl
  | false =>
      obtain ⟨hbytes, hstart⟩ := hkept.whole hescaped
      rw [if_neg Bool.false_ne_true, Body.text, Partial.raw, hbytes, hstart]
      rfl

/-- A turn takes the first part of a body over, or its closing quote. -/
theorem succeeds_bodyTurn_spells (hquote : quote ≠ 0x5C ∧ quote ≠ 0x0D ∧ quote ≠ 0x0A)
    (hkept : Kept stream first pos p text) (hbody : Spells quote items body)
    (h : Ahead stream pos (body ++ quote :: rest)) :
    (bodyTurn quote first p).Succeeds settings stream s pos
      (Spelled quote first stream rest (text ++ output none items) body.length s) := by
  have hescaped : ∀ {tail : List UInt8}, body = 0x5C :: tail →
      (bodyTurn quote first p).Succeeds settings stream s pos
        (Spelled quote first stream rest (text ++ output none items) body.length s) := by
    rintro tail rfl
    exact succeeds_bodyTurn_spells_escape hquote.1 hkept hbody h
  cases hbody with
  | nil =>
      rw [output, List.append_nil]
      exact succeeds_bodyTurn_spells_quote hquote hkept h _
  | byte hne hbackslash hrest =>
      exact succeeds_bodyTurn_spells_byte hquote.2.2 ⟨hne, hbackslash⟩ hkept hrest h
  | letter => exact hescaped rfl
  | unit => exact hescaped rfl

/-- A body is read up to its closing quote, behind the bytes that were collected before. -/
theorem succeeds_bodyTurns_spells (hquote : quote ≠ 0x5C ∧ quote ≠ 0x0D ∧ quote ≠ 0x0A)
    (hkept : Kept stream first pos p text) (hbody : Spells quote items body)
    (h : Ahead stream pos (body ++ quote :: rest)) :
    (repeating (bodyTurn quote first) p).Succeeds settings stream s pos fun b s' pos' =>
      s.Same s' ∧ b.text stream = Text.ofBytes (text ++ output none items) ∧
        Ahead stream pos' rest := by
  induction hlength : body.length using Nat.strong_induction_on
    generalizing body items pos s p text with
  | _ length ih =>
      subst hlength
      apply succeeds_repeating
      refine (succeeds_bodyTurn_spells hquote hkept hbody h).mono ?_
      rintro (p' | b) s' pos' hturn
      · obtain ⟨items', body', text', hbody', hahead, hlt, hsame, hkept', htext⟩ := hturn
        have hbefore := h.length_eq
        have hafter := hahead.length_eq
        simp only [List.length_append, List.length_cons] at hbefore hafter
        refine ⟨by omega, by omega, (ih body'.length hlt hkept' hbody' hahead rfl).mono ?_⟩
        rintro b s'' pos'' ⟨hsame', hb, hrest⟩
        exact ⟨hsame.trans hsame', by rw [hb, htext], hrest⟩
      · exact hturn

/-- A well-formed string is read as the text that it denotes. -/
theorem succeeds_quoted_spells (hquote : quote = 0x22 ∨ quote = 0x27)
    (hbody : Spells quote items body) (h : Ahead stream pos (quote :: (body ++ quote :: rest))) :
    (quoted quote).Succeeds settings stream s pos fun b s' pos' =>
      s.Same s' ∧ b.text stream = Quotation.text items ∧ Ahead stream pos' rest := by
  have hplain : quote ≠ 0x5C ∧ quote ≠ 0x0D ∧ quote ≠ 0x0A := by
    rcases hquote with rfl | rfl <;> decide
  have hkept : Kept stream (pos + 1) (pos + 1) { start := pos + 1 } [] :=
    ⟨le_rfl, by simp [Partial.raw], fun _ => ⟨rfl, rfl⟩⟩
  unfold quoted
  rw [succeeds_bind, succeeds_advance, succeeds_bind, succeeds_settle, Reading.body, succeeds_bind,
    succeeds_cursor, ← ofBytes_output]
  exact succeeds_bodyTurns_spells hplain hkept hbody h.tail

end Reading

end JsonPull
